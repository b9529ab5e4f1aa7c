/-
Delivery of the frames that `transmit_with` sends.

A frame is written to section 0 of the send buffer, and a packet on the send ring tells
the host where it lies.  The host reads the ring at any later time, finds the message in
the section and completes the packet; it completes what it has read, and each packet
once.  Up to then the section must still hold the message of that packet.

* `handedOver` — the messages that went through section 0, in order;
* `inFlight_intact` — section 0 holds the message of the packet in flight;
* `Net` — the system with what the host has read, and `netStep` its steps;
* `delivered_of_run` — the host gets the frames that `transmit_with` has handed over, in
  order and unchanged, and all of them once it has read the ring.
-/
import Embclox.NetvscGrowth

open Bytes Effect Ring Nvsp Run

namespace Netvsc

/-! ### Messages through section 0 -/

/-- The messages written to section 0 and handed to the host. -/
def handedOver : List Event → List (Sender × List UInt8)
  | [] => []
  | .wrote sender bytes :: .sent _ _ _ :: log => (sender, bytes) :: handedOver log
  | _ :: log => handedOver log

/-- The packet that hands a message over. -/
def announces (m : Sender × List UInt8) : UInt16 × List UInt8 :=
  (vmPktDataInband, sectionMessage m.1.channelType m.2.length)

/-- The frame of a message that `transmit_with` wrote. -/
def frameOf : Sender × List UInt8 → Option (List UInt8)
  | (.transmit, bytes) => some (bytes.drop rndisPacketHdrSize)
  | _ => none

/-- The frames that `transmit_with` has handed over. -/
def transmitted (log : List Event) : List (List UInt8) := (handedOver log).filterMap frameOf

/-- The packets that hand section 0 over, among these. -/
def sectionPackets (xs : List (UInt16 × List UInt8)) : List (UInt16 × List UInt8) :=
  xs.filter fun x => isSectionPacket x.1 x.2

theorem sectionPackets_append (xs ys : List (UInt16 × List UInt8)) :
    sectionPackets (xs ++ ys) = sectionPackets xs ++ sectionPackets ys :=
  List.filter_append ..

theorem sectionPackets_cons {x : UInt16 × List UInt8} (h : isSectionPacket x.1 x.2 = true)
    (xs : List (UInt16 × List UInt8)) : sectionPackets (x :: xs) = x :: sectionPackets xs :=
  List.filter_cons_of_pos h

theorem sectionPackets_skip {x : UInt16 × List UInt8} (h : ¬ isSectionPacket x.1 x.2 = true)
    (xs : List (UInt16 × List UInt8)) : sectionPackets (x :: xs) = sectionPackets xs :=
  List.filter_cons_of_neg h

section

variable {e : Event} {log : List Event} {sender : Sender} {bytes : List UInt8}

theorem handedOver_cons (he : e.touchesSection = false) :
    handedOver (e :: log) = handedOver log := by
  cases e with
  | wrote sender bytes => exact absurd he (by simp [Event.touchesSection])
  | _ => rfl

theorem handedOver_sent {packetType : UInt16} {transactionId : UInt64} {payload : List UInt8} :
    handedOver (.wrote sender bytes :: .sent packetType transactionId payload :: log) =
      (sender, bytes) :: handedOver log := rfl

theorem handedOver_append {new : List Event} (h : Framed log) :
    handedOver (log ++ new) = handedOver log ++ handedOver new := by
  induction h with
  | nil => rfl
  | plain he _ ih => rw [List.cons_append, handedOver_cons he, handedOver_cons he, ih]
  | handed _ he _ ih =>
    rcases he with rfl | ⟨transactionId, rfl⟩
    · exact ih
    · exact congrArg (_ :: ·) ih

/-- The section packets that were sent announce the messages. -/
theorem sectionPackets_sents (h : Framed log) :
    sectionPackets (sents log) = (handedOver log).map announces := by
  induction h with
  | nil => rfl
  | @plain e log he _ ih =>
    rw [handedOver_cons he, ← ih]
    cases e with
    | wrote sender bytes => exact absurd he (by simp [Event.touchesSection])
    | sent packetType transactionId payload =>
      exact @sectionPackets_skip (packetType, payload) (Bool.eq_false_iff.mp he) _
    | _ => rfl
  | handed _ he _ ih =>
    rcases he with rfl | ⟨transactionId, rfl⟩
    · exact ih
    · rw [handedOver_sent, List.map_cons, ← ih]
      exact sectionPackets_cons (isSectionPacket_sectionMessage _ _) _

theorem sends_eq (log : List Event) : sends log = (sectionPackets (sents log)).length := by
  rw [sends, sectionPackets, ← List.countP_eq_length_filter, sents, List.countP_filterMap]
  refine List.countP_congr fun e _ => ?_
  cases e <;> exact Iff.rfl

theorem sends_eq_handedOver (h : Framed log) : sends log = (handedOver log).length := by
  rw [sends_eq, sectionPackets_sents h, List.length_map]

theorem isFrame_of_mem (h : Framed log) {m : Sender × List UInt8} (hm : m ∈ handedOver log)
    (ht : m.1 = .transmit) : IsFrame m.2 := by
  induction h with
  | nil => exact absurd hm (by simp [handedOver])
  | plain he _ ih => exact ih (by rwa [handedOver_cons he] at hm)
  | handed hframe he _ ih =>
    rcases he with rfl | ⟨transactionId, rfl⟩
    · exact ih hm
    · rw [handedOver_sent] at hm
      rcases List.mem_cons.mp hm with rfl | hm
      · exact hframe ht
      · exact ih hm

/-- Where the last message was handed over. -/
theorem exists_last (h : Framed log) {ms : List (Sender × List UInt8)} {m : Sender × List UInt8}
    (hm : handedOver log = ms ++ [m]) :
    ∃ pre e post, Framed pre ∧ e.handsOverAs m.1 m.2 ∧ log = pre ++ .wrote m.1 m.2 :: e :: post ∧
      sends post = 0 := by
  induction h generalizing ms with
  | nil => exact absurd hm (by simp [handedOver])
  | @plain e log he _ ih =>
    obtain ⟨pre, e', post, hpre, he', rfl, hpost⟩ := ih (by rwa [handedOver_cons he] at hm)
    exact ⟨e :: pre, e', post, .plain he hpre, he', rfl, hpost⟩
  | @handed sender bytes e log hframe he hlog ih =>
    -- a message before the last one, or one that could not be handed over
    have hlater : ∀ ms, handedOver log = ms ++ [m] → ∃ pre e' post, Framed pre ∧
        e'.handsOverAs m.1 m.2 ∧
        .wrote sender bytes :: e :: log = pre ++ .wrote m.1 m.2 :: e' :: post ∧ sends post = 0 := by
      intro ms hms
      obtain ⟨pre, e', post, hpre, he', rfl, hpost⟩ := ih hms
      exact ⟨_ :: _ :: pre, e', post, .handed hframe he hpre, he', rfl, hpost⟩
    rcases he with rfl | ⟨transactionId, rfl⟩
    · exact hlater ms hm
    · rw [handedOver_sent] at hm
      cases ms with
      | cons m' ms => exact hlater ms (List.cons.inj hm).2
      | nil =>
        obtain ⟨rfl, hnone⟩ := List.cons.inj hm
        refine ⟨[], _, log, .nil, .inr ⟨transactionId, rfl⟩, rfl, ?_⟩
        rw [sends_eq_handedOver hlog, hnone]
        rfl

/-- What has been received stays received. -/
theorem mem_received_append {k : ℕ} (new : List Event) (h : k ∈ received log) :
    k ∈ received (log ++ new) := by
  obtain ⟨x, hx, hk⟩ := List.mem_filterMap.mp h
  refine List.mem_filterMap.mpr ⟨x, ?_, hk⟩
  rw [puts_append, removedCount_append, List.take_append]
  refine List.mem_append_left _ ?_
  exact (List.take_prefix_take_left (Nat.le_add_right _ _)).subset hx

/-- **Section 0 holds the message in flight.** -/
theorem inFlight_intact (h : Framed log) (hexcl : Exclusive log)
    {ms : List (Sender × List UInt8)} {m : Sender × List UInt8} (hm : handedOver log = ms ++ [m])
    (hflight : ms.length ∉ received log) (buf : ℕ → UInt8) :
    Memory.read (replay buf log) 0 m.2.length = m.2 := by
  have hlen : sends log = ms.length + 1 := by
    rw [sends_eq_handedOver h, hm, List.length_append]
    rfl
  obtain ⟨pre, e, post, hpre, he, rfl, hpost⟩ := exists_last h hm
  -- nothing touches the section behind the message
  have hquiet : ∀ e' ∈ post, e'.touchesSection = false := by
    intro e' he'
    obtain ⟨post₁, post₂, rfl⟩ := List.append_of_mem he'
    by_contra htouch
    have hsplit : pre ++ Event.wrote m.1 m.2 :: e :: (post₁ ++ e' :: post₂) =
        (pre ++ Event.wrote m.1 m.2 :: e :: post₁) ++ e' :: post₂ := by simp
    have hsends : ms.length < sends (pre ++ Event.wrote m.1 m.2 :: e :: post₁) := by
      rw [hsplit, sends_append] at hlen
      rw [sends_append] at hpost
      omega
    refine hflight ?_
    rw [hsplit]
    exact mem_received_append _
      (hexcl _ e' post₂ hsplit (by simpa using htouch) ms.length hsends)
  rw [replay_append hpre, replay_handed he, replay_untouched hquiet]
  exact Memory.read_write _ _ _

end

/-! ### The host -/

/-- The frame in an `RNDIS_PACKET_MSG`. -/
def rndisFrame (msg : List UInt8) : List UInt8 :=
  (msg.drop (rndisHeaderSize + (u32At msg 8).toNat)).take (u32At msg 12).toNat

/-- The system, the number of section packets that the host has read, and the frames it
found. -/
structure Net where
  sys : Sys
  seen : ℕ
  frames : List (List UInt8)

/-- What the host does with a packet: the NVSP message names the kind of channel and the
length of the message in section 0. -/
def Net.reads (n : Net) (packetType : UInt16) (body : List UInt8) : Net :=
  if isSectionPacket packetType body then
    { n with
      seen := n.seen + 1
      frames := n.frames ++ if u32At body 4 = 0 then
        [rndisFrame (Memory.read n.sys.dev.sendBuf 0 (u32At body 12).toNat)] else [] }
  else n

/-- The host reads the send ring. -/
def Net.observe (n : Net) : Act → Net
  | .take =>
    match (recvPacketRaw maxBody n.sys.dev.send).1 with
    | .ok (some (desc, body)) => n.reads desc.packetType body
    | _ => n
  | _ => n

def netStep (n : Net) (a : Act) : Option Net :=
  (step n.sys a).map fun s => { n.observe a with sys := s }

/-- The packet that the host completes. -/
def Act.completes? : Act → Option ℕ
  | .put _ _ tag => tag
  | _ => none

/-- The host completes packets that it has read, each at most once, and no keepalive is
answered. -/
def NetHost (n : Net) (a : Act) : Prop :=
  TxHost n.sys a ∧ NoReply n.sys a ∧ ∀ k ∈ a.completes?, k < n.seen

instance (n : Net) (a : Act) : Decidable (NetHost n a) :=
  inferInstanceAs (Decidable (_ ∧ _ ∧ ∀ k ∈ a.completes?, k < n.seen))

def openedNet (ram : Ram) : Net := ⟨openedSys ram, 0, []⟩

/-! ### What the host reads -/

theorem sectionMessage_words (channelType : UInt32) (len : ℕ) :
    u32At (sectionMessage channelType len) 4 = channelType ∧
      u32At (sectionMessage channelType len) 12 = UInt32.ofNat len := by
  simp only [sectionMessage, buildNvspSendRndisPkt, nvspMessagePadded, nvspMessage,
    List.append_assoc]
  constructor
  · rw [u32At_skip _ _ 0, u32At_head]
  · rw [u32At_skip _ _ 8, u32At_skip _ _ 4, u32At_skip _ _ 0, u32At_head]

theorem rndisFrame_of_isFrame {bytes : List UInt8} (h : IsFrame bytes) :
    rndisFrame bytes = bytes.drop rndisPacketHdrSize := by
  obtain ⟨frame, rfl, hlen⟩ := h
  obtain ⟨-, -, hoffset, hdata⟩ := packetHeader_words frame.length frame
  have hfield : (UInt32.ofNat frame.length).toNat = frame.length := by
    unfold netvscSendBufSize at hlen
    rw [UInt32.toNat_ofNat', Nat.mod_eq_of_lt (by omega)]
  have hstart : rndisHeaderSize + (UInt32.ofNat rndisPacketSize).toNat = rndisPacketHdrSize := rfl
  rw [rndisFrame, hoffset, hdata, hfield, hstart, List.drop_left' (length_packetHeader _),
    List.take_length]

/-- The host finds the frame of a message, if it has one. -/
theorem frames_of_message {buf : ℕ → UInt8} {m : Sender × List UInt8} {body : List UInt8}
    (hbody : body = sectionMessage m.1.channelType m.2.length)
    (hintact : Memory.read buf 0 m.2.length = m.2) (hframe : m.1 = .transmit → IsFrame m.2) :
    (if u32At body 4 = 0 then [rndisFrame (Memory.read buf 0 (u32At body 12).toNat)] else []) =
      (frameOf m).toList := by
  obtain ⟨sender, bytes⟩ := m
  obtain ⟨htype, hsize⟩ := sectionMessage_words sender.channelType bytes.length
  rw [hbody, htype, hsize]
  cases sender with
  | transmit =>
    have hfield : (UInt32.ofNat bytes.length).toNat = bytes.length := by
      obtain ⟨frame, rfl, hlen⟩ := hframe rfl
      unfold netvscSendBufSize at hlen
      rw [UInt32.toNat_ofNat', List.length_append, length_packetHeader,
        Nat.mod_eq_of_lt (by omega)]
    rw [hfield]
    show [rndisFrame (Memory.read buf 0 bytes.length)] = [bytes.drop rndisPacketHdrSize]
    rw [hintact, rndisFrame_of_isFrame (hframe rfl)]
  | control => rfl
  | keepalive => rfl

/-! ### The invariant -/

structure NetInv (n : Net) : Prop where
  base : Base n.sys.dev
  tx : TxInv n.sys.dev.view
  sized : n.sys.ctl.sized
  framed : Framed n.sys.dev.log
  /-- Section 0 is what the history says. -/
  sendBuf : ∃ buf, n.sys.dev.sendBuf = replay buf n.sys.dev.log
  /-- The send ring holds the packets that the host has not read. -/
  ring : ∃ done q, Repr n.sys.dev.send q ∧ sents n.sys.dev.log = done ++ q.map typed ∧
    n.seen = (sectionPackets done).length
  /-- What is completed has been read. -/
  tags : ∀ x ∈ puts n.sys.dev.log, ∀ k, x.tag = some k → k < n.seen
  frames : n.frames = ((handedOver n.sys.dev.log).take n.seen).filterMap frameOf

theorem netInv_opened (ram : Ram) : NetInv (openedNet ram) where
  base := base_openedDevice ram
  tx := txInv_opened ram
  sized := trivial
  framed := .nil
  sendBuf := ⟨ram.sendBuf, rfl⟩
  ring := ⟨[], [], freshRing_repr (by decide) (by decide) (by decide), rfl, rfl⟩
  tags := fun x hx => absurd hx (by simp [openedNet, openedSys, openedDevice, puts])
  frames := rfl

theorem puts_of_step {s u : Sys} {a : Act} (hb : Base s.dev) (h : step s a = some u) {x : Posted}
    (hx : x ∈ puts u.dev.log) : x ∈ puts s.dev.log ∨ x.tag = a.completes? := by
  cases a with
  | guest env =>
    rcases guest_moves hb h with ⟨-, -, hw⟩ | ⟨k, p, w, -, -, -, ht, -, hw⟩
    · exact .inl ((moves_ring hw).1 ▸ hx)
    · exact .inl (((moves_ring hw).1.trans ht.ring.1) ▸ hx)
  | call c => exact .inl ((moves_ring (call_moves hb h).2.2).1 ▸ hx)
  | put p mem tag =>
    obtain ⟨r, rfl⟩ := step_put h
    rcases List.mem_append.mp (puts_append s.dev.log _ ▸ hx) with hx | hx
    · exact .inl hx
    · obtain rfl := List.mem_singleton.mp hx
      exact .inr rfl
  | take =>
    obtain rfl := Option.some.inj h
    exact .inl hx

section

variable {n : Net} {s : Sys} {a : Act}

theorem NetInv.seen_le (hn : NetInv n) : n.seen ≤ (handedOver n.sys.dev.log).length := by
  obtain ⟨done, q, -, hsents, hseen⟩ := hn.ring
  have hlen := congrArg List.length (sectionPackets_sents hn.framed)
  rw [hsents, sectionPackets_append, List.length_append, List.length_map] at hlen
  rw [hseen, ← hlen]
  exact Nat.le_add_right _ _

/-- A step of the guest, or a packet of the host. -/
theorem NetInv.grow (hn : NetInv n) (hg : NetHost n a) (ha : a ≠ .take)
    (h : step n.sys a = some s) : NetInv { n with sys := s } := by
  obtain ⟨new, hnew⟩ := grows_step hn.base.send hn.sized ha h
  obtain ⟨done, q, hq, hsents, hseen⟩ := hn.ring
  obtain ⟨q', hq', htyped⟩ := hnew.send q hq
  obtain ⟨buf, hbuf⟩ := hn.sendBuf
  refine ⟨base_of_step hn.base h, txInv_step hn.base hn.tx hg.1 hg.2.1 h, sized_step hn.sized h,
    ?_, ⟨buf, ?_⟩, ⟨done, q ++ q', hq', ?_, hseen⟩, ?_, ?_⟩
  · rw [hnew.log]
    exact hn.framed.append hnew.framed
  · rw [hnew.log, replay_append hn.framed, ← hbuf]
    exact hnew.sendBuf
  · rw [hnew.log, sents_append, hsents, List.map_append, htyped, List.append_assoc]
  · intro x hx k hk
    rcases puts_of_step hn.base h hx with hx | htag
    · exact hn.tags x hx k hk
    · exact hg.2.2 k (htag.symm.trans hk)
  · rw [hnew.log, handedOver_append hn.framed, List.take_append_of_le_length hn.seen_le]
    exact hn.frames

/-- The section packet at the head of the ring announces the last message, which is
still in section 0. -/
theorem NetInv.message (hn : NetInv n) {done rest : List (UInt16 × List UInt8)} {p : Packet}
    (hsents : sents n.sys.dev.log = done ++ typed p :: rest)
    (hseen : n.seen = (sectionPackets done).length)
    (hsec : isSectionPacket p.desc.packetType p.body = true) :
    ∃ ms m, handedOver n.sys.dev.log = ms ++ [m] ∧ ms.length = n.seen ∧
      p.body = sectionMessage m.1.channelType m.2.length ∧
      Memory.read n.sys.dev.sendBuf 0 m.2.length = m.2 := by
  have hpackets := sectionPackets_sents hn.framed
  rw [hsents, sectionPackets_append, sectionPackets_cons hsec] at hpackets
  obtain ⟨ms, l, hlog, hms, hl⟩ := List.map_eq_append_iff.mp hpackets.symm
  obtain ⟨m, ms', rfl, hm, -⟩ := List.map_eq_cons_iff.mp hl
  have hlen : ms.length = n.seen := by rw [hseen, ← hms, List.length_map]
  -- the host has not completed it, so it is the last one
  have hflight : ms.length ∉ received n.sys.dev.log := by
    intro hmem
    obtain ⟨x, hx, hk⟩ := List.mem_filterMap.mp hmem
    exact absurd (hn.tags x (List.mem_of_mem_take hx) _ hk) (by omega)
  have hsends : sends n.sys.dev.log = ms.length + 1 + ms'.length := by
    rw [sends_eq_handedOver hn.framed, hlog, List.length_append, List.length_cons]
    omega
  have hlast := hn.tx.last ms.length (by show _ < sends n.sys.dev.log; omega) hflight
  obtain rfl : ms' = [] :=
    List.length_eq_zero_iff.mp (by have : ms.length + 1 = sends n.sys.dev.log := hlast; omega)
  obtain ⟨buf, hbuf⟩ := hn.sendBuf
  refine ⟨ms, m, hlog, hlen, (congrArg Prod.snd hm).symm, ?_⟩
  rw [hbuf]
  exact inFlight_intact hn.framed hn.tx.excl hlog hflight buf

/-- The host reads a packet. -/
theorem NetInv.read (hn : NetInv n) {done : List (UInt16 × List UInt8)} {p : Packet}
    {q : List Packet} (hq : Repr n.sys.dev.send (p :: q))
    (hsents : sents n.sys.dev.log = done ++ typed p :: q.map typed)
    (hseen : n.seen = (sectionPackets done).length) :
    NetInv { n.reads p.desc.packetType p.body with
      sys := { n.sys with dev := { n.sys.dev with send := pop n.sys.dev.send p } } } := by
  have hring : sents n.sys.dev.log = (done ++ [typed p]) ++ q.map typed := by
    rw [hsents, List.append_assoc]
    rfl
  have hbase : Base { n.sys.dev with send := pop n.sys.dev.send p } :=
    ⟨hn.base.recv, hn.base.count, q, hq.pop⟩
  unfold Net.reads
  by_cases hsec : isSectionPacket p.desc.packetType p.body = true
  · obtain ⟨ms, m, hlog, hlen, hbody, hintact⟩ := hn.message hsents hseen hsec
    have hframe : m.1 = .transmit → IsFrame m.2 := isFrame_of_mem hn.framed (by rw [hlog]; simp)
    rw [if_pos hsec, frames_of_message hbody hintact hframe]
    refine ⟨hbase, hn.tx, hn.sized, hn.framed, hn.sendBuf, ⟨_, q, hq.pop, hring, ?_⟩, ?_, ?_⟩
    · show n.seen + 1 = _
      rw [hseen, sectionPackets_append, sectionPackets_cons hsec, List.length_append]
      rfl
    · exact fun x hx k hk => Nat.lt_succ_of_lt (hn.tags x hx k hk)
    · show n.frames ++ (frameOf m).toList =
        ((handedOver n.sys.dev.log).take (n.seen + 1)).filterMap frameOf
      rw [hn.frames, hlog, ← hlen, List.take_left', List.take_of_length_le (by simp),
        List.filterMap_append]
      · cases hm : frameOf m <;> simp [hm]
      · rfl
  · rw [if_neg hsec]
    refine ⟨hbase, hn.tx, hn.sized, hn.framed, hn.sendBuf, ⟨_, q, hq.pop, hring, ?_⟩, hn.tags,
      hn.frames⟩
    show n.seen = _
    rw [hseen, sectionPackets_append, sectionPackets_skip hsec]
    exact congrArg List.length (List.append_nil _).symm

/-- A read of the send ring, by what is on it. -/
theorem netStep_take_nil (hq : Repr n.sys.dev.send []) : netStep n .take = some n := by
  obtain ⟨sys, seen, frames⟩ := n
  simp only [netStep, step, Net.observe, recvPacketRaw, recvWith_nil hq, Option.map_some]

theorem netStep_take_cons {p : Packet} {q : List Packet} (hq : Repr n.sys.dev.send (p :: q)) :
    netStep n .take = some { n.reads p.desc.packetType p.body with
      sys := { n.sys with dev := { n.sys.dev with send := pop n.sys.dev.send p } } } := by
  have hall : p.body.take maxBody = p.body := List.take_of_length_le p.length_body_le
  simp only [netStep, step, Net.observe, recvPacketRaw_cons hq, hall, Option.map_some]

theorem netInv_step {n' : Net} (hn : NetInv n) (hg : NetHost n a) (h : netStep n a = some n') :
    NetInv n' := by
  by_cases ha : a = .take
  · subst ha
    obtain ⟨done, q, hq, hsents, hseen⟩ := hn.ring
    cases q with
    | nil =>
      obtain rfl := Option.some.inj ((netStep_take_nil hq).symm.trans h)
      exact hn
    | cons p q =>
      obtain rfl := Option.some.inj ((netStep_take_cons hq).symm.trans h)
      exact hn.read hq hsents hseen
  · obtain ⟨s, hs, rfl⟩ := Option.map_eq_some_iff.mp h
    have hsame : n.observe a = n := by
      cases a with
      | take => exact absurd rfl ha
      | _ => rfl
    rw [hsame]
    exact hn.grow hg ha hs

theorem netInv_of_run {ram : Ram} {l : List Act} (h : Exec netStep NetHost (openedNet ram) l n) :
    NetInv n :=
  h.invariant (netInv_opened ram) fun hn hg hs => netInv_step hn hg hs

/-! ### Delivery -/

theorem eq_nil_of_packetSpan {q : List Packet} (h : packetSpan q = 0) : q = [] := by
  cases q with
  | nil => rfl
  | cons p q =>
    rw [packetSpan, Circular.span_cons] at h
    omega

theorem NetInv.frames_of_empty (hn : NetInv n) (hempty : recvAvail n.sys.dev.send = some 0) :
    n.frames = transmitted n.sys.dev.log := by
  obtain ⟨done, q, hq, hsents, hseen⟩ := hn.ring
  obtain rfl := eq_nil_of_packetSpan (Option.some.inj (hq.recvAvail.symm.trans hempty))
  rw [List.map_nil, List.append_nil] at hsents
  have hlen : (handedOver n.sys.dev.log).length ≤ n.seen := by
    rw [hseen, ← hsents, sectionPackets_sents hn.framed, List.length_map]
  rw [hn.frames, List.take_of_length_le hlen]
  rfl

theorem netHost_take (n : Net) : NetHost n .take :=
  ⟨trivial, trivial, fun k hk => absurd hk (by simp [Act.completes?])⟩

/-- Reading the ring gives the host all that is on it. -/
theorem NetInv.catch_up {q : List Packet} (hn : NetInv n) (hq : Repr n.sys.dev.send q) :
    ∃ n', Exec netStep NetHost n (List.replicate q.length .take) n' ∧
      n'.sys.dev.log = n.sys.dev.log ∧ n'.frames = transmitted n.sys.dev.log := by
  induction q generalizing n with
  | nil => exact ⟨n, .nil, rfl, hn.frames_of_empty hq.recvAvail⟩
  | cons p q ih =>
    have hstep := netStep_take_cons hq
    obtain ⟨n', hrun, hlog, hframes⟩ := ih (netInv_step hn (netHost_take n) hstep) hq.pop
    exact ⟨n', .cons (netHost_take n) hstep hrun, hlog, hframes⟩

/-- **Frames are delivered** in order and unchanged: what the host has found is the start
of what `transmit_with` has handed over, all of it once the ring is empty, and reading the
ring empties it. -/
theorem delivered_of_run {ram : Ram} {l : List Act}
    (h : Exec netStep NetHost (openedNet ram) l n) :
    n.frames <+: transmitted n.sys.dev.log ∧
      (recvAvail n.sys.dev.send = some 0 → n.frames = transmitted n.sys.dev.log) ∧
      ∃ k n', Exec netStep NetHost n (List.replicate k .take) n' ∧
        n'.sys.dev.log = n.sys.dev.log ∧ n'.frames = transmitted n.sys.dev.log := by
  have hn := netInv_of_run h
  refine ⟨?_, hn.frames_of_empty, ?_⟩
  · rw [hn.frames]
    exact (List.take_prefix _ _).filterMap _
  · obtain ⟨q, hq⟩ := hn.base.send
    exact ⟨q.length, hn.catch_up hq⟩

end

/-- The host reads `k` packets. -/
def reads (k : ℕ) : List Act := List.replicate k .take

/-- `init` with a host that reads before it completes, and two frames: the second is
still on the ring. -/
def initReadAndSend : List Act :=
  nvspPhase ++ reads 6 ++ rndisPhase.take 6 ++ reads 2 ++ (rndisPhase.drop 6).take 5 ++ reads 2 ++
    rndisPhase.drop 11 ++ reads 2 ++
    [completeTx 3, answerRndis 10 setCmplt, receives, receives, receives,
      answerNvsp subChannelCmplt, receives] ++
    [.call (.transmitWith 3 fun _ => [1, 2, 3])] ++ reads 3 ++
    [completeTx 4, .call .hasTxSpace, receives, receives, .call (.transmitWith 2 fun _ => [4, 5])]

theorem delivered_with_frame_on_ring :
    ∃ n, Exec netStep NetHost (openedNet { }) initReadAndSend n ∧ n.frames = [[1, 2, 3]] ∧
      ∃ k n', Exec netStep NetHost n (List.replicate k .take) n' ∧
        n'.frames = [[1, 2, 3], [4, 5]] := by
  obtain ⟨n, hn, hsent⟩ : ∃ n, Exec netStep NetHost (openedNet { }) initReadAndSend n ∧
      (n.frames, transmitted n.sys.dev.log) = ([[1, 2, 3]], [[1, 2, 3], [4, 5]]) :=
    Exec.exists_of_map (by decide +kernel)
  obtain ⟨hframes, htransmitted⟩ := Prod.mk.inj hsent
  obtain ⟨k, n', hreads, -, hall⟩ := (delivered_of_run hn).2.2
  exact ⟨n, hn, hframes, k, n', hreads, hall.trans htransmitted⟩

end Netvsc
