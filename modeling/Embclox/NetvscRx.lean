/-
The receive path of an initialised device.

The host posts frames in transfer-page packets, mixed with completions, and the data
path calls are interleaved in any way.

* `Lossless` — the frames posted are those handed to `recv_with`, the pending one and
  those on the ring, in this order;
* `lossless_iff_keepsNext` — it holds in every state of a run exactly when
  `pump_channel` never meets a transfer-page packet while a frame is pending: it has
  removed the packet before it looks at the slot;
* `frame_lost` — two frames on the ring and one call of `has_rx_packet`.
-/
import Embclox.NetvscSteps

open Bytes Effect Ring Nvsp Relation Run

namespace Netvsc

/-! ### Frames -/

/-- The frames the host has posted. -/
def frames (posted : List Posted) : List (List UInt8) := posted.filterMap Posted.frame

def Event.delivered? : Event → Option (List UInt8)
  | .delivered frame => some frame
  | _ => none

/-- The frames handed to `recv_with` closures. -/
def deliveredFrames (log : List Event) : List (List UInt8) := log.filterMap Event.delivered?

/-- The frames the guest has taken: delivered or pending. -/
def View.inHand (v : View) : List (List UInt8) := deliveredFrames v.log ++ v.pendingRx.toList

/-- No frame is skipped, duplicated or reordered: the posted frames are the delivered
ones, the pending one, and those still on the ring. -/
def Lossless (s : Sys) : Prop :=
  frames (puts s.dev.log) =
    deliveredFrames s.dev.log ++ s.dev.pendingRx.toList ++ frames (unread s.dev.log)

instance (s : Sys) : Decidable (Lossless s) := inferInstanceAs (Decidable (_ = _))

theorem deliveredFrames_append (log new : List Event) :
    deliveredFrames (log ++ new) = deliveredFrames log ++ deliveredFrames new :=
  List.filterMap_append

/-- A packet with one range inside the receive buffer is read as that range, as far as
the slot holds it. -/
theorem messageOf_range {p : Packet} {mem : ℕ → UInt8} {count offset : ℕ}
    (hbody : 16 ≤ p.body.length) (hone : u32At p.body 4 = 1)
    (hcount : (u32At p.body 8).toNat = count) (hoffset : (u32At p.body 12).toNat = offset)
    (hpos : 0 < count) (hbuf : offset + count ≤ netvscRecvBufSize) :
    messageOf mem p rxFrameMax = (Memory.read mem offset count).take rxFrameMax := by
  -- the first 512 bytes hold the range
  have hraw : 16 ≤ (p.body.take rawBufLen).length := by
    rw [List.length_take]
    unfold rawBufLen
    omega
  have hfield : ∀ k, k + 4 ≤ rawBufLen → u32At (p.body.take rawBufLen) k = u32At p.body k :=
    fun k hk => u32At_take hk
  unfold messageOf parseXferPagePacket
  rw [if_neg (by omega), hfield 4 (by decide), hfield 8 (by decide), hfield 12 (by decide), hone,
    hcount, hoffset]
  dsimp only
  rw [show (1 : UInt32).toNat = 1 from rfl, if_neg (by omega), if_neg (by omega)]
  rcases Nat.le_total count rxFrameMax with hle | hge
  · rw [Nat.min_eq_left hle, List.take_of_length_le (by rw [Memory.length_read]; exact hle)]
  · rw [Nat.min_eq_right hge, Memory.take_read hge]

theorem messageOf_of_range {p : Packet} {mem : ℕ → UInt8} {count offset : ℕ}
    (hbody : 16 ≤ p.body.length) (hone : u32At p.body 4 = 1)
    (hcount : (u32At p.body 8).toNat = count) (hoffset : (u32At p.body 12).toNat = offset)
    (hpos : 0 < count) (hmax : count ≤ rxFrameMax) (hbuf : offset + count ≤ netvscRecvBufSize) :
    messageOf mem p rxFrameMax = Memory.read mem offset count := by
  rw [messageOf_range hbody hone hcount hoffset hpos hbuf,
    List.take_of_length_le (by rw [Memory.length_read]; exact hmax)]

/-- An `RNDIS_PACKET_MSG` with all of its header parses as a data packet, even if the
length it claims was cut off. -/
theorem parseRndisResponse_packet {msg : List UInt8}
    (htype : u32At msg 0 = RndisMessageType.packet.asU32)
    (hlen : rndisPacketHdrSize ≤ (u32At msg 4).toNat) (hmsg : rndisPacketHdrSize ≤ msg.length) :
    parseRndisResponse msg = some (some (.packet (u32At msg 8) (u32At msg 12) msg)) := by
  unfold rndisPacketHdrSize rndisPacketSize rndisHeaderSize at hlen hmsg
  unfold parseRndisResponse parseRndisBody rndisHeaderSize
  dsimp only
  generalize hstop : min msg.length (u32At msg 4).toNat = stop
  have hbodyLen : ((msg.take stop).drop 8).length = stop - 8 := by
    rw [List.length_drop, List.length_take]
    omega
  have hfield : ∀ k, 8 + k + 4 ≤ stop →
      u32At ((msg.take stop).drop 8) k = u32At msg (8 + k) := by
    intro k hk
    rw [u32At_drop, u32At_take hk]
  rw [if_neg (by omega), if_neg (by omega), htype, RndisMessageType.fromU32_asU32]
  dsimp only
  rw [castRef, if_neg (by omega), hfield 0 (by omega), hfield 4 (by omega)]

/-- `pump_channel` queues the frame that the host posted. -/
theorem queuedFrame_of_posted {p : Packet} {mem : ℕ → UInt8} {frame : List UInt8}
    (h : postedFrame p mem = some frame) :
    queuedFrame (messageOf mem p rxFrameMax) = some frame := by
  unfold postedFrame at h
  dsimp only at h
  split at h
  case isFalse => exact absurd h (by simp)
  rename_i hc
  obtain ⟨-, hbody, hone, hcount, hmax, hbuf, htype, hlen, hle, hfits⟩ := hc
  have hpos : 0 < (u32At p.body 8).toNat := Nat.lt_of_lt_of_le (by decide) hcount
  rw [messageOf_of_range hbody hone rfl rfl hpos hmax hbuf]
  generalize hm : Memory.read mem (u32At p.body 12).toNat (u32At p.body 8).toNat = msg at *
  have hml : msg.length = (u32At p.body 8).toNat := by rw [← hm, Memory.length_read]
  have hheader : ¬ msg.length < rndisHeaderSize := by
    unfold rndisPacketHdrSize at hcount
    omega
  have hroom : rndisHeaderSize + (u32At msg 8).toNat + (u32At msg 12).toNat ≤ msg.length ∧
      (u32At msg 12).toNat ≤ rxFrameMax := by omega
  rw [queuedFrame, if_neg hheader, if_pos htype, extractEthFrame, if_neg hheader,
    parseRndisResponse_packet htype hlen (hml.ge.trans' hcount)]
  dsimp only [Option.map_some]
  rw [if_pos hroom]
  exact h

/-- The frame depends only on the range of the packet. -/
theorem postedFrame_congr {p : Packet} {mem mem' : ℕ → UInt8}
    (h : Memory.read mem (u32At p.body 12).toNat (u32At p.body 8).toNat =
      Memory.read mem' (u32At p.body 12).toNat (u32At p.body 8).toNat) :
    postedFrame p mem = postedFrame p mem' := by
  unfold postedFrame
  dsimp only
  rw [h]

theorem packetType_of_posted {p : Packet} {mem : ℕ → UInt8} (h : postedFrame p mem ≠ none) :
    p.desc.packetType = vmPktDataUsingXferPages := by
  unfold postedFrame at h
  dsimp only at h
  split at h
  · rename_i hc
    exact hc.1
  · exact absurd rfl h

/-! ### The environment -/

/-- The device is initialised and its receive ring is empty; the history starts
here. -/
structure Fresh (s : Sys) : Prop where
  ready : s.ctl = .ready
  base : Base s.dev
  log : s.dev.log = []
  pending : s.dev.pendingRx = none

/-- The packet has the same message in both memories. -/
def SameMessage (p : Packet) (mem mem' : ℕ → UInt8) : Prop :=
  Memory.read mem (u32At p.body 12).toNat (u32At p.body 8).toNat =
    Memory.read mem' (u32At p.body 12).toNat (u32At p.body 8).toNat

/-- The host puts completions and data packets, and does not overwrite the frames on
the ring; the calls are those of the data path. -/
def RxHost (s : Sys) : Act → Prop
  | .put p mem _ =>
      (p.desc.packetType = vmPktComp ∨ postedFrame p mem ≠ none) ∧
        ∀ x ∈ unread s.dev.log, x.frame ≠ none → SameMessage x.packet mem s.dev.recvBuf
  | .call (.sendRndisControl _) => False
  | _ => True

/-- `pump_channel` is about to remove a transfer-page packet with the slot
occupied. -/
def dropsNext (s : Sys) : Bool :=
  match s.ctl, s.dev.view.next with
  | .pump _, some p =>
      p.desc.packetType == vmPktDataUsingXferPages && s.dev.pendingRx.isSome
  | _, _ => false

abbrev KeepsNext : Sys → Act → Prop := Avoids dropsNext

instance (p : Packet) (mem mem' : ℕ → UInt8) : Decidable (SameMessage p mem mem') :=
  inferInstanceAs (Decidable (_ = _))

instance (s : Sys) : (a : Act) → Decidable (RxHost s a)
  | .put p mem _ => inferInstanceAs (Decidable
      ((p.desc.packetType = vmPktComp ∨ postedFrame p mem ≠ none) ∧
        ∀ x ∈ unread s.dev.log, x.frame ≠ none → SameMessage x.packet mem s.dev.recvBuf))
  | .call (.sendRndisControl _) => .isFalse id
  | .call .hasTxSpace | .call .hasRxPacket | .call (.transmitWith ..) | .call .recvWith |
    .guest _ | .take => .isTrue trivial

/-! ### Control points of the data path -/

def Ctl.onDataPath : Ctl → Bool
  | .ready | .pump _ | .failed _ | .panicked => true
  | _ => false

theorem finishCall_returns (call : Call) :
    Prog.Returns (fun c => c.onDataPath = true) (finishCall call) := by
  cases call with
  | transmitWith frameLen f =>
    refine Prog.Returns.bind fun d => ?_
    split
    · exact Prog.Returns.bind fun _ => Prog.Returns.pure rfl
    · exact Prog.Returns.pure rfl
  | _ => exact Prog.Returns.pure rfl

theorem startCall_returns {call : Call} (h : ∀ msg, call ≠ .sendRndisControl msg) :
    Prog.Returns (fun c => c.onDataPath = true) (startCall call) := by
  cases call with
  | hasTxSpace | hasRxPacket => exact Prog.Returns.pure rfl
  | transmitWith frameLen f =>
    unfold startCall
    dsimp only
    split
    · exact Prog.Returns.panic
    · refine Prog.Returns.bind fun d => ?_
      split
      · exact finishCall_returns _
      · exact Prog.Returns.pure rfl
  | recvWith => exact Prog.Returns.bind fun _ => Prog.Returns.pure rfl
  | sendRndisControl msg => exact absurd rfl (h msg)

theorem advance_pump_returns (env : Env) (call : Call) :
    Prog.Returns (fun c => c.onDataPath = true) (advance env (.pump call)) := by
  refine Prog.Returns.bind fun x => ?_
  rcases x with _ | ⟨desc, bytes⟩
  · exact finishCall_returns call
  · refine Prog.Returns.bind fun more => ?_
    cases more with
    | false => exact finishCall_returns call
    | true => exact Prog.Returns.pure rfl

theorem onDataPath_perform {p : Dev Ctl} (h : Prog.Returns (fun c => c.onDataPath = true) p)
    (s : Sys) : (perform p s).ctl.onDataPath = true :=
  ctl_perform h (fun _ => rfl) rfl s

/-! ### What the moves do to the frames -/

/-- `Lossless`, of the view. -/
def Balanced (v : View) : Prop := frames (puts v.log) = v.inHand ++ frames (unread v.log)

/-- The packets on the ring are completions, and data packets whose frame is in the
receive buffer. -/
def Posts (v : View) : Prop :=
  ∀ x ∈ unread v.log, x.frame = none ∧ x.packet.desc.packetType = vmPktComp ∨
    x.frame ≠ none ∧ postedFrame x.packet v.recvBuf = x.frame

section

variable {K F : Prop} {v w : View}

theorem Micro.frames_eq (h : Micro K F v w) : w.recvBuf = v.recvBuf ∧ w.inHand = v.inHand := by
  -- only `recv_with` moves a frame, from the slot to the closure
  have hinHand : ∀ (new : List Event) (v : View), (∀ e ∈ new, e.delivered? = none) →
      (v.add new).inHand = v.inHand := by
    intro new v hnew
    show deliveredFrames (v.log ++ new) ++ _ = _
    rw [deliveredFrames_append, show deliveredFrames new = [] from
      List.filterMap_eq_nil_iff.mpr hnew, List.append_nil]
    rfl
  have hover : ∀ {e : Event}, e.handsOver → e.delivered? = none := by
    intro e he
    rcases he with ⟨x, payload, rfl, -⟩ | rfl <;> rfl
  cases h with
  | nvsp => exact ⟨rfl, hinHand _ v (by simp [Event.delivered?])⟩
  | full => exact ⟨rfl, hinHand _ v (by simp [Event.delivered?])⟩
  | use sender bytes e hfree he hf =>
    exact ⟨rfl, hinHand _ { v with sectionFree := false }
      (by simpa [Event.delivered?] using hover he)⟩
  | reply bytes e hk hfree he =>
    exact ⟨rfl, hinHand _ v (by simpa [Event.delivered?] using hover he)⟩
  | deliver frame hp =>
    refine ⟨rfl, ?_⟩
    show deliveredFrames (v.log ++ [.delivered frame]) ++ [] = deliveredFrames v.log ++ _
    rw [deliveredFrames_append, hp, List.append_nil]
    rfl

theorem frames_of_moves (h : ReflTransGen (Micro K F) v w) :
    w.recvBuf = v.recvBuf ∧ w.inHand = v.inHand := by
  induction h with
  | refl => exact ⟨rfl, rfl⟩
  | tail _ hstep ih => exact ⟨hstep.frames_eq.1.trans ih.1, hstep.frames_eq.2.trans ih.2⟩

theorem balanced_of_moves (h : ReflTransGen (Micro K F) v w) : Balanced w ↔ Balanced v := by
  unfold Balanced
  rw [(moves_ring h).1, moves_unread h, (frames_of_moves h).2]

theorem posts_of_moves (h : ReflTransGen (Micro K F) v w) (hv : Posts v) : Posts w := by
  unfold Posts
  rw [moves_unread h, (frames_of_moves h).1]
  exact hv

variable {p : Packet} {k : Consumer} {x : Posted} {rest : List Posted}

theorem Take.posts (h : Take p v k w) (hv : Posts v) : Posts w := by
  have hbuf : w.recvBuf = v.recvBuf := by cases h <;> rfl
  intro y hy
  rw [h.unread_eq] at hy
  rw [hbuf]
  exact hv y (List.mem_of_mem_tail hy)

theorem Take.deliveredFrames_eq (h : Take p v k w) :
    deliveredFrames w.log = deliveredFrames v.log := by
  rcases h.log with ⟨-, e, he, hlog⟩ | ⟨hlog, -⟩
  · have hnone : deliveredFrames [.removed p.desc, e] = [] := by
      rcases he with rfl | rfl <;> rfl
    rw [hlog, deliveredFrames_append, hnone, List.append_nil]
  · rw [hlog, deliveredFrames_append]
    exact List.append_nil _

/-- `pump_channel` takes the next frame into an empty slot. -/
theorem Take.balanced (h : Take x.packet v .pump w) (hx : unread v.log = x :: rest)
    (hposts : Posts v) (hv : Balanced v)
    (hkeep : x.packet.desc.packetType = vmPktDataUsingXferPages → v.pendingRx = none) :
    Balanced w := by
  have hd := h.deliveredFrames_eq
  have hpost := hposts x (by rw [hx]; exact List.mem_cons_self)
  unfold Balanced View.inHand at hv ⊢
  rw [h.ring.1, h.unread_eq, hx, List.tail_cons, hd, hv, hx]
  -- a packet without a frame changes nothing
  have hskip : x.frame = none → frames (x :: rest) = frames rest :=
    fun hf => List.filterMap_cons_none hf
  cases h with
  | pump e ht hp he =>
    rcases hpost with ⟨-, hty⟩ | ⟨hne, hframe⟩
    · exact absurd (hty.symm.trans ht) vmPktComp_ne_xferPages
    · obtain ⟨frame, hf⟩ := Option.ne_none_iff_exists'.mp hne
      have hq := queuedFrame_of_posted (hframe.trans hf)
      have hcons : frames (x :: rest) = frame :: frames rest := List.filterMap_cons_some hf
      rw [hcons, hp]
      show _ = deliveredFrames v.log ++ (queuedFrame (messageOf v.recvBuf x.packet _)).toList ++ _
      rw [hq]
      simp
  | drop ht hp => exact absurd (hkeep ht) hp
  | completion k hk ht =>
    rcases hpost with ⟨hf, -⟩ | ⟨hne, hframe⟩
    · rw [hskip hf]
      rfl
    · have hty := packetType_of_posted (hframe.symm ▸ hne)
      exact absurd (ht.symm.trans hty) vmPktComp_ne_xferPages
  | other k hk ht ht' =>
    rcases hpost with ⟨-, hty⟩ | ⟨hne, hframe⟩
    · exact absurd hty ht'
    · exact absurd (packetType_of_posted (hframe.symm ▸ hne)) ht

/-- A frame that is removed with the slot occupied is neither delivered nor pending
nor on the ring. -/
theorem Take.not_balanced (h : Take x.packet v .pump w) (hx : unread v.log = x :: rest)
    (hposts : Posts v) (hv : Balanced v)
    (hty : x.packet.desc.packetType = vmPktDataUsingXferPages) (hp : v.pendingRx ≠ none) :
    ¬ Balanced w := by
  have hd := h.deliveredFrames_eq
  have hpost := hposts x (by rw [hx]; exact List.mem_cons_self)
  have hpending : w.pendingRx = v.pendingRx := by
    cases h with
    | pump e ht hp' he => exact absurd hp' hp
    | _ => rfl
  rcases hpost with ⟨-, hcomp⟩ | ⟨hne, -⟩
  · exact absurd (hcomp.symm.trans hty) vmPktComp_ne_xferPages
  obtain ⟨frame, hf⟩ := Option.ne_none_iff_exists'.mp hne
  have hcons : frames (x :: rest) = frame :: frames rest := List.filterMap_cons_some hf
  unfold Balanced View.inHand at hv ⊢
  -- one frame less on the ring, and none more in hand
  rw [h.ring.1, h.unread_eq, hx, List.tail_cons, hd, hpending, hv, hx, hcons]
  intro heq
  have hlen := congrArg List.length heq
  simp at hlen

end

/-! ### Runs -/

structure RxInv (s : Sys) : Prop where
  base : Base s.dev
  path : s.ctl.onDataPath = true
  posts : Posts s.dev.view

theorem Fresh.rxInv {s : Sys} (h : Fresh s) : RxInv s := by
  refine ⟨h.base, by rw [h.ready]; rfl, fun x hx => ?_⟩
  rw [show s.dev.view.log = [] from h.log] at hx
  exact absurd hx (by simp [unread, puts])

section

variable {s u : Sys} {a : Act}

/-- On the data path, only `pump_channel` receives. -/
theorem Ctl.eq_pump {c : Ctl} (hpath : c.onDataPath = true) (hrun : c.running = true) :
    ∃ call, c = .pump call := by
  cases c with
  | pump call => exact ⟨call, rfl⟩
  | ready | failed _ | panicked => exact absurd hrun (by simp [Ctl.running])
  | _ => exact absurd hpath (by simp [Ctl.onDataPath])

theorem Ctl.running_of_consumer {c : Ctl} {k : Consumer} (h : c.consumer = some k) :
    c.running = true := by
  cases c with
  | ready | failed _ | panicked => exact absurd h (by simp [Ctl.consumer])
  | _ => rfl

theorem onDataPath_step (hb : Base s.dev) (hpath : s.ctl.onDataPath = true)
    (hcall : ∀ msg, a ≠ .call (.sendRndisControl msg)) (h : step s a = some u) :
    u.ctl.onDataPath = true := by
  cases a with
  | guest env =>
    simp only [step, Option.ite_none_right_eq_some, Option.some.injEq] at h
    obtain ⟨hrun, rfl⟩ := h
    obtain ⟨call, hc⟩ := Ctl.eq_pump hpath hrun
    rw [hc]
    exact onDataPath_perform (advance_pump_returns env call) s
  | call c =>
    have hready := (call_moves hb h).1
    simp only [step, hready, Option.some.injEq] at h
    obtain rfl := h
    refine onDataPath_perform (startCall_returns ?_) s
    rintro msg rfl
    exact hcall msg rfl
  | put p mem tag =>
    rw [(put_moves hb h).1]
    exact hpath
  | take =>
    rw [(take_moves hb h).1]
    exact hpath

theorem posts_step (hs : RxInv s) (hg : RxHost s a) (h : step s a = some u) : Posts u.dev.view := by
  cases a with
  | guest env =>
    rcases guest_moves hs.base h with ⟨-, -, hw⟩ | ⟨k, p, w, -, -, -, ht, -, hw⟩
    · exact posts_of_moves hw hs.posts
    · exact posts_of_moves hw (ht.posts hs.posts)
  | call c => exact posts_of_moves (call_moves hs.base h).2.2 hs.posts
  | put p mem tag =>
    -- the packets on the ring keep their frames, and the new one has its own
    obtain ⟨-, -, hv⟩ := put_moves hs.base h
    rw [hv]
    intro x hx
    rw [show unread (View.log _) = _ from unread_put hs.base.count] at hx
    rcases List.mem_append.mp hx with hx | hx
    · rcases hs.posts x hx with hcomp | ⟨hne, hframe⟩
      · exact .inl hcomp
      · exact .inr ⟨hne, (postedFrame_congr (hg.2 x hx hne)).trans hframe⟩
    · obtain rfl := List.mem_singleton.mp hx
      by_cases hnone : postedFrame p mem = none
      · exact .inl ⟨hnone, hg.1.resolve_right fun h => h hnone⟩
      · exact .inr ⟨hnone, rfl⟩
  | take =>
    obtain ⟨-, -, hv⟩ := take_moves hs.base h
    rw [hv]
    exact hs.posts

theorem rxInv_step (hs : RxInv s) (hg : RxHost s a) (h : step s a = some u) : RxInv u := by
  refine ⟨base_of_step hs.base h, onDataPath_step hs.base hs.path ?_ h, posts_step hs hg h⟩
  rintro msg rfl
  exact hg

/-- What the condition says about the packet that is taken. -/
theorem dropsNext_iff {call : Call} {p : Packet} (hc : s.ctl = .pump call)
    (hp : s.dev.view.next = some p) :
    dropsNext s = true ↔
      p.desc.packetType = vmPktDataUsingXferPages ∧ s.dev.view.pendingRx ≠ none := by
  simp only [dropsNext, hc, hp, Bool.and_eq_true, beq_iff_eq, Option.isSome_iff_ne_none]
  rfl

theorem lossless_step (hs : RxInv s) (hl : Lossless s) (hc : KeepsNext s a)
    (h : step s a = some u) : Lossless u := by
  have hl' : Balanced s.dev.view := hl
  show Balanced u.dev.view
  cases a with
  | guest env =>
    rcases guest_moves hs.base h with ⟨-, -, hw⟩ | ⟨k, p, w, hk, hp, -, ht, -, hw⟩
    · exact (balanced_of_moves hw).mpr hl'
    · obtain ⟨call, hctl⟩ := Ctl.eq_pump hs.path (Ctl.running_of_consumer hk)
      obtain rfl : .pump = k := by simpa [hctl, Ctl.consumer] using hk
      obtain ⟨x, rest, hx, rfl⟩ := View.next_eq_some hp
      refine (balanced_of_moves hw).mpr (ht.balanced hx hs.posts hl' fun hty => ?_)
      by_contra hpending
      have hdrops := (dropsNext_iff hctl hp).mpr ⟨hty, hpending⟩
      exact Bool.eq_false_iff.mp hc hdrops
  | call c => exact (balanced_of_moves (call_moves hs.base h).2.2).mpr hl'
  | put p mem tag =>
    obtain ⟨-, -, hv⟩ := put_moves hs.base h
    rw [hv]
    have hd : deliveredFrames (s.dev.log ++ [.put p tag (postedFrame p mem)]) =
        deliveredFrames s.dev.log := by
      rw [deliveredFrames_append]
      exact List.append_nil _
    show frames (puts (s.dev.log ++ _)) =
      deliveredFrames (s.dev.log ++ _) ++ s.dev.pendingRx.toList ++ frames (unread (s.dev.log ++ _))
    rw [hd, unread_put hs.base.count, puts_append]
    unfold Lossless frames at *
    rw [List.filterMap_append, List.filterMap_append, hl, List.append_assoc]
    rfl
  | take =>
    obtain ⟨-, -, hv⟩ := take_moves hs.base h
    rw [hv]
    exact hl'

theorem not_lossless_of_drops (hs : RxInv s) (hl : Lossless s) (hc : ¬ KeepsNext s a)
    (h : step s a = some u) : ¬ Lossless u := by
  obtain ⟨⟨env, rfl⟩, hdrops⟩ := Avoids.of_not hc
  obtain ⟨call, hctl⟩ : ∃ call, s.ctl = .pump call := by
    cases hctl : s.ctl with
    | pump call => exact ⟨call, rfl⟩
    | _ => simp [dropsNext, hctl] at hdrops
  obtain ⟨p, hp⟩ : ∃ p, s.dev.view.next = some p := by
    rcases hp : s.dev.view.next with _ | p
    · simp [dropsNext, hctl, hp] at hdrops
    · exact ⟨p, rfl⟩
  obtain ⟨hty, hpending⟩ := (dropsNext_iff hctl hp).mp hdrops
  have hk : s.ctl.consumer = some .pump := by rw [hctl]; rfl
  rcases guest_moves hs.base h with ⟨hidle, -⟩ | ⟨k, p', w, hk', hp', -, ht, -, hw⟩
  · exact absurd (hidle _ p hk hp) (by simp [Consumer.accepts])
  · obtain rfl := Option.some_inj.mp (hk.symm.trans hk')
    obtain rfl := Option.some_inj.mp (hp.symm.trans hp')
    obtain ⟨x, rest, hx, rfl⟩ := View.next_eq_some hp
    intro hu
    exact ht.not_balanced hx hs.posts hl hty hpending ((balanced_of_moves hw).mp hu)

end

/-- An initialised device, as far as the data path looks at it. -/
def readySys (ram : Ram) : Sys := ⟨openedDevice ram, .ready⟩

theorem fresh_readySys (ram : Ram) : Fresh (readySys ram) :=
  ⟨rfl, base_openedDevice ram, rfl, rfl⟩

/-- **The receive path.**  Along a run of an initialised device, no frame is lost in
any state exactly when `pump_channel` never meets a transfer-page packet while a
frame is pending. -/
theorem lossless_iff_keepsNext {s₀ s : Sys} {l : List Act} (h0 : Fresh s₀)
    (h : Exec step RxHost s₀ l s) :
    (∀ l' s', l' <+: l → Exec step RxHost s₀ l' s' → Lossless s') ↔
      Exec step (fun s a => RxHost s a ∧ KeepsNext s a) s₀ l s := by
  have hstart : Lossless s₀ := by
    rw [Lossless, h0.log, h0.pending]
    rfl
  have hinv : ∀ {l s}, Exec step (fun s a => RxHost s a ∧ KeepsNext s a) s₀ l s →
      RxInv s ∧ Lossless s := by
    intro l s h
    refine h.invariant (I := fun s => RxInv s ∧ Lossless s) ⟨h0.rxInv, hstart⟩ ?_
    intro s u a hi hg hstep
    exact ⟨rxInv_step hi.1 hg.1 hstep, lossless_step hi.1 hi.2 hg.2 hstep⟩
  refine Exec.guarded_iff (fun h => (hinv h).2) (fun hr _ hc hstep => ?_) h
  exact not_lossless_of_drops (hinv hr).1 (hinv hr).2 hc hstep

/-- A frame is received, then a frame is sent while the next one is posted. -/
def frameByFrame : List Act :=
  [postFrame 11 0 [1, 2, 3] fun _ => 0, .call .hasRxPacket, receives, receives, .call .recvWith,
    .call (.transmitWith 3 id), completeTx 0, postFrame 12 0 [4, 5, 6] fun _ => 0,
    .call .hasTxSpace, receives, receives, receives]

theorem lossless_iff_keepsNext_frame_by_frame :
    ∃ s, Exec step RxHost (readySys { }) frameByFrame s ∧
      deliveredFrames s.dev.log = [[1, 2, 3]] ∧ s.dev.pendingRx = some [4, 5, 6] ∧ Lossless s := by
  obtain ⟨s, hs, hframes, hpending⟩ : ∃ s, Exec step (fun s a => RxHost s a ∧ KeepsNext s a)
      (readySys { }) frameByFrame s ∧ deliveredFrames s.dev.log = [[1, 2, 3]] ∧
        s.dev.pendingRx = some [4, 5, 6] :=
    Exec.exists_of_run (by decide +kernel)
  have hrun := hs.mono fun _ _ h => h.1
  exact ⟨s, hrun, hframes, hpending,
    (lossless_iff_keepsNext (fresh_readySys _) hrun).mpr hs _ s List.prefix_rfl hrun⟩

/-- Two frames on the ring, and the calls of a receiver that polls twice. -/
def twoFrames : List Act :=
  postTwo [1, 2, 3] [4, 5, 6] ++
    [.call .hasRxPacket, receives, receives, .call .recvWith, .call .hasRxPacket, receives]

/-- The second frame is gone: it was not delivered, it is not pending, and the ring is
empty. -/
theorem frame_lost :
    ∃ s, Exec step RxHost (readySys { }) twoFrames s ∧
      frames (puts s.dev.log) = [[1, 2, 3], [4, 5, 6]] ∧
      deliveredFrames s.dev.log = [[1, 2, 3]] ∧ s.dev.pendingRx = none ∧
      frames (unread s.dev.log) = [] ∧ ¬ Lossless s :=
  Exec.exists_of_run (by decide +kernel)

end Netvsc
