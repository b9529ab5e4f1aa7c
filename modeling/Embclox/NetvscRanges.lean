/-
Transfer-page packets with several ranges.

A transfer-page packet lists the ranges of the receive buffer that hold its messages, up
to 375 of them, and its completion returns all of them to the host.
`parse_xfer_page_packet` copies the first range only, and `pump_channel` completes the
packet right after it.

* `RangesDelivered` — the frames of a packet can all be received, in the order of its
  ranges, and it is not completed before they are copied;
* `rangesDelivered_iff` — this holds exactly for the packets with one range;
* `second_range_lost` — a packet with two ranges.
-/
import Embclox.NetvscRx

open Bytes Effect Ring Nvsp Relation Run

namespace Netvsc

/-! ### Packets with ranges -/

/-- `NVSP_MAX_PACKETS_PER_RECEIVE`. -/
def nvspMaxPacketsPerReceive : ℕ := 375

/-- The Ethernet frame in range `i`: the range lies inside the receive buffer and holds
one `RNDIS_PACKET_MSG` of at most `RX_FRAME_MAX` bytes. -/
def rangeFrame (p : Packet) (mem : ℕ → UInt8) (i : ℕ) : Option (List UInt8) :=
  let count := (u32At p.body (8 + 8 * i)).toNat
  let offset := (u32At p.body (12 + 8 * i)).toNat
  let msg := Memory.read mem offset count
  let dataOffset := (u32At msg 8).toNat
  let dataLen := (u32At msg 12).toNat
  if rndisPacketHdrSize ≤ count ∧ count ≤ rxFrameMax ∧ offset + count ≤ netvscRecvBufSize ∧
      u32At msg 0 = RndisMessageType.packet.asU32 ∧
      rndisPacketHdrSize ≤ (u32At msg 4).toNat ∧ (u32At msg 4).toNat ≤ count ∧
      rndisHeaderSize + dataOffset + dataLen ≤ (u32At msg 4).toNat then
    some ((msg.drop (rndisHeaderSize + dataOffset)).take dataLen)
  else none

/-- The packet lists one range for each of the frames. -/
structure RangesPacket (p : Packet) (mem : ℕ → UInt8) (frames : List (List UInt8)) : Prop where
  type : p.desc.packetType = vmPktDataUsingXferPages
  count : (u32At p.body 4).toNat = frames.length
  pos : 1 ≤ frames.length
  max : frames.length ≤ nvspMaxPacketsPerReceive
  body : 8 + 8 * frames.length ≤ p.body.length
  ranges : ∀ i < frames.length, rangeFrame p mem i = frames[i]?

/-- The packet is on the ring of a device between two calls, with the slot empty. -/
structure Arrived (s : Sys) (p : Packet) : Prop where
  ready : s.ctl = .ready
  base : Base s.dev
  ring : (unread s.dev.log).map Posted.packet = [p]
  pending : s.dev.pendingRx = none

/-- Calls of `has_rx_packet` and `recv_with`. -/
def ReceiveCalls (_ : Sys) : Act → Prop
  | .call .hasRxPacket | .call .recvWith | .guest _ | .take => True
  | _ => False

/-- The packet was completed between the two states. -/
def CompletedSince (s u : Sys) (p : Packet) : Prop :=
  ∃ new, u.dev.log = s.dev.log ++ new ∧
    Event.sent vmPktComp p.desc.transactionId compPayload ∈ new

/-- Some sequence of calls hands all frames to `recv_with`, in order, and whenever the
packet is completed, all of its frames are in hand. -/
structure RangesDelivered (s : Sys) (p : Packet) (frames : List (List UInt8)) : Prop where
  delivered : ∃ l u, Exec step ReceiveCalls s l u ∧
    deliveredFrames u.dev.log = deliveredFrames s.dev.log ++ frames
  completed : ∀ l u, Exec step ReceiveCalls s l u → CompletedSince s u p →
    u.dev.view.inHand = s.dev.view.inHand ++ frames

/-- A packet with one range is a data packet. -/
theorem postedFrame_of_range {p : Packet} {mem : ℕ → UInt8} {frame : List UInt8}
    (h : RangesPacket p mem [frame]) : postedFrame p mem = some frame := by
  have hone : u32At p.body 4 = 1 := UInt32.toNat_inj.mp h.count
  have hbody : 16 ≤ p.body.length := h.body
  have hrange : rangeFrame p mem 0 = some frame := h.ranges 0 (by simp)
  unfold rangeFrame at hrange
  dsimp only at hrange
  split at hrange
  · rename_i hc
    unfold postedFrame
    dsimp only
    rw [if_pos ⟨h.type, hbody, hone, hc⟩]
    exact hrange
  · exact absurd hrange (by simp)

/-! ### What can be received -/

/-- What receive calls make of the packet: it is on the ring, untouched, or it was removed
and what `pump_channel` queues for it is in hand. -/
inductive Progress (v₀ : View) (p : Packet) (v : View) : Prop
  | waiting (ring : (unread v.log).map Posted.packet = [p]) (pending : v.pendingRx = none)
      (buf : v.recvBuf = v₀.recvBuf) (inHand : v.inHand = v₀.inHand)
      (log : ∃ new, v.log = v₀.log ++ new ∧ ∀ e ∈ new, e.comp? = none)
  | taken (ring : unread v.log = [])
      (inHand : v.inHand = v₀.inHand ++ (queuedFrame (messageOf v₀.recvBuf p rxFrameMax)).toList)

section

variable {K F : Prop} {v₀ v w : View} {p : Packet}

theorem pending_of_moves (h : ReflTransGen (Micro K F) v w) (hv : v.pendingRx = none) :
    w.pendingRx = none := by
  induction h with
  | refl => exact hv
  | tail _ hstep ih =>
    cases hstep with
    | deliver frame hp => rfl
    | _ => exact ih

theorem Progress.moves (h : Progress v₀ p v) (hw : ReflTransGen (Micro K F) v w) :
    Progress v₀ p w := by
  obtain ⟨hbuf, hhand⟩ := frames_of_moves hw
  have hunread := moves_unread hw
  cases h with
  | waiting ring pending buf inHand log =>
    obtain ⟨new, hlog, hnew⟩ := log
    obtain ⟨new', hlog', hnew'⟩ := moves_log hw
    refine .waiting (by rw [hunread]; exact ring) (pending_of_moves hw pending) (hbuf.trans buf)
      (hhand.trans inHand) ⟨new ++ new', by rw [hlog', hlog, List.append_assoc], fun e he => ?_⟩
    rcases List.mem_append.mp he with he | he
    · exact hnew e he
    · exact (hnew' e he).2
  | taken ring inHand => exact .taken (hunread.trans ring) (hhand.trans inHand)

/-- `pump_channel` takes the packet. -/
theorem Progress.take (h : Progress v₀ p v) (hty : p.desc.packetType = vmPktDataUsingXferPages)
    {p' : Packet} (hnext : v.next = some p') (ht : Take p' v .pump w) : Progress v₀ p w := by
  obtain ⟨x, rest, hx, rfl⟩ := View.next_eq_some hnext
  cases h with
  | taken ring inHand => exact absurd (hx.symm.trans ring) (by simp)
  | waiting ring pending buf inHand log =>
    rw [hx, List.map_cons] at ring
    obtain ⟨rfl, hrest⟩ := List.cons.inj ring
    have hring : unread w.log = [] := by
      rw [ht.unread_eq, hx]
      exact List.map_eq_nil_iff.mp hrest
    have hdelivered := ht.deliveredFrames_eq
    refine .taken hring ?_
    rw [← inHand, View.inHand, View.inHand, hdelivered, pending, ← buf]
    cases ht with
    | pump e ht' hp he => simp [View.add]
    | drop ht' hp => exact absurd pending hp
    | completion k hk ht' => exact absurd (ht'.symm.trans hty) vmPktComp_ne_xferPages
    | other k hk ht' ht'' => exact absurd hty ht'

end

/-- The invariant of the calls. -/
structure RangesInv (v₀ : View) (p : Packet) (u : Sys) : Prop where
  base : Base u.dev
  path : u.ctl.onDataPath = true
  progress : Progress v₀ p u.dev.view

section

variable {v₀ : View} {p : Packet} {s u : Sys} {a : Act}

theorem RangesInv.step (hty : p.desc.packetType = vmPktDataUsingXferPages)
    (hi : RangesInv v₀ p s) (hg : ReceiveCalls s a) (h : step s a = some u) :
    RangesInv v₀ p u := by
  refine ⟨base_of_step hi.base h, onDataPath_step hi.base hi.path ?_ h, ?_⟩
  · rintro msg rfl
    exact hg
  cases a with
  | guest env =>
    rcases guest_moves hi.base h with ⟨-, -, hw⟩ | ⟨k, p', w, hk, hp, -, ht, -, hw⟩
    · exact hi.progress.moves hw
    · obtain ⟨call, hctl⟩ := Ctl.eq_pump hi.path (Ctl.running_of_consumer hk)
      obtain rfl : .pump = k := by simpa [hctl, Ctl.consumer] using hk
      exact (hi.progress.take hty hp ht).moves hw
  | call c => exact hi.progress.moves (call_moves hi.base h).2.2
  | put p mem tag => exact hg.elim
  | take =>
    obtain ⟨-, -, hv⟩ := take_moves hi.base h
    rw [hv]
    exact hi.progress

theorem Arrived.rangesInv (ha : Arrived s p) : RangesInv s.dev.view p s :=
  ⟨ha.base, by rw [ha.ready]; rfl, .waiting ha.ring ha.pending rfl rfl ⟨[], by simp, by simp⟩⟩

theorem Arrived.run (ha : Arrived s p) (hty : p.desc.packetType = vmPktDataUsingXferPages)
    {l : List Act} (h : Exec Netvsc.step ReceiveCalls s l u) : RangesInv s.dev.view p u :=
  h.invariant ha.rangesInv (RangesInv.step hty)

/-- Whatever is called, at most one frame of the packet is handed to `recv_with`. -/
theorem Arrived.length_delivered_le (ha : Arrived s p)
    (hty : p.desc.packetType = vmPktDataUsingXferPages) {l : List Act}
    (h : Exec Netvsc.step ReceiveCalls s l u) :
    (deliveredFrames u.dev.log).length ≤ (deliveredFrames s.dev.log).length + 1 := by
  have hstart : s.dev.view.inHand.length = (deliveredFrames s.dev.log).length := by
    rw [View.inHand, show s.dev.view.pendingRx = none from ha.pending]
    simp [NetvscDevice.view]
  have hle : (deliveredFrames u.dev.log).length ≤ u.dev.view.inHand.length := by
    rw [View.inHand, List.length_append]
    exact Nat.le_add_right _ _
  cases (ha.run hty h).progress with
  | waiting ring pending buf inHand log =>
    rw [inHand] at hle
    omega
  | taken ring inHand =>
    have hone := Option.length_toList_le
      (o := queuedFrame (messageOf s.dev.view.recvBuf p rxFrameMax))
    rw [inHand, List.length_append] at hle
    omega

/-! ### One range -/

theorem pumpMessage_queued {rx frame : List UInt8} {d : NetvscDevice}
    (h : queuedFrame rx = some frame) :
    pumpMessage rx d = (.ok (), { d with pendingRx := some frame }) := by
  unfold queuedFrame at h
  split at h
  · exact absurd h (by simp)
  rename_i hlen
  split at h
  · rename_i hdata
    have hframe : extractEthFrame rxFrameMax rx = some (some frame) :=
      Option.join_eq_some_iff.mp h
    rw [pumpMessage, if_neg hlen, if_pos hdata, hframe]
    rfl
  · exact absurd h (by simp)

/-- `pump_channel` takes a packet whose frame it queues, and goes on. -/
theorem advance_pump_queued {d : NetvscDevice} {x : Posted} {rest : List Posted}
    {frame : List UInt8} (hb : Base d) (hx : unread d.log = x :: rest)
    (hty : x.packet.desc.packetType = vmPktDataUsingXferPages) (hp : d.pendingRx = none)
    (hq : queuedFrame (messageOf d.recvBuf x.packet rxFrameMax) = some frame) (env : Env)
    (call : Call) :
    ∃ d', advance env (.pump call) d = (.ok (.pump call), d') ∧ d'.pendingRx = some frame ∧
      Take x.packet d.view .pump d'.view := by
  obtain ⟨r, e, res, he, -, hack⟩ := ack_spec (hb.removed hx) x.packet.desc
  have hsome : ¬ (removed x.packet d).pendingRx.isSome = true := by
    rw [show (removed x.packet d).pendingRx = d.pendingRx from rfl, hp]
    decide
  have hrx : parseXferPagePacket (removed x.packet d).recvBuf (x.packet.body.take rawBufLen)
      rxFrameMax = messageOf d.recvBuf x.packet rxFrameMax := rfl
  refine ⟨{ removed x.packet d with
    send := r, log := (removed x.packet d).log ++ [e], pendingRx := some frame }, ?_, rfl, ?_⟩
  · rw [advance, Prog.bind_apply, receive, Prog.bind_apply, Prog.attempt, tryRecvRaw_cons hb hx]
    dsimp only
    rw [Prog.pure_apply]
    dsimp only
    rw [onPacket, Prog.bind_apply, pumpDispatch, hty, fromU16_xferPages]
    dsimp only
    rw [Prog.get_bind, if_neg hsome, Prog.bind_apply, hack]
    dsimp only
    rw [Prog.bind_apply, hrx, pumpMessage_queued hq]
    rfl
  · have ht := Take.pump (p := x.packet) (v := d.view) e hty hp he
    rw [show d.view.recvBuf = d.recvBuf from rfl, hq] at ht
    simpa [NetvscDevice.view, View.add, removed] using ht

/-- The calls that receive a frame. -/
def receiveFrame : List Act := [.call .hasRxPacket, receives, receives, .call .recvWith]

theorem Arrived.delivered_one {frame : List UInt8} (ha : Arrived s p)
    (hw : RangesPacket p s.dev.recvBuf [frame]) :
    ∃ u, Exec Netvsc.step ReceiveCalls s receiveFrame u ∧
      deliveredFrames u.dev.log = deliveredFrames s.dev.log ++ [frame] := by
  obtain ⟨d, c⟩ := s
  obtain rfl : c = .ready := ha.ready
  obtain ⟨x, hx, rfl⟩ : ∃ x, unread d.log = [x] ∧ x.packet = p :=
    List.map_eq_singleton_iff.mp ha.ring
  obtain ⟨d', hadv, hpending, ht⟩ := advance_pump_queued ha.base hx hw.type ha.pending
    (queuedFrame_of_posted (postedFrame_of_range hw)) { } .hasRxPacket
  have hcall : step ⟨d, .ready⟩ (.call .hasRxPacket) = some ⟨d, .pump .hasRxPacket⟩ := rfl
  have htake : step ⟨d, .pump .hasRxPacket⟩ receives = some ⟨d', .pump .hasRxPacket⟩ := by
    show some (perform (advance { } (.pump .hasRxPacket)) ⟨d, .pump .hasRxPacket⟩) = _
    rw [perform, hadv]
  -- the ring is empty now, and the call returns
  have hb' : Base d' := base_of_step (s := ⟨d, .pump .hasRxPacket⟩) ha.base htake
  have hempty : unread d'.log = [] := by
    rw [show unread d'.log = (unread d.log).tail from ht.unread_eq, hx]
    rfl
  have hreturn : step ⟨d', .pump .hasRxPacket⟩ receives = some ⟨d', .ready⟩ := by
    show some (perform (advance { } (.pump .hasRxPacket)) ⟨d', .pump .hasRxPacket⟩) = _
    rw [perform, advance, Prog.bind_apply, receive, Prog.bind_apply, Prog.attempt,
      tryRecvRaw_nil hb' hempty]
    rfl
  have hrecv : step ⟨d', .ready⟩ (.call .recvWith) =
      some ⟨{ d' with pendingRx := none, log := d'.log ++ [.delivered frame] }, .ready⟩ := by
    show some (perform (startCall .recvWith) ⟨d', .ready⟩) = _
    simp only [perform, startCall, recvWith, Prog.bind_apply, Prog.modify, hpending,
      Prog.pure_apply]
  refine ⟨_, .cons trivial hcall (.cons trivial htake (.cons trivial hreturn
    (.cons trivial hrecv .nil))), ?_⟩
  rw [deliveredFrames_append, show deliveredFrames d'.log = deliveredFrames d.log from
    ht.deliveredFrames_eq]
  rfl

end

/-- **Every range is delivered** exactly if the packet has one range. -/
theorem rangesDelivered_iff {s : Sys} {p : Packet} {frames : List (List UInt8)}
    (ha : Arrived s p) (hw : RangesPacket p s.dev.recvBuf frames) :
    RangesDelivered s p frames ↔ frames.length = 1 := by
  constructor
  · rintro ⟨⟨l, u, hrun, hdel⟩, -⟩
    have hle := ha.length_delivered_le hw.type hrun
    rw [hdel, List.length_append] at hle
    have hpos := hw.pos
    omega
  · intro hone
    obtain ⟨frame, rfl⟩ := List.length_eq_one_iff.mp hone
    obtain ⟨u, hrun, hdel⟩ := ha.delivered_one hw
    refine ⟨⟨_, u, hrun, hdel⟩, fun l v hv hcomp => ?_⟩
    cases (ha.run hw.type hv).progress with
    | waiting ring pending buf inHand log =>
      -- no completion is sent while the packet is on the ring
      obtain ⟨new, hlog, hmem⟩ := hcomp
      obtain ⟨new', hlog', hnew'⟩ := log
      obtain rfl := List.append_cancel_left (hlog.symm.trans hlog')
      exact absurd (hnew' _ hmem) (by simp [Event.comp?])
    | taken ring inHand =>
      rw [inHand, show queuedFrame (messageOf s.dev.view.recvBuf p rxFrameMax) = some frame from
        queuedFrame_of_posted (postedFrame_of_range hw)]
      rfl

theorem Fresh.arrived {s u : Sys} {p : Packet} {mem : ℕ → UInt8} {tag : Option ℕ}
    (h0 : Fresh s) (h : step s (.put p mem tag) = some u) :
    Arrived u p ∧ u.dev.recvBuf = mem := by
  obtain ⟨hctl, hb, hv⟩ := put_moves h0.base h
  have hlog : u.dev.log = s.dev.log ++ [.put p tag (postedFrame p mem)] := congrArg View.log hv
  have hpending : u.dev.pendingRx = s.dev.pendingRx := congrArg View.pendingRx hv
  refine ⟨⟨hctl.trans h0.ready, hb, ?_, hpending.trans h0.pending⟩, congrArg View.recvBuf hv⟩
  rw [hlog, h0.log]
  rfl

instance (s : Sys) : (a : Act) → Decidable (ReceiveCalls s a)
  | .call .hasRxPacket | .call .recvWith | .guest _ | .take => .isTrue trivial
  | .call .hasTxSpace | .call (.transmitWith ..) | .call (.sendRndisControl _) | .put .. =>
      .isFalse id

/-- One frame of three bytes, at the start of the receive buffer. -/
def oneRange : Packet := xferPagePacket 11 47 0

theorem rangesDelivered_one_range :
    ∃ s, step (readySys { }) (postFrame 11 0 [1, 2, 3] fun _ => 0) = some s ∧
      RangesDelivered s oneRange [[1, 2, 3]] := by
  obtain ⟨s, hs⟩ : ∃ s, step (readySys { }) (postFrame 11 0 [1, 2, 3] fun _ => 0) = some s :=
    Option.isSome_iff_exists.mp (by decide +kernel)
  obtain ⟨ha, hbuf⟩ := (fresh_readySys { }).arrived hs
  have hw : RangesPacket oneRange s.dev.recvBuf [[1, 2, 3]] := by
    rw [hbuf]
    exact ⟨rfl, by decide +kernel, by decide, by decide, by decide +kernel, by decide +kernel⟩
  exact ⟨s, hs, (rangesDelivered_iff ha hw).mpr rfl⟩

/-- Two frames of three bytes, in different sections of the receive buffer. -/
def twoRanges : Packet :=
  ⟨⟨vmPktDataUsingXferPages, 5, 5, 0, 11⟩,
    le32 0xcafe ++ le32 2 ++ le32 47 ++ le32 0 ++ le32 47 ++ le32 2048, by simp⟩

def postTwoRanges : Act :=
  .put twoRanges (Memory.write (Memory.write (fun _ => 0) 0 (packetMsg [1, 2, 3])) 2048
    (packetMsg [4, 5, 6])) none

/-- A frame is received, and the receiver asks for another one. -/
def receiveAgain : List Act := receiveFrame ++ [.call .hasRxPacket, receives, .call .recvWith]

/-- The first frame is received and the packet is completed; the second frame is neither
pending nor on the ring, and no sequence of calls receives it. -/
theorem second_range_lost :
    ∃ s, step (readySys { }) postTwoRanges = some s ∧ Arrived s twoRanges ∧
      RangesPacket twoRanges s.dev.recvBuf [[1, 2, 3], [4, 5, 6]] ∧
      (∃ u, Exec step ReceiveCalls s receiveAgain u ∧
        deliveredFrames u.dev.log = [[1, 2, 3]] ∧ u.dev.pendingRx = none ∧
        unread u.dev.log = [] ∧ Event.sent vmPktComp 11 compPayload ∈ u.dev.log) ∧
      ¬ RangesDelivered s twoRanges [[1, 2, 3], [4, 5, 6]] := by
  obtain ⟨s, hs, hrun⟩ : ∃ s ∈ step (readySys { }) postTwoRanges,
      ∃ u ∈ run step ReceiveCalls s receiveAgain,
        deliveredFrames u.dev.log = [[1, 2, 3]] ∧ u.dev.pendingRx = none ∧
        unread u.dev.log = [] ∧ Event.sent vmPktComp 11 compPayload ∈ u.dev.log := by
    decide +kernel
  obtain ⟨ha, hbuf⟩ := (fresh_readySys { }).arrived hs
  have hw : RangesPacket twoRanges s.dev.recvBuf [[1, 2, 3], [4, 5, 6]] := by
    rw [hbuf]
    exact ⟨rfl, by decide +kernel, by decide, by decide, by decide +kernel, by decide +kernel⟩
  refine ⟨s, hs, ha, hw, Exec.exists_of_run hrun, ?_⟩
  rintro ⟨⟨l, u, hu, hdel⟩, -⟩
  have hle := ha.length_delivered_le hw.type hu
  rw [hdel, List.length_append] at hle
  exact absurd hle (by simp)

end Netvsc
