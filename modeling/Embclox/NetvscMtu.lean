/-
Frames of the negotiated MTU.

`init` checks that a frame of `mtu + 14` bytes fits into the slot of the receive queue.
The slot first holds the whole RNDIS message, though, which is 44 bytes longer.

* `Carries p mem frame` — the packet `p` names one range of the receive buffer, which
  holds an `RNDIS_PACKET_MSG` with this frame right behind its header;
* `pump_queues` — `pump_channel` queues the frame if the message fits into the slot;
* `pump_drops` — otherwise it drops it;
* `deliverable_iff` — so the frames of an accepted MTU are delivered exactly if the MTU
  leaves room for the header.
-/
import Embclox.NetvscDrain
import Embclox.NetvscFrame

open Bytes Effect Ring Nvsp

namespace Netvsc

/-! ### Packets with a frame -/

/-- The message that the first range of the packet names. -/
def rangeMsg (p : Packet) (mem : ℕ → UInt8) (frame : List UInt8) : List UInt8 :=
  Memory.read mem (u32At p.body 12).toNat (rndisPacketHdrSize + frame.length)

/-- The host sends this frame in an `RNDIS_PACKET_MSG` with data offset 36 and without
per-packet information, in bounds of the receive buffer. -/
structure Carries (p : Packet) (mem : ℕ → UInt8) (frame : List UInt8) : Prop where
  xferPages : p.desc.packetType = vmPktDataUsingXferPages
  body : 16 ≤ p.body.length
  oneRange : u32At p.body 4 = 1
  count : (u32At p.body 8).toNat = rndisPacketHdrSize + frame.length
  inside : (u32At p.body 12).toNat + (rndisPacketHdrSize + frame.length) ≤ netvscRecvBufSize
  type : u32At (rangeMsg p mem frame) 0 = RndisMessageType.packet.asU32
  messageLength : (u32At (rangeMsg p mem frame) 4).toNat = rndisPacketHdrSize + frame.length
  dataOffset : u32At (rangeMsg p mem frame) 8 = 36
  dataLength : (u32At (rangeMsg p mem frame) 12).toNat = frame.length
  noPacketInfo : u32At (rangeMsg p mem frame) 32 = 0
  data : (rangeMsg p mem frame).drop rndisPacketHdrSize = frame

section

variable {p : Packet} {mem : ℕ → UInt8} {frame : List UInt8}

/-- The message in the slot of `pump_channel`, cut off if it is too long. -/
theorem Carries.slot (h : Carries p mem frame) :
    messageOf mem p rxFrameMax = (rangeMsg p mem frame).take rxFrameMax :=
  messageOf_range h.body h.oneRange h.count rfl
    (Nat.lt_of_lt_of_le (by decide) (Nat.le_add_right _ _)) h.inside

theorem length_rangeMsg (p : Packet) (mem : ℕ → UInt8) (frame : List UInt8) :
    (rangeMsg p mem frame).length = rndisPacketHdrSize + frame.length :=
  Memory.length_read _ _ _

/-- The words of the message are still there when it was cut off. -/
theorem u32At_slot {off : ℕ} (hoff : off + 4 ≤ rxFrameMax) :
    u32At ((rangeMsg p mem frame).take rxFrameMax) off = u32At (rangeMsg p mem frame) off :=
  u32At_take hoff

/-- What `extract_eth_frame` makes of the message in the slot. -/
theorem Carries.extract (h : Carries p mem frame) :
    extractEthFrame rxFrameMax ((rangeMsg p mem frame).take rxFrameMax) =
      if rndisPacketHdrSize + frame.length ≤ rxFrameMax then some (some frame) else some none := by
  have hlen : ((rangeMsg p mem frame).take rxFrameMax).length =
      min rxFrameMax (rndisPacketHdrSize + frame.length) := by
    rw [List.length_take, length_rangeMsg]
  have hhdr : rndisPacketHdrSize ≤ ((rangeMsg p mem frame).take rxFrameMax).length := by
    rw [hlen]
    unfold rndisPacketHdrSize rndisPacketSize rndisHeaderSize rxFrameMax
    omega
  have hshort : ¬ ((rangeMsg p mem frame).take rxFrameMax).length < rndisHeaderSize := by
    unfold rndisPacketHdrSize at hhdr
    omega
  have hparse := parseRndisResponse_packet
    (by rw [u32At_slot (by decide)]; exact h.type)
    (by rw [u32At_slot (by decide), h.messageLength]; omega) hhdr
  rw [u32At_slot (by decide), u32At_slot (by decide), h.dataOffset] at hparse
  have hstart : rndisHeaderSize + (36 : UInt32).toNat = rndisPacketHdrSize := rfl
  rw [extractEthFrame, if_neg hshort, hparse]
  dsimp only [Option.map_some]
  rw [hstart, h.dataLength]
  by_cases hfits : rndisPacketHdrSize + frame.length ≤ rxFrameMax
  · have hall : (rangeMsg p mem frame).take rxFrameMax = rangeMsg p mem frame :=
      List.take_of_length_le (by rw [length_rangeMsg]; exact hfits)
    rw [if_pos hfits, if_pos (by rw [hlen]; omega), hall, h.data, List.take_length]
  · rw [if_neg hfits, if_neg (by rw [hlen]; omega)]

/-- The message is an `RNDIS_PACKET_MSG`, so `pump_channel` queues what is extracted. -/
theorem Carries.pumpMessage (h : Carries p mem frame) (d : NetvscDevice) :
    pumpMessage ((rangeMsg p mem frame).take rxFrameMax) d =
      (.ok (), if rndisPacketHdrSize + frame.length ≤ rxFrameMax then
        { d with pendingRx := some frame } else d) := by
  have hshort : ¬ ((rangeMsg p mem frame).take rxFrameMax).length < rndisHeaderSize := by
    rw [List.length_take, length_rangeMsg]
    unfold rndisPacketHdrSize rndisPacketSize rndisHeaderSize rxFrameMax
    omega
  rw [Netvsc.pumpMessage, if_neg hshort, u32At_slot (by decide), h.type, if_pos rfl, h.extract]
  by_cases hfits : rndisPacketHdrSize + frame.length ≤ rxFrameMax
  · rw [if_pos hfits, if_pos hfits]
    rfl
  · rw [if_neg hfits, if_neg hfits]
    rfl

end

/-! ### `pump_channel` on a ring with such a packet -/

section

variable {d : NetvscDevice} {p : Packet} {q : List Packet} {frame : List UInt8}

/-- A completion is sent, or it is not, but the device does not panic. -/
theorem attempt_sendCompletion (h : sendAvail d.send ≠ none) (payload : List UInt8)
    (transactionId : UInt64) :
    ∃ res r e, Prog.attempt (sendCompletion payload transactionId) d =
      (.ok res, { d with send := r, log := d.log ++ [e] }) := by
  rcases havail : sendAvail d.send with _ | avail
  · exact absurd havail h
  · by_cases hfull : avail ≤ align8 (16 + payload.length) + 8
    · refine ⟨.error (.hypercallFailed 0xFFFF), d.send, .ringFull, ?_⟩
      simp only [Prog.attempt, sendCompletion, channelSend, sendComp, sendWith, havail,
        if_pos hfull]
    · refine ⟨.ok (), (sendComp payload transactionId d.send).2,
        .sent vmPktComp transactionId payload, ?_⟩
      simp only [Prog.attempt, sendCompletion, channelSend, sendComp, sendWith, havail,
        if_neg hfull]

theorem pumpRound_of_empty (h : Repr d.recv []) : pumpRound d = (.ok false, d) := by
  rw [pumpRound, Prog.bind_apply, tryRecvRaw_of_empty h]
  rfl

/-- The round of `pump_channel` that takes the packet off the ring. -/
theorem Carries.round (hc : Carries p d.recvBuf frame) (hrecv : Repr d.recv (p :: q))
    (hp : d.pendingRx = none) (hsend : sendAvail d.send ≠ none) :
    ∃ d', pumpRound d = (.ok true, d') ∧ Repr d'.recv q ∧
      d'.pendingRx =
        if rndisPacketHdrSize + frame.length ≤ rxFrameMax then some frame else none := by
  have hty : VmbusPacketType.fromU16 p.desc.packetType = some .dataUsingXferPages := by
    rw [hc.xferPages]
    exact fromU16_xferPages
  obtain ⟨res, r, e, hack⟩ := attempt_sendCompletion (d := removed p d) hsend compPayload
    p.desc.transactionId
  have hround : pumpRound d = (.ok true, if rndisPacketHdrSize + frame.length ≤ rxFrameMax then
      { removed p d with
        send := r, log := (removed p d).log ++ [e], pendingRx := some frame }
      else { removed p d with send := r, log := (removed p d).log ++ [e] }) := by
    rw [pumpRound_of_packet (tryRecvRaw_of_repr hrecv rawBufLen),
      pumpDispatch_message (d := removed p d) hty hp hack]
    show (Netvsc.pumpMessage (messageOf d.recvBuf p rxFrameMax) >>= fun _ =>
      pure true : Dev Bool) _ = _
    rw [hc.slot, Prog.bind_apply, hc.pumpMessage]
    rfl
  refine ⟨_, hround, ?_, ?_⟩
  · by_cases hfits : rndisPacketHdrSize + frame.length ≤ rxFrameMax
    · rw [if_pos hfits]
      exact hrecv.pop
    · rw [if_neg hfits]
      exact hrecv.pop
  · by_cases hfits : rndisPacketHdrSize + frame.length ≤ rxFrameMax
    · rw [if_pos hfits, if_pos hfits]
    · rw [if_neg hfits, if_neg hfits]
      exact hp

/-- With a frame pending, the rest of the ring changes nothing about it. -/
theorem pumpRound_pending (hrecv : ∃ q, Repr d.recv q) (hp : d.pendingRx = some frame) :
    ((∃ q, Repr (pumpRound d).2.recv q) ∧ (pumpRound d).2.pendingRx = some frame) ∧
      ∃ b, (pumpRound d).1 = .ok b := by
  obtain ⟨q, hq⟩ := hrecv
  cases q with
  | nil =>
    rw [pumpRound_of_empty hq]
    exact ⟨⟨⟨[], hq⟩, hp⟩, false, rfl⟩
  | cons p q =>
    rw [pumpRound_of_packet (tryRecvRaw_of_repr hq rawBufLen)]
    by_cases hty : VmbusPacketType.fromU16 p.desc.packetType = some .dataUsingXferPages
    · rw [pumpDispatch_stops (d := removed p d) hty (Option.isSome_iff_exists.mpr ⟨frame, hp⟩)]
      exact ⟨⟨⟨q, hq.pop⟩, hp⟩, false, rfl⟩
    · obtain ⟨free, hfree⟩ := @pumpDispatch_skips p.desc (p.body.take rawBufLen) (removed p d) hty
      rw [hfree]
      exact ⟨⟨⟨q, hq.pop⟩, hp⟩, true, rfl⟩

/-- The ring of packets is one on which the loop ends. -/
theorem ends_of_repr (h : ∃ q, Repr d.recv q) : Prog.Ends pumpRound d := by
  obtain ⟨q, hq⟩ := h
  obtain ⟨k, hk⟩ := exists_rejected hq.size_le hq.write_lt
  exact ends_of_rejected pumpRound_next hk

/-- **`pump_channel` queues the frame** if its message fits into the slot. -/
theorem pump_queues (hc : Carries p d.recvBuf frame) (hrecv : Repr d.recv (p :: q))
    (hp : d.pendingRx = none) (hsend : sendAvail d.send ≠ none)
    (hfits : rndisPacketHdrSize + frame.length ≤ rxFrameMax) :
    ∃ n d', pumpChannel n d = (.ok false, d') ∧ d'.pendingRx = some frame := by
  obtain ⟨d1, hround, hrecv1, hpending⟩ := hc.round hrecv hp hsend
  rw [if_pos hfits] at hpending
  obtain ⟨n, d', hloop, -, hpending'⟩ := (ends_of_repr ⟨q, hrecv1⟩).safe
    (I := fun d => (∃ q, Repr d.recv q) ∧ d.pendingRx = some frame)
    (fun d hd => pumpRound_pending hd.1 hd.2) ⟨⟨q, hrecv1⟩, hpending⟩
  refine ⟨n + 1, d', ?_, hpending'⟩
  rw [pumpChannel, Prog.loop_next hround]
  exact hloop

/-- **`pump_channel` drops the frame** if it is the only packet and its message does not
fit into the slot. -/
theorem pump_drops (hc : Carries p d.recvBuf frame) (hrecv : Repr d.recv [p])
    (hp : d.pendingRx = none) (hsend : sendAvail d.send ≠ none)
    (hlong : rxFrameMax < rndisPacketHdrSize + frame.length) {n : ℕ} {d' : NetvscDevice}
    (h : pumpChannel n d = (.ok false, d')) : d'.pendingRx = none := by
  obtain ⟨d1, hround, hrecv1, hpending⟩ := hc.round hrecv hp hsend
  rw [if_neg (by omega)] at hpending
  have hlast := pumpRound_of_empty hrecv1
  rcases n with _ | _ | n
  · exact absurd (congrArg Prod.fst h) (by simp [pumpChannel, Prog.loop])
  · rw [pumpChannel, Prog.loop_next hround] at h
    exact absurd (congrArg Prod.fst h) (by simp [Prog.loop])
  · rw [pumpChannel, Prog.loop_next hround, Prog.loop_last (by rw [hlast]; simp), hlast] at h
    obtain ⟨-, rfl⟩ := Prod.mk.inj h
    exact hpending

end

/-! ### A host that sends one frame -/

theorem packetMsg_eq (frame : List UInt8) :
    packetMsg frame = le32 RndisMessageType.packet.asU32 ++
      (le32 (UInt32.ofNat (rndisPacketHdrSize + frame.length)) ++ (le32 36 ++
        (le32 (UInt32.ofNat frame.length) ++ (List.replicate 28 0 ++ frame)))) := by
  have hlen : rndisHeaderSize + (le32 36 ++ le32 (UInt32.ofNat frame.length) ++
      List.replicate 28 0 ++ frame).length = rndisPacketHdrSize + frame.length := by
    simp only [List.length_append, length_le32, List.length_replicate, rndisPacketHdrSize,
      rndisPacketSize]
    omega
  rw [packetMsg, rndisMessage, hlen]
  simp only [List.append_assoc]

theorem length_packetMsg (frame : List UInt8) :
    (packetMsg frame).length = rndisPacketHdrSize + frame.length := by
  rw [packetMsg_eq]
  simp only [List.length_append, length_le32, List.length_replicate]
  unfold rndisPacketHdrSize rndisPacketSize rndisHeaderSize
  omega

/-- A transfer-page packet for a message at the start of the receive buffer. -/
theorem carries_packetMsg {frame : List UInt8} (hlen : frame.length ≤ rxFrameMax)
    (transactionId : UInt64) (mem : ℕ → UInt8) :
    Carries (xferPagePacket transactionId (UInt32.ofNat (packetMsg frame).length) 0)
      (Memory.write mem 0 (packetMsg frame)) frame := by
  unfold rxFrameMax at hlen
  have hsize : rndisPacketHdrSize + frame.length < 2 ^ 32 := by
    unfold rndisPacketHdrSize rndisPacketSize rndisHeaderSize
    omega
  have hfield : ∀ n, n < 2 ^ 32 → (UInt32.ofNat n).toNat = n := by
    intro n hn
    rw [UInt32.toNat_ofNat', Nat.mod_eq_of_lt hn]
  have hbody : (xferPagePacket transactionId (UInt32.ofNat (packetMsg frame).length) 0).body =
      le32 0xcafe ++
        (le32 1 ++ (le32 (UInt32.ofNat (packetMsg frame).length) ++ (le32 0 ++ []))) := by
    simp only [xferPagePacket, List.append_assoc, List.append_nil]
  have hoffset : u32At (xferPagePacket transactionId (UInt32.ofNat (packetMsg frame).length) 0).body
      12 = 0 := by
    rw [hbody, u32At_skip _ _ 8, u32At_skip _ _ 4, u32At_skip _ _ 0, u32At_head]
  have hmsg : rangeMsg (xferPagePacket transactionId (UInt32.ofNat (packetMsg frame).length) 0)
      (Memory.write mem 0 (packetMsg frame)) frame = packetMsg frame := by
    rw [rangeMsg, hoffset, ← length_packetMsg]
    exact Memory.read_write mem 0 _
  refine ⟨rfl, by simp [xferPagePacket], ?_, ?_, ?_, ?_, ?_, ?_, ?_, ?_, ?_⟩
  · rw [hbody, u32At_skip _ _ 0, u32At_head]
  · rw [hbody, u32At_skip _ _ 4, u32At_skip _ _ 0, u32At_head, length_packetMsg, hfield _ hsize]
  · rw [hoffset]
    unfold netvscRecvBufSize rndisPacketHdrSize rndisPacketSize rndisHeaderSize
    show 0 + _ ≤ _
    omega
  · rw [hmsg, packetMsg_eq, u32At_head]
  · rw [hmsg, packetMsg_eq, u32At_skip _ _ 0, u32At_head, hfield _ hsize]
  · rw [hmsg, packetMsg_eq, u32At_skip _ _ 4, u32At_skip _ _ 0, u32At_head]
  · rw [hmsg, packetMsg_eq, u32At_skip _ _ 8, u32At_skip _ _ 4, u32At_skip _ _ 0, u32At_head,
      hfield _ (by omega)]
  · -- the length of the per-packet information is one of the zero words
    have hzeros : List.replicate 28 (0 : UInt8) =
        List.replicate 16 0 ++ (le32 0 ++ List.replicate 8 0) := by decide
    rw [hmsg, packetMsg_eq, u32At_skip _ _ 28, u32At_skip _ _ 24, u32At_skip _ _ 20,
      u32At_skip _ _ 16, hzeros, List.append_assoc, List.append_assoc]
    exact (u32At_append (List.replicate 16 0) _ 0).trans (u32At_head 0 _)
  · have hsplit : packetMsg frame = (le32 RndisMessageType.packet.asU32 ++
        (le32 (UInt32.ofNat (rndisPacketHdrSize + frame.length)) ++ (le32 36 ++
          (le32 (UInt32.ofNat frame.length) ++ List.replicate 28 0)))) ++ frame := by
      rw [packetMsg_eq]
      simp only [List.append_assoc]
    rw [hmsg, hsplit]
    exact List.drop_left' (by simp [rndisPacketHdrSize, rndisPacketSize, rndisHeaderSize])

/-- A device with this MTU, after the host has sent one frame. -/
def oneFrame (mtu : UInt32) (frame : List UInt8) : NetvscDevice :=
  { openedDevice { } with
    mtu := mtu
    recv := push (openedHalf fun _ => 0)
      (xferPagePacket 1 (UInt32.ofNat (packetMsg frame).length) 0) (List.replicate 8 0)
    recvBuf := Memory.write (fun _ => 0) 0 (packetMsg frame) }

theorem oneFrame_repr (mtu : UInt32) (frame : List UInt8) :
    Repr (oneFrame mtu frame).recv
      [xferPagePacket 1 (UInt32.ofNat (packetMsg frame).length) 0] := by
  have hfresh : Repr (openedHalf fun _ => 0) [] :=
    freshRing_repr (by decide) (by decide) (by decide)
  have htrailer : (List.replicate 8 (0 : UInt8)).length = 8 := rfl
  refine hfresh.push (p := xferPagePacket 1 (UInt32.ofNat (packetMsg frame).length) 0) htrailer ?_
  rw [packetSpan_concat, Packet.length_toBytes]
  show packetSpan [] + (8 * (4 : UInt16).toNat + 8) < netvscRingSize / 2 - 4096
  decide

/-! ### Deliverable MTUs -/

/-- On every device with this MTU that `init` accepts, `pump_channel` queues every frame
of at most `mtu + 14` bytes that the host sends. -/
def Deliverable (mtu : UInt32) : Prop :=
  ∀ (d : NetvscDevice) (p : Packet) (q : List Packet) (frame : List UInt8),
    d.mtu = mtu → (checkMtu d).1 ≠ .panic → Repr d.recv (p :: q) → d.pendingRx = none →
    sendAvail d.send ≠ none → Carries p d.recvBuf frame → frame.length ≤ mtu.toNat + 14 →
    ∃ n d', pumpChannel n d = (.ok false, d') ∧ d'.pendingRx = some frame

/-- The check at the end of `init`. -/
theorem checkMtu_of_le {d : NetvscDevice} (h : d.mtu.toNat + 14 ≤ rxFrameMax) :
    (checkMtu d).1 ≠ .panic := by
  rw [checkMtu, Prog.get_bind, if_pos h]
  simp

theorem not_deliverable {mtu : UInt32} (h : mtu.toNat + 14 ≤ rxFrameMax)
    (hlong : rxFrameMax < rndisPacketHdrSize + (mtu.toNat + 14)) : ¬ Deliverable mtu := by
  intro hdel
  have hframe : (List.replicate (mtu.toNat + 14) (0 : UInt8)).length = mtu.toNat + 14 :=
    List.length_replicate
  have hc := carries_packetMsg (by rw [hframe]; exact h) 1 fun _ => 0
  have hsend : sendAvail (openedHalf fun _ => 0) ≠ none := by decide
  obtain ⟨n, d', hrun, hpending⟩ := hdel (oneFrame mtu _) _ [] _ rfl (checkMtu_of_le h)
    (oneFrame_repr mtu _) rfl hsend hc (Nat.le_of_eq hframe)
  have hnone := pump_drops (d := oneFrame mtu _) hc (oneFrame_repr mtu _) rfl hsend
    (by rw [hframe]; exact hlong) hrun
  rw [hnone] at hpending
  exact absurd hpending (by simp)

/-- **The frames of an accepted MTU are delivered exactly if** they fit into the slot
together with the header of their message. -/
theorem deliverable_iff {mtu : UInt32} (h : mtu.toNat + 14 ≤ rxFrameMax) :
    Deliverable mtu ↔ rndisPacketHdrSize + (mtu.toNat + 14) ≤ rxFrameMax := by
  constructor
  · intro hdel
    by_contra hlong
    exact not_deliverable h (by omega) hdel
  · intro hfits d p q frame _ _ hrecv hp hsend hc hlen
    exact pump_queues hc hrecv hp hsend (by omega)

theorem deliverable_ethernet : (1500 : UInt32).toNat + 14 ≤ rxFrameMax ∧ Deliverable 1500 :=
  ⟨by decide, (deliverable_iff (by decide)).mpr (by decide)⟩

/-- The largest MTU that `init` accepts: a frame of 1600 bytes does not fit. -/
theorem not_deliverable_largest :
    (1586 : UInt32).toNat + 14 ≤ rxFrameMax ∧ ¬ Deliverable 1586 :=
  ⟨by decide, not_deliverable (by decide) (by decide)⟩

end Netvsc
