/-
RNDIS messages in shared memory.

A frame goes out behind an RNDIS header in section 0 of the send buffer, and comes in
behind such a header somewhere in the receive buffer.  Both buffers are memory that the
host can write, so every offset and length below is any 32-bit value.

* `extractEthFrameIn` — `extract_eth_frame` with its buffer: the frame is moved to the
  start of the buffer it lies in; `extractEthFrame_read` says that the function the
  dispatch loop is modelled with returns what lies there afterwards;
* `encapsulation` — what `transmit_with` lays out is parsed back to the frame, and
  `extract_eth_frame` returns a frame exactly if it lies inside the message;
* `parseXferPageChecked` — `parse_xfer_page_packet` with every access and every sum
  checked;
* `xferPageExact` — it stays inside the receive buffer and copies the first range.
-/
import Embclox.NetvscRx
import Embclox.RndisParse

open Bytes Effect Ring Nvsp

namespace Netvsc

/-! ### `extract_eth_frame` in place -/

/-- `extract_eth_frame` on a buffer of `bufLen` bytes that starts with a message of
`rndisLen` bytes; the outer `none` is a panic. -/
def extractEthFrameIn (bufLen : ℕ) (buf : ℕ → UInt8) (rndisLen : ℕ) :
    Option (Option ℕ × (ℕ → UInt8)) :=
  if rndisLen < rndisHeaderSize then some (none, buf)
  -- the slice of the message
  else if bufLen < rndisLen then none
  else
    (parseRndisResponse (Memory.read buf 0 rndisLen)).map fun
      | some (.packet dataOffset dataLen _) =>
          let frameStart := rndisHeaderSize + dataOffset.toNat
          if frameStart + dataLen.toNat ≤ rndisLen ∧ dataLen.toNat ≤ bufLen then
            (some dataLen.toNat, Memory.move buf frameStart 0 dataLen.toNat)
          else (none, buf)
      | _ => (none, buf)

section

variable {bufLen rndisLen : ℕ} {buf : ℕ → UInt8}

/-- A run of bytes inside the message. -/
theorem take_drop_read {off n : ℕ} (h : off + n ≤ rndisLen) :
    ((Memory.read buf 0 rndisLen).drop off).take n = Memory.read buf off n := by
  obtain ⟨k, rfl⟩ := Nat.exists_eq_add_of_le (show off ≤ rndisLen by omega)
  rw [Memory.drop_read, Nat.zero_add, Memory.take_read (by omega)]

/-- The frame that the dispatch loop queues is what lies at the start of the buffer
afterwards. -/
theorem extractEthFrame_read (h : rndisLen ≤ bufLen) :
    extractEthFrame bufLen (Memory.read buf 0 rndisLen) =
      (extractEthFrameIn bufLen buf rndisLen).map fun x => x.1.map (Memory.read x.2 0) := by
  unfold extractEthFrame extractEthFrameIn
  rw [Memory.length_read]
  by_cases hshort : rndisLen < rndisHeaderSize
  · rw [if_pos hshort, if_pos hshort]
    rfl
  · rw [if_neg hshort, if_neg hshort, if_neg (by omega), Option.map_map]
    congr 1
    funext resp
    rcases resp with _ | resp
    · rfl
    · cases resp with
      | packet dataOffset dataLen raw =>
        simp only [Function.comp_apply]
        by_cases hfits : rndisHeaderSize + dataOffset.toNat + dataLen.toNat ≤ rndisLen ∧
            dataLen.toNat ≤ bufLen
        · rw [if_pos hfits, if_pos hfits]
          simp only [Option.map_some, Option.some_inj]
          rw [Memory.read_move _ (Nat.zero_le _), take_drop_read hfits.1]
        · rw [if_neg hfits, if_neg hfits]
          rfl
      | _ => rfl

end

/-! ### Messages with a complete header -/

/-- An `RNDIS_PACKET_MSG` that is long enough, and says so, for all of its header. -/
structure IsPacketMsg (msg : List UInt8) : Prop where
  type : u32At msg 0 = RndisMessageType.packet.asU32
  messageLength : rndisPacketHdrSize ≤ (u32At msg 4).toNat
  header : rndisPacketHdrSize ≤ msg.length

/-- `extract_eth_frame` returns the length of the frame exactly if the frame lies inside
the message, and then the buffer starts with it. -/
def ExtractExact (bufLen : ℕ) (buf : ℕ → UInt8) (rndisLen : ℕ) : Prop :=
  ∃ res buf', extractEthFrameIn bufLen buf rndisLen = some (res, buf') ∧
    (∀ n, res = some n ↔
      8 + (u32At (Memory.read buf 0 rndisLen) 8).toNat +
          (u32At (Memory.read buf 0 rndisLen) 12).toNat ≤ rndisLen ∧
        n = (u32At (Memory.read buf 0 rndisLen) 12).toNat) ∧
    ∀ n, res = some n → Memory.read buf' 0 n =
      Memory.read buf (8 + (u32At (Memory.read buf 0 rndisLen) 8).toNat) n

theorem extractExact_of_packet {bufLen rndisLen : ℕ} {buf : ℕ → UInt8}
    (hmsg : IsPacketMsg (Memory.read buf 0 rndisLen)) (hlen : rndisLen ≤ bufLen) :
    ExtractExact bufLen buf rndisLen := by
  have hheader := hmsg.header
  rw [Memory.length_read] at hheader
  have hshort : ¬ rndisLen < rndisHeaderSize := by
    unfold rndisPacketHdrSize at hheader
    omega
  have heq : extractEthFrameIn bufLen buf rndisLen =
      some (if rndisHeaderSize + (u32At (Memory.read buf 0 rndisLen) 8).toNat +
          (u32At (Memory.read buf 0 rndisLen) 12).toNat ≤ rndisLen ∧
            (u32At (Memory.read buf 0 rndisLen) 12).toNat ≤ bufLen then
          (some (u32At (Memory.read buf 0 rndisLen) 12).toNat,
            Memory.move buf (rndisHeaderSize + (u32At (Memory.read buf 0 rndisLen) 8).toNat) 0
              (u32At (Memory.read buf 0 rndisLen) 12).toNat)
        else (none, buf)) := by
    rw [extractEthFrameIn, if_neg hshort, if_neg (by omega),
      parseRndisResponse_packet hmsg.type hmsg.messageLength hmsg.header]
    rfl
  unfold rndisHeaderSize at heq
  unfold ExtractExact
  generalize (u32At (Memory.read buf 0 rndisLen) 8).toNat = dataOffset at *
  generalize (u32At (Memory.read buf 0 rndisLen) 12).toNat = dataLength at *
  by_cases hfits : 8 + dataOffset + dataLength ≤ rndisLen
  · rw [if_pos (by omega)] at heq
    refine ⟨_, _, heq, ?_, ?_⟩
    · intro n
      rw [Option.some_inj]
      exact ⟨fun h => ⟨hfits, h.symm⟩, fun h => h.2.symm⟩
    · intro n hn
      obtain rfl := Option.some_inj.mp hn
      exact Memory.read_move buf (Nat.zero_le _) _
  · rw [if_neg (by omega)] at heq
    refine ⟨_, _, heq, ?_, ?_⟩
    · intro n
      exact ⟨fun h => absurd h (by simp), fun h => absurd h.1 hfits⟩
    · intro n hn
      exact absurd hn (by simp)

/-! ### What `transmit_with` lays out -/

theorem length_packetHeader (frameLen : ℕ) :
    (packetHeader frameLen).length = rndisPacketHdrSize := by
  simp [packetHeader, rndisPacketHdrSize, rndisPacketSize, rndisHeaderSize]

/-- The words of the header that the parser looks at. -/
theorem packetHeader_words (frameLen : ℕ) (frame : List UInt8) :
    u32At (packetHeader frameLen ++ frame) 0 = RndisMessageType.packet.asU32 ∧
      u32At (packetHeader frameLen ++ frame) 4 = UInt32.ofNat (rndisPacketHdrSize + frameLen) ∧
      u32At (packetHeader frameLen ++ frame) 8 = UInt32.ofNat rndisPacketSize ∧
      u32At (packetHeader frameLen ++ frame) 12 = UInt32.ofNat frameLen := by
  unfold packetHeader
  simp only [List.append_assoc]
  refine ⟨u32At_head _ _, ?_, ?_, ?_⟩
  · rw [u32At_skip _ _ 0, u32At_head]
  · rw [u32At_skip _ _ 4, u32At_skip _ _ 0, u32At_head]
  · rw [u32At_skip _ _ 8, u32At_skip _ _ 4, u32At_skip _ _ 0, u32At_head]

/-- The frame that the closure leaves in the slice it is given. -/
def filledFrame (d : NetvscDevice) (frameLen : ℕ) (f : List UInt8 → List UInt8) : List UInt8 :=
  let payload := Memory.read d.sendBuf rndisPacketHdrSize frameLen
  (f payload).take frameLen ++ payload.drop (f payload).length

theorem length_filledFrame (d : NetvscDevice) (frameLen : ℕ) (f : List UInt8 → List UInt8) :
    (filledFrame d frameLen f).length = frameLen := by
  simp only [filledFrame, List.length_append, List.length_take, List.length_drop,
    Memory.length_read]
  omega

/-- The send buffer after `transmit_with`, whether or not the message could be sent. -/
theorem transmitFrame_sendBuf (d : NetvscDevice) (frameLen : ℕ) (f : List UInt8 → List UInt8) :
    (transmitFrame frameLen f d).2.sendBuf =
      Memory.write d.sendBuf 0 (packetHeader frameLen ++ filledFrame d frameLen f) := by
  have hsend : ∀ op e (d : NetvscDevice), (channelSend op e d).2.sendBuf = d.sendBuf := by
    intro op e d
    unfold channelSend
    rcases op d.send with ⟨_ | _ | _, r⟩ <;> rfl
  simp only [transmitFrame, filledFrame, Prog.bind_apply, Prog.get_apply, writeSection, Prog.modify,
    send, hsend]

/-- The message that `transmit_with` lays out is parsed as a data packet of its own
length, and the frame is extracted from it. -/
def RoundTrips (d : NetvscDevice) (frameLen : ℕ) (f : List UInt8 → List UInt8) : Prop :=
  let sent := (transmitFrame frameLen f d).2.sendBuf
  let msg := Memory.read sent 0 (rndisPacketHdrSize + frameLen)
  (∃ dataOffset dataLen raw,
      parseRndisResponse msg = some (some (.packet dataOffset dataLen raw))) ∧
    (u32At msg 4).toNat = msg.length ∧
    ∀ bufLen, msg.length ≤ bufLen → ∃ buf,
      extractEthFrameIn bufLen sent msg.length = some (some frameLen, buf) ∧
        Memory.read buf 0 frameLen = filledFrame d frameLen f

theorem roundTrips {frameLen : ℕ} (hlen : rndisPacketHdrSize + frameLen ≤ netvscSendBufSize)
    (d : NetvscDevice) (f : List UInt8 → List UInt8) : RoundTrips d frameLen f := by
  obtain ⟨htype, hlength, hoffset, hdata⟩ := packetHeader_words frameLen (filledFrame d frameLen f)
  have hsize : (packetHeader frameLen ++ filledFrame d frameLen f).length =
      rndisPacketHdrSize + frameLen := by
    rw [List.length_append, length_packetHeader, length_filledFrame]
  have hmsg : Memory.read (transmitFrame frameLen f d).2.sendBuf 0 (rndisPacketHdrSize + frameLen) =
      packetHeader frameLen ++ filledFrame d frameLen f := by
    rw [transmitFrame_sendBuf, ← hsize]
    exact Memory.read_write _ _ _
  -- the lengths fit their 32-bit fields
  have hfield : ∀ n, n ≤ netvscSendBufSize → (UInt32.ofNat n).toNat = n := by
    intro n hn
    unfold netvscSendBufSize at hn
    rw [UInt32.toNat_ofNat', Nat.mod_eq_of_lt (by omega)]
  have hpacket : IsPacketMsg (Memory.read (transmitFrame frameLen f d).2.sendBuf 0
      (rndisPacketHdrSize + frameLen)) := by
    refine ⟨by rw [hmsg, htype], ?_, ?_⟩
    · rw [hmsg, hlength, hfield _ hlen]
      omega
    · rw [Memory.length_read]
      omega
  unfold RoundTrips
  dsimp only
  refine ⟨⟨_, _, _, parseRndisResponse_packet hpacket.type hpacket.messageLength hpacket.header⟩,
    ?_, ?_⟩
  · rw [hmsg, hlength, hfield _ hlen, hsize]
  · intro bufLen hbuf
    rw [Memory.length_read] at hbuf ⊢
    obtain ⟨res, buf, heq, hres, hread⟩ := extractExact_of_packet hpacket hbuf
    have hdl : (u32At (Memory.read (transmitFrame frameLen f d).2.sendBuf 0
        (rndisPacketHdrSize + frameLen)) 12).toNat = frameLen := by
      rw [hmsg, hdata, hfield _ (by omega)]
    have hdo : 8 + (u32At (Memory.read (transmitFrame frameLen f d).2.sendBuf 0
        (rndisPacketHdrSize + frameLen)) 8).toNat = rndisPacketHdrSize := by
      rw [hmsg, hoffset]
      rfl
    rw [hdl, hdo] at hres
    rw [hdo] at hread
    have hsome := (hres frameLen).mpr ⟨Nat.le_refl _, rfl⟩
    refine ⟨buf, by rw [heq, hsome], ?_⟩
    have hframe := congrArg (List.drop rndisPacketHdrSize) hmsg
    rw [Memory.drop_read, Nat.zero_add, List.drop_left' (length_packetHeader frameLen)] at hframe
    exact (hread frameLen hsome).trans hframe

/-- **The encapsulation round-trips**, and `extract_eth_frame` is exact on every
message with a complete header. -/
theorem encapsulation :
    (∀ (d : NetvscDevice) (frameLen : ℕ) (f : List UInt8 → List UInt8),
      rndisPacketHdrSize + frameLen ≤ netvscSendBufSize → RoundTrips d frameLen f) ∧
    ∀ (bufLen : ℕ) (buf : ℕ → UInt8) (rndisLen : ℕ),
      IsPacketMsg (Memory.read buf 0 rndisLen) → rndisLen ≤ bufLen →
        ExtractExact bufLen buf rndisLen :=
  ⟨fun d _ f hlen => roundTrips hlen d f, fun _ _ _ hmsg hlen => extractExact_of_packet hmsg hlen⟩

/-- A message with 60 bytes of data at the start of a buffer. -/
def bufferedMsg : ℕ → UInt8 := Memory.write (fun _ => 0) 0 (packetMsg (List.replicate 60 7))

theorem encapsulation_sixty :
    RoundTrips (openedDevice { }) 60 (fun _ => List.replicate 60 7) ∧
      IsPacketMsg (Memory.read bufferedMsg 0 104) ∧ ExtractExact rxFrameMax bufferedMsg 104 := by
  have hmsg : IsPacketMsg (Memory.read bufferedMsg 0 104) :=
    ⟨by decide +kernel, by decide +kernel, by decide⟩
  exact ⟨encapsulation.1 _ 60 _ (by decide), hmsg,
    encapsulation.2 rxFrameMax bufferedMsg 104 hmsg (by decide)⟩

/-! ### `parse_xfer_page_packet` with checks -/

/-- A sum or product of `usize`; `none` is the overflow. -/
def usize (n : ℕ) : Option ℕ := if n < 2 ^ 64 then some n else none

/-- `n` bytes of the receive buffer; `none` if they do not lie inside it. -/
def readRecvBuf (recvBuf : ℕ → UInt8) (off n : ℕ) : Option (List UInt8) :=
  if off + n ≤ netvscRecvBufSize then some (Memory.read recvBuf off n) else none

/-- `parse_xfer_page_packet` into the slice `out`, with the length it returns. -/
def parseXferPageChecked (recvBuf : ℕ → UInt8) (raw out : List UInt8) :
    Option (ℕ × List UInt8) :=
  if raw.length < 8 then some (0, out)
  else do
    let input := Span.all raw
    let rangeCnt ← input.u32 raw 4
    if rangeCnt.toNat = 0 then return (0, out)
    let ranges ← usize (rangeCnt.toNat * 8)
    let needed ← usize (8 + ranges)
    if raw.length < needed then return (0, out)
    let range ← input.slice 8 raw.length
    let byteCount ← range.u32 raw 0
    let byteOffset ← range.u32 raw 4
    let stop ← usize (byteOffset.toNat + byteCount.toNat)
    if netvscRecvBufSize < stop ∨ byteCount.toNat = 0 then return (0, out)
    let copyLen := min byteCount.toNat out.length
    let bytes ← readRecvBuf recvBuf byteOffset.toNat copyLen
    -- `copyLen` is at most the length of `out`
    return (copyLen, bytes ++ out.drop copyLen)

/-- The packet does not name a range of the receive buffer. -/
def BadRange (raw : List UInt8) : Prop :=
  raw.length < 8 ∨ (u32At raw 4).toNat = 0 ∨ raw.length < 8 + (u32At raw 4).toNat * 8 ∨
    (u32At raw 8).toNat = 0 ∨ netvscRecvBufSize < (u32At raw 12).toNat + (u32At raw 8).toNat

instance (raw : List UInt8) : Decidable (BadRange raw) :=
  inferInstanceAs (Decidable (_ ∨ _ ∨ _ ∨ _ ∨ _))

/-- **What `parse_xfer_page_packet` computes**: no access fails and no sum overflows. -/
theorem parseXferPageChecked_eq (recvBuf : ℕ → UInt8) (raw out : List UInt8) :
    parseXferPageChecked recvBuf raw out =
      some (if BadRange raw then (0, out)
        else (min (u32At raw 8).toNat out.length,
          Memory.read recvBuf (u32At raw 12).toNat (min (u32At raw 8).toNat out.length) ++
            out.drop (min (u32At raw 8).toNat out.length))) := by
  have hcount := (u32At raw 4).toNat_lt
  have hbytes := (u32At raw 8).toNat_lt
  have hoff := (u32At raw 12).toNat_lt
  have husize : ∀ n, n < 2 ^ 64 → usize n = some n := fun n hn => if_pos hn
  unfold parseXferPageChecked
  by_cases hshort : raw.length < 8
  · rw [if_pos hshort, if_pos (.inl hshort)]
  · have hword : (Span.all raw).u32 raw 4 = some (u32At raw 4) := by
      rw [Span.u32, Span.all, if_pos (show 4 + 4 ≤ raw.length by omega), Nat.zero_add]
    simp only [if_neg hshort, hword, Option.bind_eq_bind, Option.bind_some]
    by_cases hzero : (u32At raw 4).toNat = 0
    · rw [if_pos hzero, if_pos (.inr (.inl hzero))]
      rfl
    · simp only [if_neg hzero, husize _ (show (u32At raw 4).toNat * 8 < 2 ^ 64 by omega),
        husize _ (show 8 + (u32At raw 4).toNat * 8 < 2 ^ 64 by omega), Option.bind_some]
      by_cases hneed : raw.length < 8 + (u32At raw 4).toNat * 8
      · rw [if_pos hneed, if_pos (.inr (.inr (.inl hneed)))]
        rfl
      · -- the first range lies behind the header
        have hslice : (Span.all raw).slice 8 raw.length = some ⟨8, raw.length - 8⟩ :=
          Span.slice_eq (by omega) (Nat.le_refl _)
        have hrange : ∀ k, k + 4 ≤ 8 →
            Span.u32 raw ⟨8, raw.length - 8⟩ k = some (u32At raw (8 + k)) :=
          fun k hk => if_pos (show k + 4 ≤ raw.length - 8 by omega)
        simp only [if_neg hneed, hslice, hrange 0 (by omega), hrange 4 (by omega), Nat.add_zero,
          Nat.reduceAdd, Option.bind_some,
          husize _ (show (u32At raw 12).toNat + (u32At raw 8).toNat < 2 ^ 64 by omega)]
        by_cases hrange : netvscRecvBufSize < (u32At raw 12).toNat + (u32At raw 8).toNat ∨
            (u32At raw 8).toNat = 0
        · rw [if_pos hrange, if_pos (.inr (.inr (.inr hrange.symm)))]
          rfl
        · have hgood : ¬ BadRange raw := by
            unfold BadRange
            omega
          have hinside : (u32At raw 12).toNat + min (u32At raw 8).toNat out.length ≤
              netvscRecvBufSize := by omega
          rw [if_neg hrange, if_neg hgood, readRecvBuf, if_pos hinside]
          rfl

section

variable {recvBuf : ℕ → UInt8} {raw : List UInt8} (out : List UInt8)

theorem parseXferPageChecked_bad (hbad : BadRange raw) :
    parseXferPageChecked recvBuf raw out = some (0, out) := by
  rw [parseXferPageChecked_eq, if_pos hbad]

theorem parseXferPageChecked_good (hgood : ¬ BadRange raw) :
    parseXferPageChecked recvBuf raw out = some (min (u32At raw 8).toNat out.length,
      Memory.read recvBuf (u32At raw 12).toNat (min (u32At raw 8).toNat out.length) ++
        out.drop (min (u32At raw 8).toNat out.length)) := by
  rw [parseXferPageChecked_eq, if_neg hgood]

/-- The function of the dispatch loops is the part of `out` that was written. -/
theorem parseXferPagePacket_eq :
    ∃ n out', parseXferPageChecked recvBuf raw out = some (n, out') ∧
      parseXferPagePacket recvBuf raw out.length = out'.take n := by
  unfold parseXferPagePacket
  by_cases hbad : BadRange raw
  · refine ⟨_, _, parseXferPageChecked_bad out hbad, ?_⟩
    rw [List.take_zero]
    unfold BadRange at hbad
    by_cases hshort : raw.length < 8
    · rw [if_pos hshort]
    · rw [if_neg hshort]
      dsimp only
      by_cases hcnt : (u32At raw 4).toNat = 0 ∨ raw.length < 8 + (u32At raw 4).toNat * 8
      · rw [if_pos hcnt]
      · rw [if_neg hcnt, if_pos (by omega)]
  · refine ⟨_, _, parseXferPageChecked_good out hbad, ?_⟩
    unfold BadRange at hbad
    rw [if_neg (by omega), List.take_left' (Memory.length_read _ _ _)]
    dsimp only
    rw [if_neg (by omega), if_neg (by omega)]

end

/-- Nothing is copied for a packet without a range of the receive buffer; otherwise `out`
starts with the bytes of the range, as far as they fit, and its rest is as it was. -/
def XferPageExact (recvBuf : ℕ → UInt8) (raw out : List UInt8) : Prop :=
  ∃ n out', parseXferPageChecked recvBuf raw out = some (n, out') ∧
    (BadRange raw → n = 0 ∧ out' = out) ∧
    (¬ BadRange raw → n = min (u32At raw 8).toNat out.length ∧
      out'.take n = Memory.read recvBuf (u32At raw 12).toNat n ∧ out'.drop n = out.drop n)

/-- **Transfer-page ranges stay inside the receive buffer**, for every packet. -/
theorem xferPageExact (recvBuf : ℕ → UInt8) (raw out : List UInt8) :
    XferPageExact recvBuf raw out := by
  by_cases hbad : BadRange raw
  · exact ⟨0, out, parseXferPageChecked_bad out hbad, fun _ => ⟨rfl, rfl⟩, fun h => absurd hbad h⟩
  · have hlen := Memory.length_read recvBuf (u32At raw 12).toNat
      (min (u32At raw 8).toNat out.length)
    refine ⟨_, _, parseXferPageChecked_good out hbad, fun h => absurd h hbad, fun _ => ?_⟩
    exact ⟨rfl, List.take_left' hlen, List.drop_left' hlen⟩

/-- A range that is longer than `out`. -/
example : parseXferPageChecked (fun i => UInt8.ofNat i)
    (le32 0xcafe ++ le32 1 ++ le32 8 ++ le32 3) [9, 9, 9] = some (3, [3, 4, 5]) := by decide +kernel

end Netvsc
