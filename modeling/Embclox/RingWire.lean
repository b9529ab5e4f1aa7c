/-
The packets on the ring, read back.

The packet that a send has written starts at the old write index.  Here a reader looks
at it there: with `recv_packet_raw`, and through the structures VMDATA_GPA_DIRECT and
GPA_RANGE of the wire format.

* `atPacket r call` — the ring after the send, with its reader at the packet;
* `header_atPacket`, `body_atPacket`, `extra_atPacket` — what lies there;
* `readable_iff` — the descriptor is right, and the reader gets the packet, exactly if
  the length in units of 8 bytes fits into 16 bits;
* `long_packet_corrupt` — a packet of 2^19 bytes is corrupt to its reader;
* `gpaDirect_iff` — no GPA-direct packet that is written matches the wire structures;
* `gpaDirect_mismatch` — its type is unknown, and offset and length are swapped.
-/
import Embclox.Nvsp
import Embclox.RingSend

open Bytes Circular Effect
open Nvsp (VmbusPacketType)

namespace Ring

/-! ### The packet where it was written -/

/-- The ring after the send, with its reader at the packet. -/
def atPacket (r : RingHalf) (call : SendCall) : RingHalf :=
  { (call.run r).2 with readIndex := r.writeIndex }

section

variable {r : RingHalf} {call : SendCall}

/-- A reader that had read everything is at the packet. -/
theorem atPacket_of_empty (hread : r.readIndex.toNat < r.dataSize)
    (hempty : r.readIndex = r.writeIndex) : atPacket r call = (call.run r).2 := by
  have hwrite : r.writeIndex.toNat < r.dataSize := hempty ▸ hread
  have hrun := run_eq_of_sendAvail call (sendAvail_of_lt hread hwrite) (Nat.sub_le _ _)
  unfold atPacket
  rw [hrun]
  by_cases hfull : freeSpace r ≤ call.total
  · rw [if_pos hfull, ← hempty]
  · rw [if_neg hfull, ← hempty]
    rfl

theorem run_ok_iff (call : SendCall) (hread : r.readIndex.toNat < r.dataSize)
    (hwrite : r.writeIndex.toNat < r.dataSize) :
    (call.run r).1 = .ok () ↔ ¬ freeSpace r ≤ call.total := by
  rw [run_eq_of_sendAvail call (sendAvail_of_lt hread hwrite) (Nat.sub_le _ _)]
  by_cases hfull : freeSpace r ≤ call.total
  · rw [if_pos hfull]
    simp [hfull]
  · rw [if_neg hfull]
    simp [hfull]

/-- The ring is the old one with the bytes of the packet written from its write index
on. -/
theorem atPacket_eq (hread : r.readIndex.toNat < r.dataSize)
    (hwrite : r.writeIndex.toNat < r.dataSize) (hok : (call.run r).1 = .ok ()) :
    atPacket r call = { writeRun r (call.bytes r) with readIndex := r.writeIndex } ∧
      (call.bytes r).length < r.dataSize := by
  have hroom := (run_ok_iff call hread hwrite).mp hok
  have hfree : freeSpace r ≤ r.dataSize := Nat.sub_le _ _
  have hrun := run_eq_of_sendAvail call (sendAvail_of_lt hread hwrite) hfree
  rw [if_neg hroom] at hrun
  refine ⟨?_, ?_⟩
  · unfold atPacket
    rw [hrun]
  · rw [call.length_bytes]
    omega

theorem dataSize_atPacket (hread : r.readIndex.toNat < r.dataSize)
    (hwrite : r.writeIndex.toNat < r.dataSize) (hok : (call.run r).1 = .ok ()) :
    (atPacket r call).dataSize = r.dataSize := by
  rw [(atPacket_eq hread hwrite hok).1]
  rfl

theorem readIndex_atPacket_lt (hread : r.readIndex.toNat < r.dataSize)
    (hwrite : r.writeIndex.toNat < r.dataSize) (hok : (call.run r).1 = .ok ()) :
    (atPacket r call).readIndex.toNat < (atPacket r call).dataSize := by
  rw [dataSize_atPacket hread hwrite hok]
  exact hwrite

/-- A part of the bytes that were written. -/
theorem window_atPacket (hread : r.readIndex.toNat < r.dataSize)
    (hwrite : r.writeIndex.toNat < r.dataSize) (hok : (call.run r).1 = .ok ())
    {xs ys zs : List UInt8} (hbytes : call.bytes r = xs ++ (ys ++ zs)) :
    window (atPacket r call).dataSize (atPacket r call).data
      ((atPacket r call).readIndex.toNat + xs.length) ys.length = ys := by
  obtain ⟨heq, hlen⟩ := atPacket_eq hread hwrite hok
  rw [hbytes] at heq hlen
  rw [heq]
  exact window_store_mid (Nat.le_of_lt hlen)

theorem SendCall.bytes_eq (call : SendCall) (r : RingHalf) :
    ∃ trailer, call.bytes r = call.desc.toBytes ++ (call.body ++ trailer) :=
  ⟨_, List.append_assoc _ _ _⟩

/-- The descriptor of the packet. -/
theorem header_atPacket (hread : r.readIndex.toNat < r.dataSize)
    (hwrite : r.writeIndex.toNat < r.dataSize) (hok : (call.run r).1 = .ok ()) :
    header (atPacket r call) = call.desc := by
  obtain ⟨trailer, hbytes⟩ := call.bytes_eq r
  rw [← List.nil_append (call.desc.toBytes ++ _)] at hbytes
  have hwin := window_atPacket hread hwrite hok hbytes
  rw [List.length_nil, Nat.add_zero, VmPacketDescriptor.length_toBytes] at hwin
  rw [header, hwin, VmPacketDescriptor.ofBytes_toBytes]

/-- The first bytes behind the descriptor. -/
theorem body_atPacket (hread : r.readIndex.toNat < r.dataSize)
    (hwrite : r.writeIndex.toNat < r.dataSize) (hok : (call.run r).1 = .ok ()) {n : ℕ}
    (hn : n ≤ call.body.length) :
    window (atPacket r call).dataSize (atPacket r call).data
      ((atPacket r call).readIndex.toNat + 16) n = call.body.take n := by
  obtain ⟨trailer, hbytes⟩ := call.bytes_eq r
  rw [← List.take_append_drop n call.body, List.append_assoc] at hbytes
  have hwin := window_atPacket hread hwrite hok hbytes
  rwa [VmPacketDescriptor.length_toBytes, List.length_take, Nat.min_eq_left hn] at hwin

/-- What a reader at the packet has before it. -/
theorem outstanding_atPacket (hsize : r.dataSize ≤ 2 ^ 32) (hread : r.readIndex.toNat < r.dataSize)
    (hwrite : r.writeIndex.toNat < r.dataSize) (hok : (call.run r).1 = .ok ()) :
    outstanding (atPacket r call) = call.total := by
  obtain ⟨heq, hlen⟩ := atPacket_eq hread hwrite hok
  have hlt := Nat.mod_lt (r.writeIndex.toNat + (call.bytes r).length) r.size_pos
  rw [heq]
  unfold outstanding writeRun
  dsimp only
  rw [UInt32.toNat_ofNat', Nat.mod_eq_of_lt (Nat.lt_of_lt_of_le hlt hsize),
    add_mod_eq r.size_pos hlen.le, Nat.mod_eq_of_lt hwrite, ← call.length_bytes r]
  split <;> split <;> omega

/-! ### The length field -/

theorem SendCall.len8_eq (call : SendCall) :
    call.desc.len8.toNat = align8 call.unpadded / 8 % 2 ^ 16 := by
  have hfield : call.desc.len8 = UInt16.ofNat (align8 call.unpadded / 8) := by
    cases call <;> rfl
  rw [hfield, UInt16.toNat_ofNat']

theorem SendCall.offset8_eq (call : SendCall) :
    8 * call.desc.offset8.toNat = 16 + call.extraHeader.length := by
  cases call with
  | sendPacket payload transactionId flags => rfl
  | sendComp payload transactionId => rfl
  | sendPacketWithPageBuffer userData pagePfn pageOffset pageLen transactionId flags =>
    simp [desc, extraHeader]

theorem SendCall.length_body (call : SendCall) : 16 + call.body.length = align8 call.unpadded := by
  have h := call.length_packet
  rwa [packet, List.length_append, VmPacketDescriptor.length_toBytes] at h

/-- The descriptor of the packet is right, and its reader gets the packet. -/
structure Readable (call : SendCall) (r : RingHalf) : Prop where
  len : 8 * (header (atPacket r call)).len8.toNat = align8 call.unpadded
  offset : 8 * (header (atPacket r call)).offset8.toNat = 16 + call.extraHeader.length
  next : ∀ bufLen, (recvPacketRaw bufLen (atPacket r call)).1 =
    .ok (some (call.desc, call.body.take bufLen))

theorem readable_of_fits (hsize : r.dataSize ≤ 2 ^ 32) (hread : r.readIndex.toNat < r.dataSize)
    (hwrite : r.writeIndex.toNat < r.dataSize) (hok : (call.run r).1 = .ok ())
    (hfits : align8 call.unpadded < 2 ^ 19) : Readable call r := by
  have hheader := header_atPacket hread hwrite hok
  have hlen8 := call.len8_eq
  have hbody := call.length_body
  have hdvd : align8 call.unpadded % 8 = 0 := Nat.mul_mod_left _ _
  have hlen : 8 * call.desc.len8.toNat = align8 call.unpadded := by
    rw [hlen8, Nat.mod_eq_of_lt (by omega)]
    omega
  refine ⟨by rw [hheader, hlen], by rw [hheader, call.offset8_eq], fun bufLen => ?_⟩
  have hbytes := (atPacket_eq hread hwrite hok).2
  have htotal := call.length_bytes r
  have hin := readIndex_atPacket_lt hread hwrite hok
  have hout := outstanding_atPacket hsize hread hwrite hok
  have haccepts : accepts (atPacket r call) = true := by
    rw [accepts_eq (recvAvail_of_lt hin), hheader, hout]
    refine decide_eq_true ⟨by omega, ?_⟩
    unfold SendCall.total
    omega
  have hmin : min (call.desc.len8.toNat * 8 - 16) bufLen ≤ call.body.length := by omega
  rw [recvPacketRaw_of_accepts haccepts, hheader, deliver, hheader, copyFrom_eq]
  · dsimp only
    rw [body_atPacket hread hwrite hok hmin]
    have htake : call.body.take (min (call.desc.len8.toNat * 8 - 16) bufLen) =
        call.body.take bufLen := by
      rw [show call.desc.len8.toNat * 8 - 16 = call.body.length by omega, Nat.min_comm,
        ← List.take_take, List.take_length]
    rw [htake]
  · rw [dataSize_atPacket hread hwrite hok]
    unfold SendCall.total at htotal
    omega

/-- **The length field does not truncate exactly if** the padded packet is shorter than
2^19 bytes, in every state of the ring in which there is room for it. -/
theorem readable_iff (call : SendCall) (hsize : r.dataSize ≤ 2 ^ 32)
    (hread : r.readIndex.toNat < r.dataSize) (hwrite : r.writeIndex.toNat < r.dataSize) :
    ((call.run r).1 = .ok () → Readable call r) ↔
      freeSpace r ≤ call.total ∨ align8 call.unpadded < 2 ^ 19 := by
  have hroom := run_ok_iff call hread hwrite
  constructor
  · intro h
    by_cases hfull : freeSpace r ≤ call.total
    · exact .inl hfull
    · -- the field holds the length modulo 2^16 units
      have hok := hroom.mpr hfull
      have hlen := (h hok).len
      rw [header_atPacket hread hwrite hok, call.len8_eq] at hlen
      exact .inr (by omega)
  · rintro (hfull | hfits) hok
    · exact absurd hfull (hroom.mp hok)
    · exact readable_of_fits hsize hread hwrite hok hfits

/-- A length that cannot be right is corrupt to the reader. -/
theorem recvPacketRaw_corrupt (hin : r.readIndex.toNat < r.dataSize) (hout : outstanding r ≠ 0)
    (hshort : (header r).len8 = 0) (bufLen : ℕ) :
    (recvPacketRaw bufLen r).1 = .err .corrupt := by
  have havail := recvAvail_of_lt hin
  have haccepts : accepts r ≠ true := by
    rw [accepts_eq havail, hshort]
    exact fun h => absurd (of_decide_eq_true h).1 (by decide)
  rw [recvPacketRaw, recvWith_of_avail havail hout, if_neg haccepts]

end

/-- An empty ring with a data area of 1 MiB. -/
theorem exists_mebibyteRing : ∃ r, RingHalf.new 0 0 (fun _ => 0) (2 ^ 20 + 4096) = some r ∧
    r.dataSize ≤ 2 ^ 32 ∧ r.readIndex.toNat < r.dataSize ∧ r.writeIndex.toNat < r.dataSize ∧
    r.readIndex = r.writeIndex ∧ freeSpace r = 2 ^ 20 :=
  ⟨_, dif_pos (by decide), by decide, by decide, by decide, rfl, by decide⟩

/-- A packet with `n` bytes of payload. -/
def inbandOf (n : ℕ) : SendCall := .sendPacket (List.replicate n 0) 7 0

theorem unpadded_inbandOf (n : ℕ) : (inbandOf n).unpadded = 16 + n := by
  simp [inbandOf, SendCall.unpadded, SendCall.extraHeader, SendCall.payload]

theorem readable_iff_mebibyte : ∃ r, RingHalf.new 0 0 (fun _ => 0) (2 ^ 20 + 4096) = some r ∧
    r.dataSize ≤ 2 ^ 32 ∧ r.readIndex.toNat < r.dataSize ∧ r.writeIndex.toNat < r.dataSize ∧
    ((inbandOf 1514).run r).1 = .ok () ∧ Readable (inbandOf 1514) r := by
  obtain ⟨r, hnew, hsize, hread, hwrite, -, hfree⟩ := exists_mebibyteRing
  have hok : ((inbandOf 1514).run r).1 = .ok () := by
    rw [run_ok_iff _ hread hwrite, hfree, SendCall.total, unpadded_inbandOf]
    decide
  refine ⟨r, hnew, hsize, hread, hwrite, hok, (readable_iff _ hsize hread hwrite).mpr ?_ hok⟩
  rw [unpadded_inbandOf]
  exact .inr (by decide)

/-- **A packet of 2^19 bytes is accepted by the sender and corrupt to the reader**: its
length is written as 0. -/
theorem long_packet_corrupt : ∃ r, RingHalf.new 0 0 (fun _ => 0) (2 ^ 20 + 4096) = some r ∧
    ((inbandOf (2 ^ 19 - 16)).run r).1 = .ok () ∧
    align8 (inbandOf (2 ^ 19 - 16)).unpadded = 2 ^ 19 ∧
    (header ((inbandOf (2 ^ 19 - 16)).run r).2).len8 = 0 ∧
    ∀ bufLen, (recvPacketRaw bufLen ((inbandOf (2 ^ 19 - 16)).run r).2).1 = .err .corrupt := by
  obtain ⟨r, hnew, hsize, hread, hwrite, hempty, hfree⟩ := exists_mebibyteRing
  have hlen : align8 (inbandOf (2 ^ 19 - 16)).unpadded = 2 ^ 19 := by
    rw [unpadded_inbandOf]
    decide
  have hok : ((inbandOf (2 ^ 19 - 16)).run r).1 = .ok () := by
    rw [run_ok_iff _ hread hwrite, hfree, SendCall.total, hlen]
    decide
  have hlen8 : (inbandOf (2 ^ 19 - 16)).desc.len8 = 0 := by
    refine UInt16.toNat_inj.mp ?_
    rw [SendCall.len8_eq, hlen]
    decide
  have hheader := header_atPacket hread hwrite hok
  have hout := outstanding_atPacket hsize hread hwrite hok
  have hin := readIndex_atPacket_lt hread hwrite hok
  -- the ring was empty, so the reader is at the packet
  rw [atPacket_of_empty hread hempty] at hheader hout hin
  refine ⟨r, hnew, hok, hlen, by rw [hheader, hlen8], recvPacketRaw_corrupt hin ?_ ?_⟩
  · rw [hout, SendCall.total]
    omega
  · rw [hheader, hlen8]

/-! ### GPA-direct packets -/

/-- VMDATA_GPA_DIRECT with one GPA_RANGE of one page, and the data that its descriptor
points to. -/
structure GpaDirect where
  descriptor : VmPacketDescriptor
  reserved : UInt32
  rangeCount : UInt32
  byteCount : UInt32
  byteOffset : UInt32
  pfn : UInt64
  data : List UInt8

/-- The packet at the read index in the layout of the structure. -/
def decodeGpaDirect (r : RingHalf) : GpaDirect :=
  let bytes := window r.dataSize r.data r.readIndex.toNat 40
  { descriptor := header r
    reserved := u32At bytes 16
    rangeCount := u32At bytes 20
    byteCount := u32At bytes 24
    byteOffset := u32At bytes 28
    pfn := u64At bytes 32
    data := window r.dataSize r.data (r.readIndex.toNat + 8 * (header r).offset8.toNat)
      (8 * (header r).len8.toNat - 8 * (header r).offset8.toNat) }

/-- The arguments of `send_packet_with_page_buffer`. -/
structure PageBufferSend where
  userData : List UInt8
  pagePfn : UInt64
  pageOffset : UInt32
  pageLen : UInt32
  transactionId : UInt64
  flags : UInt16

def PageBufferSend.call (send : PageBufferSend) : SendCall :=
  .sendPacketWithPageBuffer send.userData send.pagePfn send.pageOffset send.pageLen
    send.transactionId send.flags

/-- What the structure ought to say. -/
structure MatchesWire (send : PageBufferSend) (packet : GpaDirect) : Prop where
  type : VmbusPacketType.fromU16 packet.descriptor.packetType = some .dataUsingGpaDirect
  rangeCount : packet.rangeCount = 1
  byteCount : packet.byteCount = send.pageLen
  byteOffset : packet.byteOffset = send.pageOffset
  pfn : packet.pfn = send.pagePfn
  data : ∃ pad < 8, packet.data = send.userData ++ List.replicate pad 0

/-- What it does say. -/
structure Written (send : PageBufferSend) (packet : GpaDirect) : Prop where
  type : packet.descriptor.packetType = 8
  rangeCount : packet.rangeCount = 1
  byteCount : packet.byteCount = send.pageOffset
  byteOffset : packet.byteOffset = send.pageLen
  pfn : packet.pfn = send.pagePfn
  data : align8 send.call.unpadded < 2 ^ 19 →
    ∃ pad < 8, packet.data = send.userData ++ List.replicate pad 0

section

variable {r : RingHalf} {send : PageBufferSend}

/-- The 40 bytes before the user data. -/
theorem extra_atPacket (hread : r.readIndex.toNat < r.dataSize)
    (hwrite : r.writeIndex.toNat < r.dataSize) (hok : (send.call.run r).1 = .ok ()) :
    window (atPacket r send.call).dataSize (atPacket r send.call).data
      (atPacket r send.call).readIndex.toNat 40 =
        send.call.desc.toBytes ++ (le32 0 ++ (le32 1 ++ (le32 send.pageOffset ++
          (le32 send.pageLen ++ le64 send.pagePfn)))) := by
  obtain ⟨trailer, hbytes⟩ := send.call.bytes_eq r
  have hextra : send.call.desc.toBytes ++ send.call.extraHeader =
      send.call.desc.toBytes ++ (le32 0 ++ (le32 1 ++ (le32 send.pageOffset ++
        (le32 send.pageLen ++ le64 send.pagePfn)))) := by
    simp only [PageBufferSend.call, SendCall.extraHeader, List.append_assoc]
  rw [SendCall.body, List.append_assoc, List.append_assoc, ← List.append_assoc _ _ (_ ++ _),
    hextra, ← List.nil_append (_ ++ (_ ++ _))] at hbytes
  have hwin := window_atPacket hread hwrite hok hbytes
  simpa using hwin

theorem length_extraHeader_call (send : PageBufferSend) :
    send.call.extraHeader.length = 24 := by
  simp [PageBufferSend.call, SendCall.extraHeader]

/-- The bytes from the data offset to the end of the packet, if the length is right. -/
theorem data_atPacket (hread : r.readIndex.toNat < r.dataSize)
    (hwrite : r.writeIndex.toNat < r.dataSize) (hok : (send.call.run r).1 = .ok ())
    (hfits : align8 send.call.unpadded < 2 ^ 19) :
    (decodeGpaDirect (atPacket r send.call)).data = send.userData ++
      List.replicate (align8 send.call.unpadded - send.call.unpadded) 0 := by
  obtain ⟨trailer, hbytes⟩ := send.call.bytes_eq r
  have hpayload : send.call.payload = send.userData := rfl
  rw [SendCall.body, hpayload, List.append_assoc, List.append_assoc,
    ← List.append_assoc _ _ (_ ++ _)] at hbytes
  rw [← List.append_assoc send.userData] at hbytes
  have hwin := window_atPacket hread hwrite hok hbytes
  have hlen8 := send.call.len8_eq
  have hoffset := send.call.offset8_eq
  have hextra := length_extraHeader_call send
  have hpad : (send.userData ++ List.replicate
      (align8 send.call.unpadded - send.call.unpadded) (0 : UInt8)).length =
        8 * send.call.desc.len8.toNat - 8 * send.call.desc.offset8.toNat := by
    have hle := le_align8 send.call.unpadded
    have hdvd : align8 send.call.unpadded % 8 = 0 := Nat.mul_mod_left _ _
    have hunpadded : send.call.unpadded = 40 + send.userData.length := by
      rw [SendCall.unpadded, hextra, hpayload]
    rw [Nat.mod_eq_of_lt (by omega)] at hlen8
    rw [List.length_append, List.length_replicate]
    omega
  rw [hpad, List.length_append, VmPacketDescriptor.length_toBytes] at hwin
  rw [decodeGpaDirect, header_atPacket hread hwrite hok]
  dsimp only
  rw [← hoffset] at hwin
  exact hwin

/-- **What a GPA-direct packet says on the wire.** -/
theorem written_of_ok (hread : r.readIndex.toNat < r.dataSize)
    (hwrite : r.writeIndex.toNat < r.dataSize) (hok : (send.call.run r).1 = .ok ()) :
    Written send (decodeGpaDirect (atPacket r send.call)) := by
  have hextra := extra_atPacket hread hwrite hok
  refine ⟨?_, ?_, ?_, ?_, ?_, fun hfits =>
    ⟨_, align8_sub_lt _, data_atPacket hread hwrite hok hfits⟩⟩
  · rw [decodeGpaDirect, header_atPacket hread hwrite hok]
    rfl
  all_goals rw [decodeGpaDirect, hextra]
  · rw [← List.append_assoc]
    exact u32At_le32 (by simp)
  · rw [← List.append_assoc, ← List.append_assoc]
    exact u32At_le32 (by simp)
  · rw [← List.append_assoc, ← List.append_assoc, ← List.append_assoc]
    exact u32At_le32 (by simp)
  · rw [← List.append_assoc, ← List.append_assoc, ← List.append_assoc, ← List.append_assoc,
      ← List.append_nil (le64 send.pagePfn)]
    exact u64At_le64 (by simp)

/-- **A GPA-direct packet matches the wire structures only if it is not written**, for
lack of room.  One that is written has an unknown type, and the offset and the length of
the page in each other's place. -/
theorem gpaDirect_iff (send : PageBufferSend) (hread : r.readIndex.toNat < r.dataSize)
    (hwrite : r.writeIndex.toNat < r.dataSize) :
    (((send.call.run r).1 = .ok () →
        MatchesWire send (decodeGpaDirect (atPacket r send.call))) ↔
      freeSpace r ≤ send.call.total) ∧
    ((send.call.run r).1 = .ok () → Written send (decodeGpaDirect (atPacket r send.call))) := by
  have hroom := run_ok_iff send.call hread hwrite
  refine ⟨⟨fun h => ?_, fun hfull hok => absurd hfull (hroom.mp hok)⟩,
    fun hok => written_of_ok hread hwrite hok⟩
  by_contra hfree
  have hok := hroom.mpr hfree
  have htype := (h hok).type
  rw [(written_of_ok hread hwrite hok).type] at htype
  exact absurd htype (by decide)

end

/-- An Ethernet frame of 1514 bytes at offset 64 of a page. -/
def frameSend : PageBufferSend := ⟨[1, 2, 3], 0x1234, 64, 1514, 7, 1⟩

theorem halfFull_in_range : halfFull.readIndex.toNat < halfFull.dataSize ∧
    halfFull.writeIndex.toNat < halfFull.dataSize := by
  decide

theorem frameSend_ok : (frameSend.call.run halfFull).1 = .ok () := by
  rw [run_ok_iff _ halfFull_in_range.1 halfFull_in_range.2]
  decide

theorem gpaDirect_iff_halfFull :
    halfFull.readIndex.toNat < halfFull.dataSize ∧ halfFull.writeIndex.toNat < halfFull.dataSize ∧
    (frameSend.call.run halfFull).1 = .ok () ∧
    Written frameSend (decodeGpaDirect (atPacket halfFull frameSend.call)) := by
  obtain ⟨hread, hwrite⟩ := halfFull_in_range
  exact ⟨hread, hwrite, frameSend_ok, (gpaDirect_iff frameSend hread hwrite).2 frameSend_ok⟩

/-- Its type is none of those that `from_u16` knows, and the host reads 64 bytes at
offset 1514. -/
theorem gpaDirect_mismatch :
    (frameSend.call.run halfFull).1 = .ok () ∧
    VmbusPacketType.fromU16
      (decodeGpaDirect (atPacket halfFull frameSend.call)).descriptor.packetType = none ∧
    (decodeGpaDirect (atPacket halfFull frameSend.call)).byteCount = 64 ∧
    (decodeGpaDirect (atPacket halfFull frameSend.call)).byteOffset = 1514 := by
  obtain ⟨hread, hwrite⟩ := halfFull_in_range
  have hwritten := written_of_ok hread hwrite frameSend_ok
  refine ⟨frameSend_ok, ?_, hwritten.byteCount, hwritten.byteOffset⟩
  rw [hwritten.type]
  decide

end Ring
