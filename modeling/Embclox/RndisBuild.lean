/-
The builders of RNDIS requests.

`build_rndis_query` and `build_rndis_set` fill in an `RNDIS_MESSAGE`, whose body is a
union larger than the request, copy its first 28 bytes into the caller's buffer and
append the information buffer.

* `buildRequest_eq` — the buffer then holds the message of `Nvsp`, followed by
  the bytes that were there before;
* `buildRndis_encodes` — the message decodes to what was asked for; the two lengths
  keep their low 32 bits;
* `messageLength_cut` — from 4 GiB on they are not the lengths of the message.
-/
import Embclox.Nvsp

open Bytes Nvsp

namespace RndisBuild

/-! ### Layout -/

/-- The sizes of the members of `RNDIS_MESSAGE_CONTAINER`, in the order of the header. -/
def containerMembers : List ℕ :=
  [36, 16, 4, 20, 20, 20, 4, 4, 12, 44, 16, 8, 16, 8, 8, 8, 8, 16, 28, 12, 12, 8, 8, 8]

/-- A union is as large as its largest member. -/
def containerSize : ℕ := containerMembers.foldl max 0

/-- `RNDIS_MESSAGE` -/
structure RndisMessage where
  ndisMessageType : UInt32
  messageLength : UInt32
  message : List UInt8
  size : message.length = containerSize

/-- `RNDIS_QUERY_REQUEST`, which has the fields of `RNDIS_SET_REQUEST`. -/
structure RndisRequest where
  requestId : UInt32
  oid : UInt32
  informationBufferLength : UInt32
  informationBufferOffset : UInt32
  deviceVcHandle : UInt32

/-- `size_of::<rndis_query_request>()` -/
def queryReqSize : ℕ := 5 * 4

/-- The literal in `build_rndis_set`. -/
def setReqFixedSize : ℕ := 20

def RndisRequest.bytes (r : RndisRequest) : List UInt8 :=
  [r.requestId, r.oid, r.informationBufferLength, r.informationBufferOffset,
    r.deviceVcHandle].flatMap le32

theorem RndisRequest.length_bytes (r : RndisRequest) : r.bytes.length = 20 := by
  simp [bytes]

/-- A message of zeros. -/
def RndisMessage.default : RndisMessage :=
  ⟨0, 0, List.replicate containerSize 0, List.length_replicate⟩

/-- Set the fields of the member `QueryRequest` or `SetRequest` of the union. -/
def RndisMessage.setRequest (msg : RndisMessage) (r : RndisRequest) : RndisMessage :=
  { msg with
    message := r.bytes ++ msg.message.drop r.bytes.length
    size := by
      rw [List.length_append, List.length_drop, msg.size, r.length_bytes]
      decide }

/-- `rndis_message_as_bytes` -/
def RndisMessage.asBytes (msg : RndisMessage) : List UInt8 :=
  le32 msg.ndisMessageType ++ (le32 msg.messageLength ++ msg.message)

/-! ### The builders -/

/-- `buf[off..off + src.len()].copy_from_slice(src)`; `none` is a range out of bounds. -/
def copyFromSlice (buf : List UInt8) (off : ℕ) (src : List UInt8) : Option (List UInt8) :=
  if off + src.length ≤ buf.length then
    some (buf.take off ++ (src ++ buf.drop (off + src.length)))
  else none

/-- What both builders do: the number of bytes written and the buffer, or `none` for a
failed assertion. -/
def buildRequest (msgType : RndisMessageType) (reqSize : ℕ) (reqId oid : UInt32)
    (infoBuf buf : List UInt8) : Option (ℕ × List UInt8) :=
  let msgLen := rndisHeaderSize + reqSize + infoBuf.length
  if msgLen ≤ buf.length then do
    let msg := { RndisMessage.default with
      ndisMessageType := msgType.asU32
      messageLength := UInt32.ofNat msgLen }
    -- the handle keeps its default
    let msg := msg.setRequest
      ⟨reqId, oid, UInt32.ofNat infoBuf.length, UInt32.ofNat reqSize, 0⟩
    let structBytes := msg.asBytes
    let copyLen := min (rndisHeaderSize + reqSize) structBytes.length
    let buf ← copyFromSlice buf 0 (structBytes.take copyLen)
    let buf ← if infoBuf.isEmpty then some buf else copyFromSlice buf copyLen infoBuf
    some (msgLen, buf)
  else none

def buildRndisQuery (reqId oid : UInt32) (infoBuf buf : List UInt8) : Option (ℕ × List UInt8) :=
  buildRequest .query queryReqSize reqId oid infoBuf buf

def buildRndisSet (reqId oid : UInt32) (infoBuf buf : List UInt8) : Option (ℕ × List UInt8) :=
  buildRequest .set setReqFixedSize reqId oid infoBuf buf

/-! ### What the receiver decodes -/

/-- The fields of a request at their offsets in `RNDIS_MESSAGE`. -/
structure Decoded where
  ndisMessageType : UInt32
  messageLength : UInt32
  request : RndisRequest

def decode (bs : List UInt8) : Decoded where
  ndisMessageType := u32At bs 0
  messageLength := u32At bs 4
  request := {
    requestId := u32At bs 8
    oid := u32At bs 12
    informationBufferLength := u32At bs 16
    informationBufferOffset := u32At bs 20
    deviceVcHandle := u32At bs 24 }

/-- The information buffer that a decoded request points to. -/
def Decoded.info (d : Decoded) (bs : List UInt8) : List UInt8 :=
  (bs.drop (8 + d.request.informationBufferOffset.toNat)).take
    d.request.informationBufferLength.toNat

/-- What is on the wire for every information buffer: the lengths are cut to 32 bits. -/
structure Written (msgType : RndisMessageType) (reqId oid : UInt32)
    (infoBuf buf out : List UInt8) : Prop where
  fields : decode out = ⟨msgType.asU32, UInt32.ofNat (28 + infoBuf.length),
    ⟨reqId, oid, UInt32.ofNat infoBuf.length, 20, 0⟩⟩
  info : (out.drop 28).take infoBuf.length = infoBuf
  /-- The rest of the buffer is as it was. -/
  rest : out.length = buf.length ∧ out.drop (28 + infoBuf.length) = buf.drop (28 + infoBuf.length)

/-- The message decodes to the request, and its information buffer ends where the
message ends. -/
structure Encodes (msgType : RndisMessageType) (reqId oid : UInt32)
    (infoBuf out : List UInt8) : Prop where
  ndisMessageType : (decode out).ndisMessageType = msgType.asU32
  messageLength : (decode out).messageLength.toNat = 28 + infoBuf.length
  requestId : (decode out).request.requestId = reqId
  oid : (decode out).request.oid = oid
  deviceVcHandle : (decode out).request.deviceVcHandle = 0
  informationBufferLength : (decode out).request.informationBufferLength.toNat = infoBuf.length
  info : (decode out).info out = infoBuf
  infoEnd : 8 + (decode out).request.informationBufferOffset.toNat +
    (decode out).request.informationBufferLength.toNat = (decode out).messageLength.toNat

/-! ### The buffer after the call -/

section

variable {msgType : RndisMessageType} {reqId oid : UInt32} {infoBuf buf : List UInt8}

theorem copyFromSlice_zero {src : List UInt8} (h : src.length ≤ buf.length) :
    copyFromSlice buf 0 src = some (src ++ buf.drop src.length) := by
  rw [copyFromSlice, if_pos (by omega), List.take_zero, List.nil_append, Nat.zero_add]

/-- Copying right behind what is there. -/
theorem copyFromSlice_append (a : List UInt8) {rest src : List UInt8}
    (h : src.length ≤ rest.length) :
    copyFromSlice (a ++ rest) a.length src = some (a ++ (src ++ rest.drop src.length)) := by
  rw [copyFromSlice, if_pos (by rw [List.length_append]; omega), List.take_left,
    ← List.drop_drop, List.drop_left]

variable (msgType reqId oid infoBuf)

/-- The fixed part of the message: the struct without what the union has beyond the
request. -/
def fixedPart (len : ℕ) : List UInt8 :=
  [msgType.asU32, UInt32.ofNat (28 + len), reqId, oid, UInt32.ofNat len, 20, 0].flatMap le32

theorem length_fixedPart (len : ℕ) : (fixedPart msgType reqId oid len).length = 28 := by
  simp [fixedPart]

/-- The builders of `Nvsp` put the same bytes together. -/
theorem nvsp_buildRndisRequest_eq : Nvsp.buildRndisRequest msgType reqId oid infoBuf =
    fixedPart msgType reqId oid infoBuf.length ++ infoBuf := by
  simp only [Nvsp.buildRndisRequest, fixedPart, rndisHeaderSize, List.flatMap_cons,
    List.flatMap_nil, List.append_assoc, List.nil_append]

/-- The struct, cut after the request, is the fixed part. -/
theorem take_asBytes (msg : RndisMessage) (r : RndisRequest) :
    (msg.setRequest r).asBytes.take 28 =
      le32 msg.ndisMessageType ++ (le32 msg.messageLength ++ r.bytes) := by
  have hsplit : (msg.setRequest r).asBytes =
      (le32 msg.ndisMessageType ++ (le32 msg.messageLength ++ r.bytes)) ++
        msg.message.drop r.bytes.length := by
    simp only [RndisMessage.asBytes, RndisMessage.setRequest, List.append_assoc]
  rw [hsplit, List.take_left']
  simp only [List.length_append, length_le32, r.length_bytes]

theorem length_asBytes (msg : RndisMessage) : msg.asBytes.length = 52 := by
  simp only [RndisMessage.asBytes, List.length_append, length_le32, msg.size]
  decide

/-- The buffer holds the message, and then what it held before. -/
theorem buildRequest_eq (h : 28 + infoBuf.length ≤ buf.length) :
    buildRequest msgType 20 reqId oid infoBuf buf = some (28 + infoBuf.length,
      Nvsp.buildRndisRequest msgType reqId oid infoBuf ++ buf.drop (28 + infoBuf.length)) := by
  have hfixed := length_fixedPart msgType reqId oid infoBuf.length
  unfold buildRequest
  dsimp only [rndisHeaderSize]
  rw [if_pos h, length_asBytes, show min (8 + 20) 52 = 28 from rfl, take_asBytes]
  -- the struct is copied
  show (copyFromSlice buf 0 (fixedPart msgType reqId oid infoBuf.length) >>= _) = _
  rw [copyFromSlice_zero (by omega), hfixed, nvsp_buildRndisRequest_eq]
  cases infoBuf with
  | nil => simp
  | cons b bs =>
    have hroom : (b :: bs).length ≤ (buf.drop 28).length := by
      rw [List.length_drop]
      omega
    have happend := copyFromSlice_append (fixedPart msgType reqId oid (b :: bs).length) hroom
    rw [hfixed, List.drop_drop] at happend
    show (copyFromSlice (fixedPart msgType reqId oid (b :: bs).length ++ buf.drop 28) 28 (b :: bs)
      >>= _) = _
    rw [happend, List.append_assoc]
    rfl

/-! ### The message -/

theorem decode_fixedPart (len : ℕ) (rest : List UInt8) :
    decode (fixedPart msgType reqId oid len ++ rest) = ⟨msgType.asU32, UInt32.ofNat (28 + len),
      ⟨reqId, oid, UInt32.ofNat len, 20, 0⟩⟩ := by
  -- the word at offset `4 * i` is the `i`-th of the list
  have hword : ∀ i x, [msgType.asU32, UInt32.ofNat (28 + len), reqId, oid, UInt32.ofNat len, 20,
      0][i]? = some x → u32At (fixedPart msgType reqId oid len ++ rest) (4 * i) = x :=
    fun i x h => u32At_flatMap_le32 h rest
  rw [decode, hword 0 _ rfl, hword 1 _ rfl, hword 2 _ rfl, hword 3 _ rfl, hword 4 _ rfl,
    hword 5 _ rfl, hword 6 _ rfl]

theorem written_buildRndisRequest (h : 28 + infoBuf.length ≤ buf.length) :
    Written msgType reqId oid infoBuf buf
      (Nvsp.buildRndisRequest msgType reqId oid infoBuf ++ buf.drop (28 + infoBuf.length)) := by
  have hfixed := length_fixedPart msgType reqId oid infoBuf.length
  rw [nvsp_buildRndisRequest_eq, List.append_assoc]
  refine ⟨decode_fixedPart _ _ _ _ _, ?_, ?_, ?_⟩
  · rw [List.drop_left' hfixed, List.take_left]
  · simp only [List.length_append, List.length_drop, hfixed]
    omega
  · rw [← List.append_assoc, List.drop_left' (by rw [List.length_append, hfixed])]

variable {msgType reqId oid infoBuf}

/-- A message of less than 4 GiB has its lengths in its fields. -/
theorem Written.encodes {out : List UInt8} (hw : Written msgType reqId oid infoBuf buf out)
    (hlen : 28 + infoBuf.length < 2 ^ 32) : Encodes msgType reqId oid infoBuf out := by
  have hmsg : (UInt32.ofNat (28 + infoBuf.length)).toNat = 28 + infoBuf.length := by
    rw [UInt32.toNat_ofNat', Nat.mod_eq_of_lt hlen]
  have hinfo : (UInt32.ofNat infoBuf.length).toNat = infoBuf.length := by
    rw [UInt32.toNat_ofNat', Nat.mod_eq_of_lt (by omega)]
  constructor
  · rw [hw.fields]
  · rw [hw.fields]
    exact hmsg
  · rw [hw.fields]
  · rw [hw.fields]
  · rw [hw.fields]
  · rw [hw.fields]
    exact hinfo
  · simp only [Decoded.info, hw.fields, hinfo]
    exact hw.info
  · simp only [hw.fields, hmsg, hinfo]
    rfl

end

/-- **The builders encode the request.**  Into every buffer with room for it they write
the message for every request id, OID and information buffer and return its length;
the two length fields hold the lengths modulo 2 ^ 32, and so the message decodes to
the request if it is shorter than 4 GiB. -/
theorem buildRndis_encodes (reqId oid : UInt32) (infoBuf buf : List UInt8)
    (h : 28 + infoBuf.length ≤ buf.length) :
    (∃ out, buildRndisQuery reqId oid infoBuf buf = some (28 + infoBuf.length, out) ∧
      Written .query reqId oid infoBuf buf out ∧
      (28 + infoBuf.length < 2 ^ 32 → Encodes .query reqId oid infoBuf out)) ∧
    ∃ out, buildRndisSet reqId oid infoBuf buf = some (28 + infoBuf.length, out) ∧
      Written .set reqId oid infoBuf buf out ∧
      (28 + infoBuf.length < 2 ^ 32 → Encodes .set reqId oid infoBuf out) := by
  have hquery := written_buildRndisRequest .query reqId oid infoBuf h
  have hset := written_buildRndisRequest .set reqId oid infoBuf h
  exact ⟨⟨_, buildRequest_eq .query reqId oid infoBuf h, hquery, hquery.encodes⟩,
    ⟨_, buildRequest_eq .set reqId oid infoBuf h, hset, hset.encodes⟩⟩

/-- The request of `set_packet_filter`: four bytes of information. -/
theorem buildRndis_encodes_filter : ∃ out,
    buildRndisSet 3 oidGenCurrentPacketFilter (le32 ndisPacketFilterStandard)
      (List.replicate 64 0) = some (32, out) ∧
    Encodes .set 3 oidGenCurrentPacketFilter (le32 ndisPacketFilterStandard) out := by
  obtain ⟨-, out, hout, -, henc⟩ := buildRndis_encodes 3 oidGenCurrentPacketFilter
    (le32 ndisPacketFilterStandard) (List.replicate 64 0) (by decide)
  exact ⟨out, hout, henc (by decide)⟩

/-- An information buffer of 4 GiB less 28 bytes: the message length on the wire is 0. -/
theorem messageLength_cut : ∃ infoBuf buf out : List UInt8,
    buildRndisQuery 0 0 infoBuf buf = some (28 + infoBuf.length, out) ∧
      (decode out).messageLength.toNat ≠ 28 + infoBuf.length := by
  have hlen : (List.replicate (2 ^ 32 - 28) (0 : UInt8)).length = 2 ^ 32 - 28 :=
    List.length_replicate
  have hroom : 28 + (List.replicate (2 ^ 32 - 28) (0 : UInt8)).length ≤
      (List.replicate (2 ^ 32) (0 : UInt8)).length := by
    rw [hlen, List.length_replicate]
    decide
  refine ⟨_, _, _, buildRequest_eq .query 0 0 _ hroom, ?_⟩
  rw [(written_buildRndisRequest .query 0 0 _ hroom).fields, hlen]
  decide

end RndisBuild
