/-
NVSP and RNDIS messages: constants, parsers and builders.

Messages are byte strings in the layout of the packed wire structs.  A parser that
would slice out of range is a panic, which `parseRndisResponse` returns as `none`.
-/
import Embclox.Bytes

open Bytes

namespace Nvsp

/-! ### Constants -/

inductive NvspVersion
  | v1 | v2 | v4 | v5 | v6 | v61
  deriving DecidableEq

def NvspVersion.asU32 : NvspVersion → UInt32
  | v1 => 0x00002
  | v2 => 0x30002
  | v4 => 0x40000
  | v5 => 0x50000
  | v6 => 0x60000
  | v61 => 0x60001

/-- Versions to try during negotiation, newest first. -/
def NvspVersion.negotiateOrder : List NvspVersion := [v61, v6, v5, v4, v2, v1]

inductive NvspMessageType
  | init | initComplete
  | sendNdisVersion
  | sendReceiveBuffer | sendReceiveBufferComplete
  | sendSendBuffer | sendSendBufferComplete
  | sendRndisPkt | sendRndisPktComplete
  | sendNdisConfig
  | subChannel
  deriving DecidableEq

def NvspMessageType.asU32 : NvspMessageType → UInt32
  | init => 1
  | initComplete => 2
  | sendNdisVersion => 100
  | sendReceiveBuffer => 101
  | sendReceiveBufferComplete => 102
  | sendSendBuffer => 104
  | sendSendBufferComplete => 105
  | sendRndisPkt => 107
  | sendRndisPktComplete => 108
  | sendNdisConfig => 125
  | subChannel => 133

def nvspStatSuccess : UInt32 := 1

inductive RndisMessageType
  | packet | init | initComplete | halt | query | queryComplete | set | setComplete
  | reset | resetComplete | indicate | keepAlive | keepAliveComplete
  deriving DecidableEq

def RndisMessageType.asU32 : RndisMessageType → UInt32
  | packet => 0x00000001
  | init => 0x00000002
  | initComplete => 0x80000002
  | halt => 0x00000003
  | query => 0x00000004
  | queryComplete => 0x80000004
  | set => 0x00000005
  | setComplete => 0x80000005
  | reset => 0x00000006
  | resetComplete => 0x80000006
  | indicate => 0x00000007
  | keepAlive => 0x00000008
  | keepAliveComplete => 0x80000008

def RndisMessageType.all : List RndisMessageType :=
  [packet, init, initComplete, halt, query, queryComplete, set, setComplete, reset, resetComplete,
    indicate, keepAlive, keepAliveComplete]

def RndisMessageType.fromU32 (v : UInt32) : Option RndisMessageType :=
  all.find? fun t => t.asU32 == v

theorem RndisMessageType.fromU32_asU32 (t : RndisMessageType) : fromU32 t.asU32 = some t := by
  cases t <;> decide

def rndisStatusSuccess : UInt32 := 0

inductive VmbusPacketType
  | dataInBand | dataUsingXferPages | dataUsingGpaDirect | completion
  deriving DecidableEq

def VmbusPacketType.fromU16 (v : UInt16) : Option VmbusPacketType :=
  if v = 6 then some dataInBand
  else if v = 7 then some dataUsingXferPages
  else if v = 9 then some dataUsingGpaDirect
  else if v = 11 then some completion
  else none

def oidGenMaximumFrameSize : UInt32 := 0x00010106
def oidGenCurrentPacketFilter : UInt32 := 0x0001010E
def oidEthPermanentAddress : UInt32 := 0x01010101
def oidEthCurrentAddress : UInt32 := 0x01010102

/-- `NdisPacketFilter::STANDARD`: directed, multicast and broadcast frames. -/
def ndisPacketFilterStandard : UInt32 := 0x1 ||| 0x2 ||| 0x8

def receiveBufferId : UInt16 := 0xcafe
def sendBufferId : UInt16 := 0

/-! ### Parsers -/

/-- Size of the NVSP message type and of the RNDIS type and length fields. -/
def nvspHeaderSize : ℕ := 4
def rndisHeaderSize : ℕ := 8

inductive NvspResponse
  | initComplete (negotiatedVersion maxMdlChainLen status : UInt32)
  | recvBufComplete (status numSections : UInt32)
  | sendBufComplete (status sectionSize : UInt32)
  | rndisPktComplete (status : UInt32)
  | subChannelComplete (status numSubchannels : UInt32)
  | unknown (msgType : UInt32)
  deriving DecidableEq

/-- `cast_ref` followed by reading fields: a struct of `size` bytes at the start of
`data`. -/
def castRef {α : Type} (size : ℕ) (data : List UInt8) (fields : List UInt8 → α) : Option α :=
  if data.length < size then none else some (fields data)

/-- `parse_nvsp_response`; the sections of a receive buffer are not kept. -/
def parseNvspResponse (data : List UInt8) : Option NvspResponse :=
  if data.length < nvspHeaderSize then none
  else
    let msgType := u32At data 0
    let body := data.drop nvspHeaderSize
    if msgType = NvspMessageType.initComplete.asU32 then
      castRef 12 body fun c => .initComplete (u32At c 0) (u32At c 4) (u32At c 8)
    else if msgType = NvspMessageType.sendReceiveBufferComplete.asU32 then
      castRef 24 body fun c => .recvBufComplete (u32At c 0) (u32At c 4)
    else if msgType = NvspMessageType.sendSendBufferComplete.asU32 then
      castRef 8 body fun c => .sendBufComplete (u32At c 0) (u32At c 4)
    else if msgType = NvspMessageType.sendRndisPktComplete.asU32 then
      castRef 4 body fun c => .rndisPktComplete (u32At c 0)
    else if msgType = NvspMessageType.subChannel.asU32 then
      castRef 8 body fun c => .subChannelComplete (u32At c 0) (u32At c 4)
    else some (.unknown msgType)

inductive RndisResponse
  | initComplete (reqId status majorVer minorVer maxPktPerMsg maxXferSize
      pktAlignmentFactor : UInt32)
  | queryComplete (reqId status : UInt32) (info : List UInt8)
  | setComplete (reqId status : UInt32)
  | keepAlive (reqId : UInt32)
  | keepAliveComplete (reqId status : UInt32)
  | indicate (status : UInt32) (statusBuf : List UInt8)
  | packet (dataOffset dataLen : UInt32) (raw : List UInt8)
  | unknown (msgType : UInt32)
  deriving DecidableEq

/-- The part of `body` that a length and an offset field describe, empty when it
does not lie inside. -/
def infoSlice (body : List UInt8) (len offset : ℕ) : List UInt8 :=
  if 0 < len ∧ offset + len ≤ body.length then (body.drop offset).take len else []

/-- The fields of an RNDIS message with this type and body. -/
def parseRndisBody (msgType : UInt32) (data body : List UInt8) : Option RndisResponse :=
  match RndisMessageType.fromU32 msgType with
  | some .initComplete => castRef 44 body fun c =>
      .initComplete (u32At c 0) (u32At c 4) (u32At c 8) (u32At c 12) (u32At c 24) (u32At c 28)
        (u32At c 32)
  | some .queryComplete => castRef 16 body fun c =>
      .queryComplete (u32At c 0) (u32At c 4)
        (infoSlice body (u32At c 8).toNat (u32At c 12).toNat)
  | some .setComplete => castRef 8 body fun c => .setComplete (u32At c 0) (u32At c 4)
  | some .keepAliveComplete => castRef 8 body fun c => .keepAliveComplete (u32At c 0) (u32At c 4)
  | some .keepAlive => castRef 4 body fun c => .keepAlive (u32At c 0)
  | some .indicate => castRef 12 body fun c =>
      .indicate (u32At c 0) (infoSlice body (u32At c 4).toNat (u32At c 8).toNat)
  | some .packet => castRef 36 body fun c => .packet (u32At c 0) (u32At c 4) data
  | _ => some (.unknown msgType)

/-- `parse_rndis_response`; the outer `none` is the panic of the slice
`data[8..min(len, msg_len)]` when the length field is below 8. -/
def parseRndisResponse (data : List UInt8) : Option (Option RndisResponse) :=
  if data.length < rndisHeaderSize then some none
  else
    let msgType := u32At data 0
    let msgLen := (u32At data 4).toNat
    let stop := min data.length msgLen
    if stop < rndisHeaderSize then none
    else some (parseRndisBody msgType data ((data.take stop).drop rndisHeaderSize))

/-! ### Builders -/

def nvspMessageSize : ℕ := 40

/-- An `nvsp_message`: the type, the fields of its body and zeros up to 32 bytes. -/
def nvspMessage (msgType : NvspMessageType) (body : List UInt8) : List UInt8 :=
  le32 msgType.asU32 ++ (body ++ List.replicate (28 - body.length) 0)

/-- `nvsp_message_padded`: zeros up to the 40 bytes the host requires. -/
def nvspMessagePadded (msg : List UInt8) : List UInt8 :=
  msg ++ List.replicate (nvspMessageSize - msg.length) 0

def buildNvspInit (version : UInt32) : List UInt8 :=
  nvspMessage .init (le32 version ++ le32 version)

def buildNvspSendNdisVersion (major minor : UInt32) : List UInt8 :=
  nvspMessage .sendNdisVersion (le32 major ++ le32 minor)

def buildNvspSendNdisConfig (mtu : UInt32) (capabilities : UInt64) : List UInt8 :=
  nvspMessage .sendNdisConfig (le32 mtu ++ le32 0 ++ le64 capabilities)

/-- The operation is `NVSP_SUBCHANNEL_ALLOCATE`. -/
def buildNvspSubchannelRequest (numSubchannels : UInt32) : List UInt8 :=
  nvspMessage .subChannel (le32 1 ++ le32 numSubchannels)

def buildNvspSendRecvBuf (gpadlHandle : UInt32) (id : UInt16) : List UInt8 :=
  nvspMessage .sendReceiveBuffer (le32 gpadlHandle ++ le16 id)

def buildNvspSendSendBuf (gpadlHandle : UInt32) (id : UInt16) : List UInt8 :=
  nvspMessage .sendSendBuffer (le32 gpadlHandle ++ le16 id)

/-- Channel type 0 is data, 1 is control. -/
def buildNvspSendRndisPkt (channelType sectionIndex sectionSize : UInt32) : List UInt8 :=
  nvspMessage .sendRndisPkt (le32 channelType ++ (le32 sectionIndex ++ le32 sectionSize))

/-- `build_rndis_init`, cut to its message length. -/
def buildRndisInit (reqId maxXferSize : UInt32) : List UInt8 :=
  le32 RndisMessageType.init.asU32 ++ le32 24 ++ le32 reqId ++ le32 1 ++ le32 0 ++
    le32 maxXferSize

/-- The common layout of QUERY and SET: the information buffer follows the fixed
fields. -/
def buildRndisRequest (msgType : RndisMessageType) (reqId oid : UInt32) (infoBuf : List UInt8) :
    List UInt8 :=
  le32 msgType.asU32 ++ le32 (UInt32.ofNat (rndisHeaderSize + 20 + infoBuf.length)) ++
    le32 reqId ++ le32 oid ++ le32 (UInt32.ofNat infoBuf.length) ++ le32 20 ++ le32 0 ++ infoBuf

def buildRndisQuery (reqId oid : UInt32) (infoBuf : List UInt8) : List UInt8 :=
  buildRndisRequest .query reqId oid infoBuf

def buildRndisSet (reqId oid : UInt32) (infoBuf : List UInt8) : List UInt8 :=
  buildRndisRequest .set reqId oid infoBuf

def buildRndisKeepaliveCmplt (requestId : UInt32) : List UInt8 :=
  le32 RndisMessageType.keepAliveComplete.asU32 ++ le32 16 ++ le32 requestId ++ le32 0

end Nvsp
