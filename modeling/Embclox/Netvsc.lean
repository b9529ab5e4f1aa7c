/-
The NetVSC device.

The device owns a VMBus channel, the receive buffer the host writes packets into,
and section 0 of the send buffer, which every outgoing message goes through.  Its
functions are programs over the device; the device also carries a history of what
happened on its rings and in section 0, which no function reads.
-/
import Embclox.Nvsp
import Embclox.Ring

open Bytes Effect Ring Nvsp

namespace Netvsc

def netvscRecvBufSize : ℕ := 2 * 1024 * 1024
def netvscSendBufSize : ℕ := 1024 * 1024
def netvscRingSize : ℕ := 256 * 1024

/-- Maximum Ethernet frame size buffered for the receive queue. -/
def rxFrameMax : ℕ := 1600

/-- The buffers that the dispatch loops and the init-time receives read into. -/
def rawBufLen : ℕ := 512
def respBufLen : ℕ := 256

/-- Size of `rndis_packet`. -/
def rndisPacketSize : ℕ := 36
def rndisPacketHdrSize : ℕ := rndisPacketSize + rndisHeaderSize

inductive HvError
  | notHyperV
  | noSynIC
  | noHypercall
  | hypercallFailed (status : UInt16)
  | hypercallRetryExhausted
  | versionRejected
  | timeout
  deriving DecidableEq

/-- The three writers of section 0. -/
inductive Sender
  | control | keepalive | transmit
  deriving DecidableEq

/-- What happens on the rings, in section 0 and at the interface. -/
inductive Event
  /-- The host put a packet on the receive ring; for a TX completion, `tag` says
  which of the packets sent before it completes, and `frame` is the Ethernet frame
  that a data packet carries. -/
  | put (p : Packet) (tag : Option ℕ) (frame : Option (List UInt8))
  /-- The guest removed the next packet from the receive ring. -/
  | removed (desc : VmPacketDescriptor)
  | sent (packetType : UInt16) (transactionId : UInt64) (payload : List UInt8)
  /-- The send ring reported `Full`. -/
  | ringFull
  | wrote (sender : Sender) (bytes : List UInt8)
  /-- `recv_with` handed this frame to its closure. -/
  | delivered (frame : List UInt8)
  deriving DecidableEq

structure NetvscDevice where
  send : RingHalf
  recv : RingHalf
  recvBuf : ℕ → UInt8
  sendBuf : ℕ → UInt8
  nvspVersion : UInt32
  mac : List UInt8
  mtu : UInt32
  nextRequestId : UInt32
  nextTxid : UInt64
  /-- The first `ctrl_resp_len` bytes of `ctrl_resp`. -/
  ctrlResp : List UInt8
  ctrlRespReady : Bool
  sendSectionFree : Bool
  /-- The frame in the single-slot receive queue. -/
  pendingRx : Option (List UInt8)
  log : List Event

abbrev Dev := Prog NetvscDevice HvError

/-! ### The channel -/

/-- A send on the channel; any ring error is `HypercallFailed(0xFFFF)`. -/
def channelSend (op : Prog RingHalf RingError Unit) (e : Event) : Dev Unit := fun d =>
  match op d.send with
  | (.ok _, r) => (.ok (), { d with send := r, log := d.log ++ [e] })
  | (.err _, r) =>
      (.err (.hypercallFailed 0xFFFF), { d with send := r, log := d.log ++ [.ringFull] })
  | (.panic, r) => (.panic, { d with send := r })

/-- `Channel::send`: a completion is requested. -/
def send (payload : List UInt8) (transactionId : UInt64) : Dev Unit :=
  channelSend (sendPacket payload transactionId vmbusDataPacketFlagCompletionRequested)
    (.sent vmPktDataInband transactionId payload)

/-- `Channel::send_raw`: no completion is requested. -/
def sendRaw (payload : List UInt8) (transactionId : UInt64) : Dev Unit :=
  channelSend (sendPacket payload transactionId 0) (.sent vmPktDataInband transactionId payload)

def sendCompletion (payload : List UInt8) (transactionId : UInt64) : Dev Unit :=
  channelSend (sendComp payload transactionId) (.sent vmPktComp transactionId payload)

/-- A receive on the channel. -/
def channelRecv (op : Prog RingHalf RingError (Option (VmPacketDescriptor × List UInt8))) :
    Dev (Option (VmPacketDescriptor × List UInt8)) := fun d =>
  match op d.recv with
  | (.ok (some x), r) => (.ok (some x), { d with recv := r, log := d.log ++ [.removed x.1] })
  | (.ok none, r) => (.ok none, { d with recv := r })
  | (.err _, r) => (.err (.hypercallFailed 0xFFFF), { d with recv := r })
  | (.panic, r) => (.panic, { d with recv := r })

def tryRecv (bufLen : ℕ) : Dev (Option (VmPacketDescriptor × List UInt8)) :=
  channelRecv (recvPacket bufLen)

def tryRecvRaw (bufLen : ℕ) : Dev (Option (VmPacketDescriptor × List UInt8)) :=
  channelRecv (recvPacketRaw bufLen)

/-! ### Section 0 of the send buffer -/

/-- Copy a message to the start of the send buffer. -/
def writeSection (sender : Sender) (bytes : List UInt8) : Dev Unit :=
  Prog.modify fun d => { d with
    sendBuf := Memory.write d.sendBuf 0 bytes
    log := d.log ++ [.wrote sender bytes] }

/-- The NVSP message that hands `len` bytes of section 0 to the host. -/
def sectionMessage (channelType : UInt32) (len : ℕ) : List UInt8 :=
  nvspMessagePadded (buildNvspSendRndisPkt channelType 0 (UInt32.ofNat len))

/-- `send_rndis_control` once the section is free. -/
def sendControl (msg : List UInt8) : Dev Unit := do
  if netvscSendBufSize < msg.length then Prog.panic
  else
    writeSection .control msg
    let d ← Prog.get
    Prog.modify fun d => { d with sendSectionFree := false, nextTxid := d.nextTxid + 1 }
    send (sectionMessage 1 msg.length) d.nextTxid

/-- `send_rndis_control_inner`: refuses while the section is in use, and does not
mark it as used. -/
def sendRndisControlInner (msg : List UInt8) : Dev Unit := do
  let d ← Prog.get
  if d.sendSectionFree then
    writeSection .keepalive msg
    send (sectionMessage 1 msg.length) 0
  else Prog.fail .timeout

/-- The RNDIS header of an outgoing frame: the `rndis_packet` fields are zero but
for the data offset and length and the per-packet-info offset. -/
def packetHeader (frameLen : ℕ) : List UInt8 :=
  le32 RndisMessageType.packet.asU32 ++ le32 (UInt32.ofNat (rndisPacketHdrSize + frameLen)) ++
    le32 (UInt32.ofNat rndisPacketSize) ++ le32 (UInt32.ofNat frameLen) ++ le32 0 ++ le32 0 ++
    le32 0 ++ le32 (UInt32.ofNat rndisPacketSize) ++ le32 0 ++ le32 0 ++ le32 0

/-- `transmit_with` once the section is free: the closure fills the frame in
place. -/
def transmitFrame (frameLen : ℕ) (f : List UInt8 → List UInt8) : Dev Unit := do
  let d ← Prog.get
  let payload := Memory.read d.sendBuf rndisPacketHdrSize frameLen
  let filled := (f payload).take frameLen ++ payload.drop (f payload).length
  writeSection .transmit (packetHeader frameLen ++ filled)
  Prog.modify fun d => { d with sendSectionFree := false, nextTxid := d.nextTxid + 1 }
  send (sectionMessage 0 (rndisPacketHdrSize + frameLen)) d.nextTxid

/-! ### Received packets -/

/-- `parse_xfer_page_packet` into a buffer of `outLen` bytes: the bytes of the first
range, as far as they fit; nothing if the packet is malformed. -/
def parseXferPagePacket (recvBuf : ℕ → UInt8) (raw : List UInt8) (outLen : ℕ) : List UInt8 :=
  if raw.length < 8 then []
  else
    let rangeCnt := (u32At raw 4).toNat
    if rangeCnt = 0 ∨ raw.length < 8 + rangeCnt * 8 then []
    else
      let byteCount := (u32At raw 8).toNat
      let byteOffset := (u32At raw 12).toNat
      if netvscRecvBufSize < byteOffset + byteCount ∨ byteCount = 0 then []
      else Memory.read recvBuf byteOffset (min byteCount outLen)

/-- The payload of the completion of a transfer-page packet. -/
def compPayload : List UInt8 :=
  le32 NvspMessageType.sendRndisPktComplete.asU32 ++ le32 nvspStatSuccess

/-- The offset of the NVSP message behind the descriptor; `none` if `offset8`
points into the descriptor. -/
def nvspOffset (desc : VmPacketDescriptor) : Option ℕ :=
  if 16 ≤ desc.offset8.toNat * 8 then some (desc.offset8.toNat * 8 - 16) else none

/-- A `SEND_RNDIS_PKT_COMPLETE` in a completion packet. -/
def isTxCompletion (desc : VmPacketDescriptor) (raw : List UInt8) : Bool :=
  match nvspOffset desc with
  | none => false
  | some o => decide (o + 4 ≤ raw.length) &&
      u32At raw o == NvspMessageType.sendRndisPktComplete.asU32

/-- The completion arm of both dispatch loops. -/
def handleCompletion (desc : VmPacketDescriptor) (raw : List UInt8) : Dev Unit :=
  if isTxCompletion desc raw then Prog.modify fun d => { d with sendSectionFree := true }
  else pure ()

/-- What `handle_xfer_page` does with the message: responses go to the response
slot, keepalives are answered, everything else is skipped. -/
def pollMessage (buf : List UInt8) : Dev Unit :=
  if buf.length < rndisHeaderSize then pure ()
  else do
    match ← Prog.ofOption (parseRndisResponse buf) with
    | some (.initComplete ..) | some (.queryComplete ..) | some (.setComplete ..) =>
        Prog.modify fun d => { d with ctrlResp := buf, ctrlRespReady := true }
    | some (.keepAlive reqId) => do
        let _ ← Prog.attempt (sendRndisControlInner (buildRndisKeepaliveCmplt reqId))
    | _ => pure ()

def handleXferPage (desc : VmPacketDescriptor) (raw : List UInt8) : Dev Unit := do
  let d ← Prog.get
  let buf := parseXferPagePacket d.recvBuf raw respBufLen
  let _ ← Prog.attempt (sendCompletion compPayload desc.transactionId)
  pollMessage buf

/-- One round of the loop of `poll_channel`. -/
def pollDispatch (desc : VmPacketDescriptor) (raw : List UInt8) : Dev Unit :=
  match VmbusPacketType.fromU16 desc.packetType with
  | some .dataUsingXferPages => handleXferPage desc raw
  | some .completion => handleCompletion desc raw
  | some .dataInBand =>
      -- the type is read only to be traced, through a slice of the receive buffer
      match nvspOffset desc with
      | none => pure ()
      | some o =>
          if 4 ≤ raw.length ∧ o < raw.length ∧ rawBufLen < o + 4 then Prog.panic else pure ()
  | _ => pure ()

/-- `extract_eth_frame` from a message in a buffer of `bufLen` bytes; the outer
`none` is the panic of the parser. -/
def extractEthFrame (bufLen : ℕ) (msg : List UInt8) : Option (Option (List UInt8)) :=
  if msg.length < rndisHeaderSize then some none
  else
    (parseRndisResponse msg).map fun
      | some (.packet dataOffset dataLen _) =>
          let frameStart := rndisHeaderSize + dataOffset.toNat
          if frameStart + dataLen.toNat ≤ msg.length ∧ dataLen.toNat ≤ bufLen then
            some ((msg.drop frameStart).take dataLen.toNat)
          else none
      | _ => none

/-- What `pump_channel` does with the message of a transfer-page packet. -/
def pumpMessage (rx : List UInt8) : Dev Unit :=
  if rx.length < rndisHeaderSize then pure ()
  else if u32At rx 0 = RndisMessageType.packet.asU32 then do
    match ← Prog.ofOption (extractEthFrame rxFrameMax rx) with
    | some frame => Prog.modify fun d => { d with pendingRx := some frame }
    | none => pure ()
  else if u32At rx 0 = RndisMessageType.keepAlive.asU32 then do
    match ← Prog.ofOption (parseRndisResponse rx) with
    | some (.keepAlive reqId) => do
        let _ ← Prog.attempt (sendRndisControlInner (buildRndisKeepaliveCmplt reqId))
    | _ => pure ()
  else pure ()

/-- One round of the loop of `pump_channel`; `false` ends the loop. -/
def pumpDispatch (desc : VmPacketDescriptor) (raw : List UInt8) : Dev Bool :=
  match VmbusPacketType.fromU16 desc.packetType with
  | some .dataUsingXferPages => do
      let d ← Prog.get
      -- the packet is off the ring already
      if d.pendingRx.isSome then return false
      else
        let rx := parseXferPagePacket d.recvBuf raw rxFrameMax
        let _ ← Prog.attempt (sendCompletion compPayload desc.transactionId)
        pumpMessage rx
        return true
  | some .completion => do
      handleCompletion desc raw
      return true
  | _ => pure true

/-- `recv_with`, with the frame handed to the closure. -/
def recvWith : Dev Unit := Prog.modify fun d =>
  match d.pendingRx with
  | some frame => { d with pendingRx := none, log := d.log ++ [.delivered frame] }
  | none => d

/-! ### Packet types -/

theorem fromU16_xferPages : VmbusPacketType.fromU16 vmPktDataUsingXferPages =
    some .dataUsingXferPages := by decide

theorem fromU16_comp : VmbusPacketType.fromU16 vmPktComp = some .completion := by decide

/-- The other packets are skipped by both loops. -/
theorem fromU16_other {t : UInt16} (ht : t ≠ vmPktDataUsingXferPages) (ht' : t ≠ vmPktComp) :
    VmbusPacketType.fromU16 t ≠ some .dataUsingXferPages ∧
      VmbusPacketType.fromU16 t ≠ some .completion := by
  unfold vmPktDataUsingXferPages at ht
  unfold vmPktComp at ht'
  unfold VmbusPacketType.fromU16
  split_ifs <;> simp

theorem packetType_of_fromU16 {t : UInt16}
    (h : VmbusPacketType.fromU16 t = some .dataUsingXferPages) : t = vmPktDataUsingXferPages := by
  by_contra hne
  by_cases hcomp : t = vmPktComp
  · rw [hcomp, fromU16_comp] at h
    exact absurd h (by simp)
  · exact (fromU16_other hne hcomp).1 h

end Netvsc
