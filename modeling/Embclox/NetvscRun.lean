/-
Runs of a NetVSC device.

`NetvscDevice::init` and the calls of the data path are sequences of receives with
local work in between, so the device is a machine with a control point: one guest
step makes the next receive and runs up to the receive after it.  The host puts
packets on the receive ring and reads the send ring at any time.
-/
import Embclox.Exec
import Embclox.Netvsc
import Embclox.RingFifo

open Bytes Effect Ring Nvsp

namespace Netvsc

/-! ### Control points -/

/-- The RNDIS requests of `init`, each followed by a wait for its response. -/
inductive Request
  | init
  | mac (permanent : Bool)
  | mtu
  | filter
  deriving DecidableEq

/-- The calls on an initialised device; `send_rndis_control` is internal. -/
inductive Call
  | hasTxSpace
  | hasRxPacket
  | transmitWith (frameLen : ℕ) (f : List UInt8 → List UInt8)
  | recvWith
  | sendRndisControl (msg : List UInt8)

/-- Where the guest is: about to make a receive, between calls, or stopped. -/
inductive Ctl
  /-- The channel is open and `init` has not started. -/
  | opened
  | negotiate (ver : NvspVersion) (rest : List NvspVersion)
  | recvBuf
  | sendBuf
  /-- `wait_for_send_section_async` before `msg`; `next` is the request it belongs to. -/
  | waitSection (msg : List UInt8) (next : Option Request)
  | response (req : Request)
  /-- The drain loop of `init`, with the rounds left. -/
  | drain (left : ℕ) (processed : Bool)
  | singleQueue
  | ready
  /-- In `pump_channel`, for this call. -/
  | pump (call : Call)
  | failed (e : HvError)
  | panicked

instance : (c : Ctl) → Decidable (c = .ready)
  | .ready => .isTrue rfl
  | .opened | .negotiate .. | .recvBuf | .sendBuf | .waitSection .. | .response _ | .drain .. |
    .singleQueue | .pump _ | .failed _ | .panicked => .isFalse nofun

/-- What a guest step depends on outside the device: whether the deadline has
passed, and the outcome of creating a GPADL. -/
structure Env where
  expired : Bool := false
  gpadl : Except HvError UInt32 := .ok 0

/-! ### Control messages -/

/-- `send_rndis_control` with a free section, and what follows it: for a request the
wait for its response, which forgets an earlier one. -/
def controlSent (msg : List UInt8) (next : Option Request) : Dev Ctl := do
  sendControl msg
  match next with
  | some req => do
      Prog.modify fun d => { d with ctrlRespReady := false }
      return .response req
  | none => pure .ready

def sendRndisControl (msg : List UInt8) (next : Option Request) : Dev Ctl := do
  let d ← Prog.get
  if d.sendSectionFree then controlSent msg next else return .waitSection msg next

/-- Send a request under a fresh request id. -/
def request (build : UInt32 → List UInt8) (req : Request) : Dev Ctl := do
  let d ← Prog.get
  Prog.modify fun d => { d with nextRequestId := d.nextRequestId + 1 }
  sendRndisControl (build d.nextRequestId) (some req)

def rndisInit : Dev Ctl := request (fun reqId => buildRndisInit reqId 0x4000) .init

def rndisQueryMac (permanent : Bool) : Dev Ctl :=
  request (fun reqId => buildRndisQuery reqId
    (if permanent then oidEthPermanentAddress else oidEthCurrentAddress) []) (.mac permanent)

def rndisQueryMtu : Dev Ctl :=
  request (fun reqId => buildRndisQuery reqId oidGenMaximumFrameSize []) .mtu

def rndisSetPacketFilter : Dev Ctl :=
  request (fun reqId => buildRndisSet reqId oidGenCurrentPacketFilter
    (le32 ndisPacketFilterStandard)) .filter

/-- The end of `init`: the frames of the negotiated MTU must fit in the queue. -/
def checkMtu : Dev Ctl := do
  let d ← Prog.get
  if d.mtu.toNat + 14 ≤ rxFrameMax then return .ready else Prog.panic

/-- After the packet filter: from NVSP 5 on, ask for a single queue. -/
def finishInit : Dev Ctl := do
  let d ← Prog.get
  if NvspVersion.v5.asU32 ≤ d.nvspVersion then
    send (nvspMessagePadded (buildNvspSubchannelRequest 0)) 0
    return .singleQueue
  else checkMtu

/-- What `init` does with the response to a request. -/
def onResponse : Request → Option RndisResponse → Dev Ctl
  | .init, some (.initComplete _ status _ _ _ _ _) =>
      if status = rndisStatusSuccess then pure (.drain 10000 false)
      else Prog.fail (.hypercallFailed status.toUInt16)
  | .init, _ => Prog.fail .versionRejected
  | .mac permanent, some (.queryComplete _ status info) =>
      if status = rndisStatusSuccess ∧ 6 ≤ info.length then do
        Prog.modify fun d => { d with mac := info.take 6 }
        rndisQueryMtu
      else if permanent then rndisQueryMtu else rndisQueryMac true
  | .mac permanent, _ => if permanent then rndisQueryMtu else rndisQueryMac true
  | .mtu, some (.queryComplete _ status info) =>
      if status = rndisStatusSuccess ∧ 4 ≤ info.length then do
        Prog.modify fun d => { d with mtu := u32At info 0 }
        rndisSetPacketFilter
      else rndisSetPacketFilter
  | .mtu, _ => rndisSetPacketFilter
  | .filter, some (.setComplete _ _) => finishInit
  | .filter, _ => Prog.fail .versionRejected

/-! ### NVSP -/

/-- The next round of `negotiate_nvsp_version`. -/
def negotiateFrom : List NvspVersion → Dev Ctl
  | [] => Prog.fail .versionRejected
  | ver :: rest => do
      send (nvspMessagePadded (buildNvspInit ver.asU32)) 0
      return .negotiate ver rest

def createGpadl (env : Env) : Dev UInt32 :=
  match env.gpadl with
  | .ok handle => pure handle
  | .error e => Prog.fail e

/-- From NVSP 2 on, the MTU and the capabilities are announced. -/
def sendNdisConfig (ver : NvspVersion) : Dev Unit :=
  if ver = .v1 then pure () else sendRaw (nvspMessagePadded (buildNvspSendNdisConfig 1528 1)) 99

def sendNdisVersion (ver : NvspVersion) : Dev Unit :=
  if NvspVersion.v4.asU32 < ver.asU32 then
    sendRaw (nvspMessagePadded (buildNvspSendNdisVersion 6 30)) 98
  else sendRaw (nvspMessagePadded (buildNvspSendNdisVersion 6 1)) 98

/-- After a version was accepted, up to the wait for the receive buffer. -/
def negotiated (env : Env) (ver : NvspVersion) : Dev Ctl := do
  sendNdisConfig ver
  Prog.modify fun d => { d with nvspVersion := ver.asU32 }
  sendNdisVersion ver
  let handle ← createGpadl env
  send (nvspMessagePadded (buildNvspSendRecvBuf handle receiveBufferId)) 1
  return .recvBuf

def onNegotiate (env : Env) (ver : NvspVersion) (rest : List NvspVersion)
    (resp : Option NvspResponse) : Dev Ctl :=
  match resp with
  | some (.initComplete _ _ status) =>
      if status = nvspStatSuccess then negotiated env ver else negotiateFrom rest
  | _ => negotiateFrom rest

def onRecvBuf (env : Env) (resp : Option NvspResponse) : Dev Ctl :=
  match resp with
  | some (.recvBufComplete status _) =>
      if status = nvspStatSuccess then do
        let handle ← createGpadl env
        send (nvspMessagePadded (buildNvspSendSendBuf handle sendBufferId)) 2
        return .sendBuf
      else Prog.fail (.hypercallFailed status.toUInt16)
  | _ => Prog.fail (.hypercallFailed 0xFFFF)

def onSendBuf (resp : Option NvspResponse) : Dev Ctl :=
  match resp with
  | some (.sendBufComplete status _) =>
      if status = nvspStatSuccess then rndisInit
      else Prog.fail (.hypercallFailed status.toUInt16)
  | _ => Prog.fail (.hypercallFailed 0xFFFF)

/-! ### Calls -/

/-- The end of a call, after `pump_channel`; what it returns is not kept. -/
def finishCall : Call → Dev Ctl
  | .transmitWith frameLen f => do
      let d ← Prog.get
      if d.sendSectionFree then do
        let _ ← Prog.attempt (transmitFrame frameLen f)
        return .ready
      else return .ready
  | _ => pure .ready

/-- An internal caller of `send_rndis_control` gets its error. -/
def caught (p : Dev Ctl) : Dev Ctl := do
  match ← Prog.attempt p with
  | .ok c => return c
  | .error _ => return .ready

/-- A call up to its first receive. -/
def startCall : Call → Dev Ctl
  | .hasTxSpace => pure (.pump .hasTxSpace)
  | .hasRxPacket => pure (.pump .hasRxPacket)
  | .transmitWith frameLen f =>
      if netvscSendBufSize < rndisPacketHdrSize + frameLen then Prog.panic
      else do
        let d ← Prog.get
        if d.sendSectionFree then finishCall (.transmitWith frameLen f)
        else return .pump (.transmitWith frameLen f)
  | .recvWith => do
      recvWith
      return .ready
  | .sendRndisControl msg => caught (sendRndisControl msg none)

/-! ### Guest steps -/

/-- The receive of a control point. -/
def receive : Ctl → Dev (Option (VmPacketDescriptor × List UInt8))
  | .negotiate _ _ | .recvBuf | .sendBuf | .singleQueue => tryRecv respBufLen
  | .waitSection _ _ | .response _ | .drain _ _ => tryRecvRaw rawBufLen
  | .pump _ => do
      -- the caller of `pump_channel` ignores its error
      match ← Prog.attempt (tryRecvRaw rawBufLen) with
      | .ok x => return x
      | .error _ => return none
  | .opened | .ready | .failed _ | .panicked => pure none

/-- What the guest does with a packet. -/
def onPacket (env : Env) : Ctl → VmPacketDescriptor → List UInt8 → Dev Ctl
  | .negotiate ver rest, _, bytes => onNegotiate env ver rest (parseNvspResponse bytes)
  | .recvBuf, _, bytes =>
      if bytes.isEmpty then pure .recvBuf else onRecvBuf env (parseNvspResponse bytes)
  | .sendBuf, _, bytes =>
      if bytes.isEmpty then pure .sendBuf else onSendBuf (parseNvspResponse bytes)
  -- the response is only traced
  | .singleQueue, _, _ => checkMtu
  | .waitSection msg next, desc, raw => do
      pollDispatch desc raw
      return .waitSection msg next
  | .response req, desc, raw => do
      pollDispatch desc raw
      return .response req
  | .drain left _, desc, raw => do
      pollDispatch desc raw
      return .drain left true
  | .pump call, desc, raw => do
      if ← pumpDispatch desc raw then return .pump call else finishCall call
  | c, _, _ => pure c

/-- What the guest does when the ring is empty. -/
def onEmpty (env : Env) : Ctl → Dev Ctl
  | .opened => negotiateFrom NvspVersion.negotiateOrder
  | .waitSection msg next => do
      let d ← Prog.get
      if d.sendSectionFree then controlSent msg next
      else if env.expired then Prog.fail .timeout
      else return .waitSection msg next
  | .response req => do
      let d ← Prog.get
      if d.ctrlRespReady then
        Prog.modify fun d => { d with ctrlRespReady := false }
        let resp ← Prog.ofOption (parseRndisResponse d.ctrlResp)
        onResponse req resp
      else if env.expired then Prog.fail .timeout
      else return .response req
  | .drain left processed =>
      if processed ∧ 1 < left then pure (.drain (left - 1) false) else rndisQueryMac false
  | .pump call => finishCall call
  | c => if env.expired then Prog.fail .timeout else pure c

/-- One receive and the work up to the next one. -/
def advance (env : Env) (c : Ctl) : Dev Ctl := do
  match ← receive c with
  | some (desc, bytes) => onPacket env c desc bytes
  | none => onEmpty env c

/-- The same with the error of an internal call caught by its caller. -/
def resume (env : Env) : Ctl → Dev Ctl
  | .waitSection msg none => caught (advance env (.waitSection msg none))
  | c => advance env c

/-! ### The system -/

structure Sys where
  dev : NetvscDevice
  ctl : Ctl

/-- The device after a guest program, and where its outcome leaves the guest. -/
def perform (p : Dev Ctl) (s : Sys) : Sys :=
  match p s.dev with
  | (.ok c, d) => ⟨d, c⟩
  | (.err e, d) => ⟨d, .failed e⟩
  | (.panic, d) => ⟨d, .panicked⟩

/-- A guest step is possible at every receive. -/
def Ctl.running : Ctl → Bool
  | .ready | .failed _ | .panicked => false
  | _ => true

/-- The Ethernet frame of a data packet: one range inside the receive buffer that
holds one `RNDIS_PACKET_MSG` of at most `RX_FRAME_MAX` bytes. -/
def postedFrame (p : Packet) (mem : ℕ → UInt8) : Option (List UInt8) :=
  let count := (u32At p.body 8).toNat
  let offset := (u32At p.body 12).toNat
  let msg := Memory.read mem offset count
  let dataOffset := (u32At msg 8).toNat
  let dataLen := (u32At msg 12).toNat
  if p.desc.packetType = vmPktDataUsingXferPages ∧ 16 ≤ p.body.length ∧ u32At p.body 4 = 1 ∧
      rndisPacketHdrSize ≤ count ∧ count ≤ rxFrameMax ∧ offset + count ≤ netvscRecvBufSize ∧
      u32At msg 0 = RndisMessageType.packet.asU32 ∧
      rndisPacketHdrSize ≤ (u32At msg 4).toNat ∧ (u32At msg 4).toNat ≤ count ∧
      rndisHeaderSize + dataOffset + dataLen ≤ (u32At msg 4).toNat then
    some ((msg.drop (rndisHeaderSize + dataOffset)).take dataLen)
  else none

/-- The host puts a packet on the receive ring, after it wrote the receive buffer. -/
def hostPut (p : Packet) (mem : ℕ → UInt8) (tag : Option ℕ) (d : NetvscDevice) :
    Option NetvscDevice :=
  match sendAvail d.recv with
  | none => none
  | some avail =>
    if p.toBytes.length + 8 < avail then
      some { d with
        recv := push d.recv p (List.replicate 8 0)
        recvBuf := mem
        log := d.log ++ [.put p tag (postedFrame p mem)] }
    else none

inductive Act
  | guest (env : Env)
  | call (c : Call)
  | put (p : Packet) (mem : ℕ → UInt8) (tag : Option ℕ)
  /-- The host reads the send ring. -/
  | take

def step (s : Sys) : Act → Option Sys
  | .guest env => if s.ctl.running then some (perform (resume env s.ctl) s) else none
  | .call c =>
    match s.ctl with
    | .ready => some (perform (startCall c) s)
    | _ => none
  | .put p mem tag => (hostPut p mem tag s.dev).map fun d => { s with dev := d }
  | .take => some { s with dev := { s.dev with send := (recvPacketRaw maxBody s.dev.send).2 } }

/-- The guest makes no step from a state that passes the test. -/
def Avoids (bad : Sys → Bool) (s : Sys) : Act → Prop
  | .guest _ => bad s = false
  | .call _ | .put _ _ _ | .take => True

instance (bad : Sys → Bool) (s : Sys) : (a : Act) → Decidable (Avoids bad s a)
  | .guest _ => inferInstanceAs (Decidable (bad s = false))
  | .call _ | .put _ _ _ | .take => .isTrue trivial

theorem Avoids.of_not {bad : Sys → Bool} {s : Sys} {a : Act} (h : ¬ Avoids bad s a) :
    (∃ env, a = .guest env) ∧ bad s = true := by
  cases a with
  | guest env => exact ⟨⟨env, rfl⟩, by simpa [Avoids] using h⟩
  | _ => exact absurd trivial h

theorem perform_dev (p : Dev Ctl) (s : Sys) : (perform p s).dev = (p s.dev).2 := by
  unfold perform
  rcases p s.dev with ⟨_ | _ | _, d⟩ <;> rfl

theorem perform_congr {p q : Dev Ctl} {s t : Sys} (h : p s.dev = q t.dev) :
    perform p s = perform q t := by
  unfold perform
  rw [h]

/-- The host touches only the receive ring and the receive buffer. -/
theorem step_put {s u : Sys} {p : Packet} {mem : ℕ → UInt8} {tag : Option ℕ}
    (h : step s (.put p mem tag) = some u) :
    ∃ r, u = { s with dev := { s.dev with
      recv := r, recvBuf := mem, log := s.dev.log ++ [.put p tag (postedFrame p mem)] } } := by
  rcases havail : sendAvail s.dev.recv with _ | avail
  · simp [step, hostPut, havail] at h
  · by_cases hroom : p.toBytes.length + 8 < avail
    · simp only [step, hostPut, havail, if_pos hroom, Option.map_some, Option.some.injEq] at h
      exact ⟨_, h.symm⟩
    · simp only [step, hostPut, havail, if_neg hroom, Option.map_none, reduceCtorEq] at h

/-- The control point after a program whose results meet `P`. -/
theorem ctl_perform {P : Ctl → Prop} {p : Dev Ctl} (h : Prog.Returns P p)
    (hfailed : ∀ e, P (.failed e)) (hpanicked : P .panicked) (s : Sys) : P (perform p s).ctl := by
  unfold perform
  rcases hp : p s.dev with ⟨_ | _ | _, d⟩
  · exact h s.dev _ (by rw [hp])
  · exact hfailed _
  · exact hpanicked

/-! ### Opened channels -/

/-- The bytes found in the memory that the guest shares with the host. -/
structure Ram where
  sendData : ℕ → UInt8 := fun _ => 0
  recvData : ℕ → UInt8 := fun _ => 0
  recvBuf : ℕ → UInt8 := fun _ => 0
  sendBuf : ℕ → UInt8 := fun _ => 0

/-- One half of the ring of a channel that was just opened. -/
def openedHalf (data : ℕ → UInt8) : RingHalf :=
  freshRing (netvscRingSize / 2 - 4096) data (by decide) (by decide)

/-- The device at the start of `init`, with the values that its record gets after the
NVSP phase and that nothing reads before. -/
def openedDevice (ram : Ram) : NetvscDevice where
  send := openedHalf ram.sendData
  recv := openedHalf ram.recvData
  recvBuf := ram.recvBuf
  sendBuf := ram.sendBuf
  nvspVersion := 0
  mac := List.replicate 6 0
  mtu := 1514
  nextRequestId := 1
  nextTxid := 100
  ctrlResp := []
  ctrlRespReady := false
  sendSectionFree := true
  pendingRx := none
  log := []

def openedSys (ram : Ram) : Sys := ⟨openedDevice ram, .opened⟩

/-! ### A host -/

/-- A completion packet with an NVSP message. -/
def nvspCompletion (msg : List UInt8) : Packet :=
  ⟨⟨vmPktComp, 2, 6, 0, 0⟩, (msg ++ List.replicate 32 0).take 32, by simp⟩

/-- A transfer-page packet with one range. -/
def xferPagePacket (transactionId : UInt64) (count offset : UInt32) : Packet :=
  ⟨⟨vmPktDataUsingXferPages, 4, 4, 0, transactionId⟩,
    le32 0xcafe ++ le32 1 ++ le32 count ++ le32 offset, by simp⟩

def rndisMessage (msgType : RndisMessageType) (body : List UInt8) : List UInt8 :=
  le32 msgType.asU32 ++ le32 (UInt32.ofNat (rndisHeaderSize + body.length)) ++ body

/-- The completion of an NVSP request. -/
def answerNvsp (msg : List UInt8) : Act := .put (nvspCompletion msg) (fun _ => 0) none

/-- The completion of the SEND_RNDIS_PKT with this number. -/
def completeTx (tag : ℕ) : Act :=
  .put (nvspCompletion (le32 NvspMessageType.sendRndisPktComplete.asU32 ++ le32 nvspStatSuccess))
    (fun _ => 0) (some tag)

/-- An RNDIS message at the start of the receive buffer. -/
def answerRndis (transactionId : UInt64) (msg : List UInt8) : Act :=
  .put (xferPagePacket transactionId (UInt32.ofNat msg.length) 0) (Memory.write (fun _ => 0) 0 msg)
    none

/-- An `RNDIS_PACKET_MSG` with this frame. -/
def packetMsg (frame : List UInt8) : List UInt8 :=
  rndisMessage .packet (le32 36 ++ le32 (UInt32.ofNat frame.length) ++ List.replicate 28 0 ++ frame)

/-- A data packet with this frame, at this offset of the receive buffer `mem`. -/
def postFrame (transactionId : UInt64) (offset : ℕ) (frame : List UInt8) (mem : ℕ → UInt8) : Act :=
  .put (xferPagePacket transactionId (UInt32.ofNat (packetMsg frame).length) (UInt32.ofNat offset))
    (Memory.write mem offset (packetMsg frame)) none

/-- Two frames in different sections of the receive buffer. -/
def postTwo (frame frame' : List UInt8) : List Act :=
  [postFrame 11 0 frame fun _ => 0,
    postFrame 12 2048 frame' (Memory.write (fun _ => 0) 0 (packetMsg frame))]

/-- The receive of the guest, before any deadline. -/
def receives : Act := .guest { }

/-- The NVSP phase with a host of version 6.1, up to the wait for the response to
RNDIS_INIT. -/
def nvspPhase : List Act :=
  [receives,
    answerNvsp (le32 NvspMessageType.initComplete.asU32 ++ le32 0x60001 ++ le32 0 ++
      le32 nvspStatSuccess), receives,
    answerNvsp (le32 NvspMessageType.sendReceiveBufferComplete.asU32 ++ le32 nvspStatSuccess ++
      le32 1), receives,
    answerNvsp (le32 NvspMessageType.sendSendBufferComplete.asU32 ++ le32 nvspStatSuccess ++
      le32 6144), receives]

def initCmplt : List UInt8 := rndisMessage .initComplete (le32 1 ++ List.replicate 40 0)

/-- The response to a query, with the information behind its fixed fields. -/
def queryCmplt (reqId : UInt32) (info : List UInt8) : List UInt8 :=
  rndisMessage .queryComplete (le32 reqId ++ le32 rndisStatusSuccess ++
    le32 (UInt32.ofNat info.length) ++ le32 16 ++ info)

/-- The RNDIS phase up to the packet filter: each message is completed, then
answered. -/
def rndisPhase : List Act :=
  [completeTx 0, answerRndis 7 initCmplt, receives, receives, receives, receives,
    completeTx 1, answerRndis 8 (queryCmplt 2 [2, 0, 0, 0, 0, 1]), receives, receives, receives,
    completeTx 2, answerRndis 9 (queryCmplt 3 (le32 1500)), receives, receives, receives]

def setCmplt : List UInt8 := rndisMessage .setComplete (le32 4 ++ le32 rndisStatusSuccess)

def subChannelCmplt : List UInt8 :=
  le32 NvspMessageType.subChannel.asU32 ++ le32 nvspStatSuccess ++ le32 0

/-- The whole of `init`. -/
def initPhase : List Act :=
  nvspPhase ++ rndisPhase ++
    [completeTx 3, answerRndis 10 setCmplt, receives, receives, receives,
      answerNvsp subChannelCmplt, receives]

end Netvsc
