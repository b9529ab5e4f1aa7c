/-
RNDIS responses and the requests they answer.

`poll_channel` stores every INIT, QUERY and SET completion in one slot, and
`recv_rndis_response` returns what the slot holds once the ring is empty.  Nobody looks
at the request id, so a response that is late, repeated or unsolicited is taken for the
answer to the request that waits.

* `Matched` — a response is returned only for the request whose id it carries;
* `matched_of_answersRequest` — this holds in every run in which the responses that are
  read during a wait carry the id of the request, and then the MAC and the MTU come from
  the answers to their queries;
* `repeated_answer_taken` — a second answer to the MAC query becomes the MTU.
-/
import Embclox.NetvscSteps

open Bytes Effect Ring Nvsp Run

namespace Netvsc

/-! ### Requests and responses -/

/-- The message of a request with this id. -/
def Request.message : Request → UInt32 → List UInt8
  | .init, reqId => buildRndisInit reqId 0x4000
  | .mac permanent, reqId => buildRndisQuery reqId
      (if permanent then oidEthPermanentAddress else oidEthCurrentAddress) []
  | .mtu, reqId => buildRndisQuery reqId oidGenMaximumFrameSize []
  | .filter, reqId => buildRndisSet reqId oidGenCurrentPacketFilter (le32 ndisPacketFilterStandard)

/-- The `RequestId` of a message. -/
def requestId (msg : List UInt8) : UInt32 := u32At msg 8

theorem requestId_message (req : Request) (reqId : UInt32) :
    requestId (req.message reqId) = reqId := by
  have hword : ∀ (a b : UInt32) (rest : List UInt8),
      u32At (le32 a ++ le32 b ++ (le32 reqId ++ rest)) 8 = reqId :=
    fun _ _ _ => u32At_le32 (by simp)
  cases req <;>
    simpa only [Request.message, buildRndisInit, buildRndisQuery, buildRndisSet, buildRndisRequest,
      requestId, List.append_assoc] using hword _ _ _

def Event.control? : Event → Option (List UInt8)
  | .wrote .control bytes => some bytes
  | _ => none

/-- The control message that was written last. -/
def lastRequest (log : List Event) : Option (List UInt8) :=
  (log.filterMap Event.control?).getLast?

/-- The request id of the responses that go to the slot. -/
def completionId (msg : List UInt8) : Option UInt32 :=
  match parseRndisResponse msg with
  | some (some (.initComplete reqId _ _ _ _ _ _)) => some reqId
  | some (some (.queryComplete reqId _ _)) => some reqId
  | some (some (.setComplete reqId _)) => some reqId
  | _ => none

/-- `recv_rndis_response` is about to return this message for the request. -/
structure Returning (s : Sys) (req : Request) (msg : List UInt8) : Prop where
  ctl : s.ctl = .response req
  empty : unread s.dev.log = []
  ready : s.dev.ctrlRespReady = true
  resp : s.dev.ctrlResp = msg

/-- What is returned for a request carries the id of this request. -/
def Matched (s : Sys) : Prop := ∀ req msg, Returning s req msg →
  ∃ reqId, lastRequest s.dev.log = some (req.message reqId) ∧ completionId msg = some reqId

/-- The next packet of a wait carries a response with another id. -/
def strayResponse (s : Sys) : Bool :=
  match s.ctl, s.dev.view.next with
  | .response _, some p =>
      p.desc.packetType == vmPktDataUsingXferPages &&
        match completionId (messageOf s.dev.recvBuf p respBufLen) with
        | some reqId => (lastRequest s.dev.log).map requestId != some reqId
        | none => false
  | _, _ => false

abbrev AnswersRequest : Sys → Act → Prop := Avoids strayResponse

/-- `recv_rndis_response` is about to return the answer to the query `req`, with this
information. -/
def Answered (s : Sys) (req : Request) (info : List UInt8) : Prop :=
  ∃ reqId status, lastRequest s.dev.log = some (req.message reqId) ∧
    Returning s req s.dev.ctrlResp ∧
    parseRndisResponse s.dev.ctrlResp = some (some (.queryComplete reqId status info))

/-- Somewhere in the run a query that meets `query` was answered with information that
meets `stored`. -/
def ReadFromAnswer (ram : Ram) (l : List Act) (query : Request → Prop)
    (stored : List UInt8 → Prop) : Prop :=
  ∃ l' t req info, l' <+: l ∧ Exec step (fun _ _ => True) (openedSys ram) l' t ∧
    query req ∧ Answered t req info ∧ stored info

/-- The MAC and the MTU are those of a new device or come from the answers to their
queries. -/
structure StoredFromAnswers (ram : Ram) (l : List Act) (d : NetvscDevice) : Prop where
  mac : d.mac = (openedDevice ram).mac ∨
    ReadFromAnswer ram l (fun req => ∃ permanent, req = .mac permanent)
      fun info => d.mac = info.take 6
  mtu : d.mtu = (openedDevice ram).mtu ∨
    ReadFromAnswer ram l (fun req => req = .mtu) fun info => d.mtu = u32At info 0

/-! ### The parts of the device -/

/-- What the responses are stored in and read for. -/
structure Core where
  mac : List UInt8
  mtu : UInt32
  ctrlResp : List UInt8
  ctrlRespReady : Bool
  request : Option (List UInt8)

def NetvscDevice.core (d : NetvscDevice) : Core :=
  ⟨d.mac, d.mtu, d.ctrlResp, d.ctrlRespReady, lastRequest d.log⟩

theorem lastRequest_append {log new : List Event} (h : ∀ e ∈ new, e.control? = none) :
    lastRequest (log ++ new) = lastRequest log := by
  rw [lastRequest, List.filterMap_append, List.filterMap_eq_nil_iff.mpr h, List.append_nil,
    lastRequest]

theorem core_append {d d' : NetvscDevice} {e : Event} (hlog : d'.log = d.log ++ [e])
    (he : e.control? = none) (hmac : d'.mac = d.mac) (hmtu : d'.mtu = d.mtu)
    (hresp : d'.ctrlResp = d.ctrlResp) (hready : d'.ctrlRespReady = d.ctrlRespReady) :
    d'.core = d.core := by
  rw [NetvscDevice.core, hlog, lastRequest_append (by simpa using he), hmac, hmtu, hresp, hready,
    NetvscDevice.core]

theorem channelSend_core (op : Prog RingHalf RingError Unit) {e : Event} (he : e.control? = none) :
    Prog.Leaves NetvscDevice.core (channelSend op e) := by
  intro d
  unfold channelSend
  rcases op d.send with ⟨_ | _ | _, r⟩
  · exact core_append rfl he rfl rfl rfl rfl
  · exact core_append (e := .ringFull) rfl rfl rfl rfl rfl rfl
  · rfl

theorem channelRecv_core
    (op : Prog RingHalf RingError (Option (VmPacketDescriptor × List UInt8))) :
    Prog.Leaves NetvscDevice.core (channelRecv op) := by
  intro d
  unfold channelRecv
  rcases op d.recv with ⟨(_ | x) | _ | _, r⟩
  · rfl
  · exact core_append (e := .removed x.1) rfl rfl rfl rfl rfl rfl
  · rfl
  · rfl

theorem writeSection_core {sender : Sender} (hs : sender ≠ .control) (bytes : List UInt8) :
    Prog.Leaves NetvscDevice.core (writeSection sender bytes) := by
  refine Prog.Leaves.modify fun d => core_append (e := .wrote sender bytes) rfl ?_ rfl rfl rfl rfl
  cases sender with
  | control => exact absurd rfl hs
  | _ => rfl

theorem sendRndisControlInner_core (msg : List UInt8) :
    Prog.Leaves NetvscDevice.core (sendRndisControlInner msg) := by
  refine Prog.Leaves.get.bind fun d => ?_
  split
  · exact (writeSection_core (by decide) msg).bind fun _ => channelSend_core _ rfl
  · exact Prog.Leaves.fail _

theorem transmitFrame_core (frameLen : ℕ) (f : List UInt8 → List UInt8) :
    Prog.Leaves NetvscDevice.core (transmitFrame frameLen f) := by
  refine Prog.Leaves.get.bind fun _ => (writeSection_core (by decide) _).bind fun _ => ?_
  exact Prog.Leaves.bind (Prog.Leaves.modify fun _ => rfl) fun _ => channelSend_core _ rfl

theorem handleCompletion_core (desc : VmPacketDescriptor) (raw : List UInt8) :
    Prog.Leaves NetvscDevice.core (handleCompletion desc raw) := by
  unfold handleCompletion
  split
  · exact Prog.Leaves.modify fun _ => rfl
  · exact Prog.Leaves.pure _

/-- The reply to a keepalive. -/
theorem answer_core (reqId : UInt32) : Prog.Leaves NetvscDevice.core
    (do let _ ← Prog.attempt (sendRndisControlInner (buildRndisKeepaliveCmplt reqId)) : Dev Unit) :=
  (sendRndisControlInner_core _).attempt.bind fun _ => Prog.Leaves.pure _

theorem pumpMessage_core (rx : List UInt8) : Prog.Leaves NetvscDevice.core (pumpMessage rx) := by
  unfold pumpMessage
  split
  · exact Prog.Leaves.pure _
  split
  · refine (Prog.Leaves.ofOption _).bind fun frame => ?_
    cases frame with
    | none => exact Prog.Leaves.pure _
    | some frame => exact Prog.Leaves.modify fun _ => rfl
  split
  · refine (Prog.Leaves.ofOption _).bind fun resp => ?_
    split
    · exact answer_core _
    · exact Prog.Leaves.pure _
  · exact Prog.Leaves.pure _

theorem pumpDispatch_core (desc : VmPacketDescriptor) (raw : List UInt8) :
    Prog.Leaves NetvscDevice.core (pumpDispatch desc raw) := by
  unfold pumpDispatch
  split
  · refine Prog.Leaves.get.bind fun d => ?_
    split
    · exact Prog.Leaves.pure _
    · exact (channelSend_core _ rfl).attempt.bind fun _ => (pumpMessage_core _).bind fun _ =>
        Prog.Leaves.pure _
  · exact (handleCompletion_core desc raw).bind fun _ => Prog.Leaves.pure _
  · exact Prog.Leaves.pure _

theorem recvWith_core : Prog.Leaves NetvscDevice.core recvWith := by
  refine Prog.Leaves.modify fun d => ?_
  cases d.pendingRx with
  | none => rfl
  | some frame => exact core_append (e := .delivered frame) rfl rfl rfl rfl rfl rfl

theorem hostPut_core {p : Packet} {mem : ℕ → UInt8} {tag : Option ℕ} {d d' : NetvscDevice}
    (h : hostPut p mem tag d = some d') : d'.core = d.core := by
  unfold hostPut at h
  split at h
  · exact absurd h (by simp)
  · rw [Option.ite_none_right_eq_some, Option.some.injEq] at h
    rw [← h.2]
    exact core_append (e := .put p tag (postedFrame p mem)) rfl rfl rfl rfl rfl rfl

/-! ### The response slot -/

/-- The slot after a message was looked at. -/
def Core.store (k : Core) (msg : List UInt8) : Core :=
  if (completionId msg).isSome then { k with ctrlResp := msg, ctrlRespReady := true } else k

theorem Core.store_of_none {k : Core} {msg : List UInt8} (h : completionId msg = none) :
    k.store msg = k := by
  rw [Core.store, h]
  rfl

theorem Core.store_of_some {k : Core} {msg : List UInt8} {reqId : UInt32}
    (h : completionId msg = some reqId) :
    k.store msg = { k with ctrlResp := msg, ctrlRespReady := true } := by
  rw [Core.store, h]
  rfl

theorem pollMessage_core (msg : List UInt8) (d : NetvscDevice) :
    (pollMessage msg d).2.core = d.core.store msg := by
  unfold pollMessage
  by_cases hlen : msg.length < rndisHeaderSize
  · have hid : completionId msg = none := by rw [completionId, parseRndisResponse, if_pos hlen]
    rw [if_pos hlen, Core.store_of_none hid]
    rfl
  rw [if_neg hlen, Prog.bind_apply]
  rcases hparse : parseRndisResponse msg with _ | _ | resp
  · rw [Core.store_of_none (by rw [completionId, hparse])]
    rfl
  · rw [Core.store_of_none (by rw [completionId, hparse])]
    rfl
  · cases resp with
    | initComplete reqId =>
      rw [Core.store_of_some (by rw [completionId, hparse])]
      rfl
    | queryComplete reqId =>
      rw [Core.store_of_some (by rw [completionId, hparse])]
      rfl
    | setComplete reqId =>
      rw [Core.store_of_some (by rw [completionId, hparse])]
      rfl
    | keepAlive reqId =>
      rw [Core.store_of_none (by rw [completionId, hparse])]
      exact answer_core reqId d
    | _ =>
      rw [Core.store_of_none (by rw [completionId, hparse])]
      rfl

/-- **One round of `poll_channel`** stores the response that the packet carries. -/
theorem pollDispatch_core {d : NetvscDevice} (hb : Base d) (desc : VmPacketDescriptor)
    (raw : List UInt8) :
    (pollDispatch desc raw d).2.core =
      if desc.packetType = vmPktDataUsingXferPages then
        d.core.store (parseXferPagePacket d.recvBuf raw respBufLen)
      else d.core := by
  by_cases ht : desc.packetType = vmPktDataUsingXferPages
  · obtain ⟨r, e, res, he, -, hack⟩ := ack_spec hb desc
    have hcontrol : e.control? = none := by rcases he with rfl | rfl <;> rfl
    have hcore : ({ d with send := r, log := d.log ++ [e] } : NetvscDevice).core = d.core :=
      core_append rfl hcontrol rfl rfl rfl rfl
    rw [if_pos ht, pollDispatch_xferPages ht, handleXferPage, Prog.get_bind, Prog.bind_apply, hack]
    dsimp only
    rw [pollMessage_core, hcore]
  rw [if_neg ht]
  by_cases ht' : desc.packetType = vmPktComp
  · rw [pollDispatch_comp ht']
    exact handleCompletion_core desc raw d
  · rw [pollDispatch_other ht ht']

/-! ### Programs that leave the MAC and the MTU alone -/

def NetvscDevice.settled (d : NetvscDevice) : List UInt8 × UInt32 := (d.mac, d.mtu)

theorem settled_of_core {α : Type} {p : Dev α} (h : Prog.Leaves NetvscDevice.core p) :
    Prog.Leaves NetvscDevice.settled p :=
  h.comp fun k => (k.mac, k.mtu)

theorem pollDispatch_settled (desc : VmPacketDescriptor) (raw : List UInt8) :
    Prog.Leaves NetvscDevice.settled (pollDispatch desc raw) := by
  have hmsg : ∀ msg, Prog.Leaves NetvscDevice.settled (pollMessage msg) := by
    intro msg d
    have hstore : ((d.core.store msg).mac, (d.core.store msg).mtu) = (d.mac, d.mtu) := by
      unfold Core.store
      split <;> rfl
    rw [← pollMessage_core] at hstore
    exact hstore
  by_cases ht : desc.packetType = vmPktDataUsingXferPages
  · rw [pollDispatch_xferPages ht]
    exact Prog.Leaves.get.bind fun d => (settled_of_core
      (channelSend_core _ rfl).attempt).bind fun _ => hmsg _
  by_cases ht' : desc.packetType = vmPktComp
  · rw [pollDispatch_comp ht']
    exact settled_of_core (handleCompletion_core desc raw)
  · intro d
    rw [pollDispatch_other ht ht']

/-- What holds at a control point: a request that waits for the section is the message of
its request, and what the slot holds during a wait carries the id of the request. -/
def RequestOk (k : Core) : Ctl → Prop
  | .waitSection msg (some req) => ∃ reqId, msg = req.message reqId
  | .response req => ∃ reqId, k.request = some (req.message reqId) ∧
      (k.ctrlRespReady = true → completionId k.ctrlResp = some reqId)
  | _ => True

/-- The program leaves the MAC and the MTU alone and ends at a good control point. -/
structure Continues (p : Dev Ctl) : Prop where
  settled : Prog.Leaves NetvscDevice.settled p
  ends : ∀ d c, (p d).1 = .ok c → RequestOk (p d).2.core c

theorem Continues.pure {c : Ctl} (h : ∀ k, RequestOk k c) : Continues (Pure.pure c : Dev Ctl) := by
  refine ⟨Prog.Leaves.pure c, fun d c' hc => ?_⟩
  obtain rfl := Outcome.ok.inj hc
  exact h _

theorem Continues.fail (e : HvError) : Continues (Prog.fail e) :=
  ⟨Prog.Leaves.fail e, fun _ _ h => absurd h (by simp)⟩

theorem Continues.panic : Continues Prog.panic :=
  ⟨Prog.Leaves.panic, fun _ _ h => absurd h (by simp)⟩

theorem Continues.bind {α : Type} {p : Dev α} {f : α → Dev Ctl}
    (hp : Prog.Leaves NetvscDevice.settled p) (hf : ∀ a, Continues (f a)) :
    Continues (p >>= f) := by
  refine ⟨hp.bind fun a => (hf a).settled, fun d c h => ?_⟩
  rw [Prog.bind_apply] at h ⊢
  rcases hpd : p d with ⟨_ | _ | _, d'⟩ <;> rw [hpd] at h
  · exact (hf _).ends d' c h
  · exact absurd h (by simp)
  · exact absurd h (by simp)

/-! ### Control messages -/

theorem lastRequest_wrote (log : List Event) (bytes : List UInt8) :
    lastRequest (log ++ [.wrote .control bytes]) = some bytes := by
  rw [lastRequest, List.filterMap_append]
  exact List.getLast?_concat

theorem sendControl_settled (msg : List UInt8) :
    Prog.Leaves NetvscDevice.settled (sendControl msg) := by
  unfold sendControl
  split
  · exact Prog.Leaves.panic
  · refine Prog.Leaves.bind (Prog.Leaves.modify fun _ => rfl) fun _ =>
      Prog.Leaves.get.bind fun d => ?_
    exact Prog.Leaves.bind (Prog.Leaves.modify fun _ => rfl) fun _ =>
      settled_of_core (channelSend_core _ rfl)

theorem sendControl_request (msg : List UInt8) (d : NetvscDevice)
    (h : (sendControl msg d).1 = .ok ()) : (sendControl msg d).2.core.request = some msg := by
  by_cases hlen : netvscSendBufSize < msg.length
  · rw [sendControl, if_pos hlen] at h
    exact absurd h (by simp)
  · -- the message is written, then handed over
    have hsend : sendControl msg d = send (sectionMessage 1 msg.length) d.nextTxid { d with
        sendBuf := Memory.write d.sendBuf 0 msg, log := d.log ++ [.wrote .control msg],
        sendSectionFree := false, nextTxid := d.nextTxid + 1 } := by
      rw [sendControl, if_neg hlen]
      rfl
    rw [hsend, send, channelSend_core _ rfl]
    exact lastRequest_wrote d.log msg

theorem controlSent_continues {msg : List UInt8} {next : Option Request}
    (h : ∀ req, next = some req → ∃ reqId, msg = req.message reqId) :
    Continues (controlSent msg next) := by
  cases next with
  | none => exact Continues.bind (sendControl_settled msg) fun _ => Continues.pure fun _ => trivial
  | some req =>
    refine ⟨(sendControl_settled msg).bind fun _ => Prog.Leaves.bind
      (Prog.Leaves.modify fun _ => rfl) fun _ => Prog.Leaves.pure _, fun d c hc => ?_⟩
    obtain ⟨reqId, hmsg⟩ := h req rfl
    have hreq := sendControl_request msg d
    rw [controlSent, Prog.bind_apply] at hc ⊢
    rcases hsend : sendControl msg d with ⟨_ | _ | _, d'⟩ <;> rw [hsend] at hc hreq
    · obtain rfl := Outcome.ok.inj hc
      -- the slot is emptied before the wait
      exact ⟨reqId, (hreq rfl).trans (congrArg some hmsg),
        fun hready => absurd (show false = true from hready) (by decide)⟩
    · exact absurd hc (by simp)
    · exact absurd hc (by simp)

theorem sendRndisControl_continues {msg : List UInt8} {next : Option Request}
    (h : ∀ req, next = some req → ∃ reqId, msg = req.message reqId) :
    Continues (sendRndisControl msg next) := by
  refine Continues.bind Prog.Leaves.get fun d => ?_
  split
  · exact controlSent_continues h
  · refine Continues.pure fun k => ?_
    cases next with
    | none => trivial
    | some req => exact h req rfl

theorem request_continues (req : Request) : Continues (request req.message req) := by
  refine Continues.bind Prog.Leaves.get fun d => Continues.bind (Prog.Leaves.modify fun _ => rfl)
    fun _ => sendRndisControl_continues fun req' h => ?_
  obtain rfl := Option.some_inj.mp h
  exact ⟨_, rfl⟩

/-! ### The control points of the device -/

theorem checkMtu_continues : Continues checkMtu := by
  refine Continues.bind Prog.Leaves.get fun d => ?_
  split
  · exact Continues.pure fun _ => trivial
  · exact Continues.panic

theorem finishInit_continues : Continues finishInit := by
  refine Continues.bind Prog.Leaves.get fun d => ?_
  split
  · exact Continues.bind (settled_of_core (channelSend_core _ rfl)) fun _ =>
      Continues.pure fun _ => trivial
  · exact checkMtu_continues

theorem negotiateFrom_continues (versions : List NvspVersion) :
    Continues (negotiateFrom versions) := by
  cases versions with
  | nil => exact Continues.fail _
  | cons ver rest =>
    exact Continues.bind (settled_of_core (channelSend_core _ rfl)) fun _ =>
      Continues.pure fun _ => trivial

theorem createGpadl_settled (env : Env) : Prog.Leaves NetvscDevice.settled (createGpadl env) := by
  unfold createGpadl
  cases env.gpadl with
  | ok handle => exact Prog.Leaves.pure handle
  | error e => exact Prog.Leaves.fail e

/-- A GPADL is announced to the host, which has to answer. -/
theorem announce_continues {env : Env} {msg : UInt32 → List UInt8} {transactionId : UInt64}
    {c : Ctl} (h : ∀ k, RequestOk k c) :
    Continues (createGpadl env >>= fun handle => send (msg handle) transactionId >>= fun _ =>
      pure c) :=
  Continues.bind (createGpadl_settled env) fun _ =>
    Continues.bind (settled_of_core (channelSend_core _ rfl)) fun _ => Continues.pure h

theorem onNegotiate_continues (env : Env) (ver : NvspVersion) (rest : List NvspVersion)
    (resp : Option NvspResponse) : Continues (onNegotiate env ver rest resp) := by
  have hconfig : Prog.Leaves NetvscDevice.settled (sendNdisConfig ver) := by
    unfold sendNdisConfig
    split
    · exact Prog.Leaves.pure _
    · exact settled_of_core (channelSend_core _ rfl)
  have hversion : Prog.Leaves NetvscDevice.settled (sendNdisVersion ver) := by
    unfold sendNdisVersion
    split <;> exact settled_of_core (channelSend_core _ rfl)
  unfold onNegotiate
  split
  · split
    · exact Continues.bind hconfig fun _ => Continues.bind (Prog.Leaves.modify fun _ => rfl)
        fun _ => Continues.bind hversion fun _ => announce_continues fun _ => trivial
    · exact negotiateFrom_continues rest
  · exact negotiateFrom_continues rest

theorem onRecvBuf_continues (env : Env) (resp : Option NvspResponse) :
    Continues (onRecvBuf env resp) := by
  unfold onRecvBuf
  split
  · split
    · exact announce_continues fun _ => trivial
    · exact Continues.fail _
  · exact Continues.fail _

theorem onSendBuf_continues (resp : Option NvspResponse) : Continues (onSendBuf resp) := by
  unfold onSendBuf
  split
  · split
    · exact request_continues .init
    · exact Continues.fail _
  · exact Continues.fail _

theorem finishCall_continues (call : Call) : Continues (finishCall call) := by
  cases call with
  | transmitWith frameLen f =>
    refine Continues.bind Prog.Leaves.get fun d => ?_
    split
    · exact Continues.bind (settled_of_core (transmitFrame_core frameLen f).attempt) fun _ =>
        Continues.pure fun _ => trivial
    · exact Continues.pure fun _ => trivial
  | _ => exact Continues.pure fun _ => trivial

theorem caught_continues {p : Dev Ctl} (h : Continues p) : Continues (caught p) := by
  refine ⟨h.settled.attempt.bind fun res => ?_, fun d c hc => ?_⟩
  · cases res <;> exact Prog.Leaves.pure _
  · have hends := h.ends d
    unfold caught at hc ⊢
    rw [Prog.bind_apply, Prog.attempt] at hc ⊢
    rcases hp : p d with ⟨_ | _ | _, d'⟩ <;> rw [hp] at hc hends
    · obtain rfl := Outcome.ok.inj hc
      exact hends _ rfl
    · obtain rfl := Outcome.ok.inj hc
      trivial
    · exact absurd hc (by simp)

theorem startCall_continues (call : Call) : Continues (startCall call) := by
  cases call with
  | hasTxSpace => exact Continues.pure fun _ => trivial
  | hasRxPacket => exact Continues.pure fun _ => trivial
  | transmitWith frameLen f =>
    unfold startCall
    dsimp only
    split
    · exact Continues.panic
    · refine Continues.bind Prog.Leaves.get fun d => ?_
      split
      · exact finishCall_continues _
      · exact Continues.pure fun _ => trivial
  | recvWith =>
    exact Continues.bind (settled_of_core recvWith_core) fun _ => Continues.pure fun _ => trivial
  | sendRndisControl msg =>
    exact caught_continues (sendRndisControl_continues fun _ h => absurd h (by simp))

theorem onPacket_continues (env : Env) {c : Ctl} (h : ∀ k, RequestOk k c)
    (desc : VmPacketDescriptor) (bytes : List UInt8) : Continues (onPacket env c desc bytes) := by
  cases c with
  | negotiate ver rest => exact onNegotiate_continues env ver rest _
  | recvBuf =>
    show Continues
      (if bytes.isEmpty then pure .recvBuf else onRecvBuf env (parseNvspResponse bytes))
    split
    · exact Continues.pure h
    · exact onRecvBuf_continues env _
  | sendBuf =>
    show Continues (if bytes.isEmpty then pure .sendBuf else onSendBuf (parseNvspResponse bytes))
    split
    · exact Continues.pure h
    · exact onSendBuf_continues _
  | singleQueue => exact checkMtu_continues
  | waitSection msg next =>
    exact Continues.bind (pollDispatch_settled desc bytes) fun _ => Continues.pure h
  | response req =>
    exact Continues.bind (pollDispatch_settled desc bytes) fun _ => Continues.pure h
  | drain left processed =>
    exact Continues.bind (pollDispatch_settled desc bytes) fun _ => Continues.pure fun _ => trivial
  | pump call =>
    refine Continues.bind (settled_of_core (pumpDispatch_core desc bytes)) fun more => ?_
    cases more with
    | true => exact Continues.pure h
    | false => exact finishCall_continues call
  | _ => exact Continues.pure h

/-- A wait goes on until its deadline. -/
theorem wait_continues (env : Env) {c : Ctl} (h : ∀ k, RequestOk k c) :
    Continues (if env.expired then Prog.fail .timeout else pure c) := by
  split
  · exact Continues.fail _
  · exact Continues.pure h

theorem onEmpty_continues (env : Env) {c : Ctl} (h : ∀ k, RequestOk k c) :
    Continues (onEmpty env c) := by
  cases c with
  | opened => exact negotiateFrom_continues NvspVersion.negotiateOrder
  | waitSection msg next =>
    refine Continues.bind Prog.Leaves.get fun d => ?_
    split
    · refine controlSent_continues fun req hreq => ?_
      rw [hreq] at h
      exact h ⟨[], 0, [], false, none⟩
    · exact wait_continues env h
  | response req =>
    -- at a wait for a response the slot matters
    obtain ⟨reqId, hreq, -⟩ := h ⟨[], 0, [], false, none⟩
    exact absurd hreq (by simp)
  | drain left processed =>
    show Continues (if processed ∧ 1 < left then pure (.drain (left - 1) false)
      else rndisQueryMac false)
    split
    · exact Continues.pure fun _ => trivial
    · exact request_continues (.mac false)
  | pump call => exact finishCall_continues call
  | _ => exact wait_continues env h

theorem receive_settled (c : Ctl) : Prog.Leaves NetvscDevice.settled (receive c) := by
  have hrecv : ∀ op, Prog.Leaves NetvscDevice.settled (channelRecv op) :=
    fun op => settled_of_core (channelRecv_core op)
  cases c with
  | pump call =>
    refine (hrecv _).attempt.bind fun res => ?_
    cases res <;> exact Prog.Leaves.pure _
  | opened | ready | failed e | panicked => exact Prog.Leaves.pure _
  | _ => exact hrecv _

/-- **A guest step outside a wait for a response.** -/
theorem resume_continues (env : Env) {c : Ctl} (h : ∀ k, RequestOk k c) :
    Continues (resume env c) := by
  have hadv : Continues (advance env c) := by
    refine Continues.bind (receive_settled c) fun x => ?_
    rcases x with _ | ⟨desc, bytes⟩
    · exact onEmpty_continues env h
    · exact onPacket_continues env h desc bytes
  cases c with
  | waitSection msg next =>
    cases next with
    | none => exact caught_continues hadv
    | some req => exact hadv
  | _ => exact hadv

/-! ### What is done with a response -/

/-- The request ends with this response, from the device `d`: the MAC and the MTU are
stored from the information of a query. -/
structure Handles (req : Request) (resp : Option RndisResponse) (d : NetvscDevice)
    (res : Outcome HvError Ctl × NetvscDevice) : Prop where
  ends : ∀ c, res.1 = .ok c → RequestOk res.2.core c
  mac : res.2.mac = d.mac ∨ ∃ permanent reqId status info, req = .mac permanent ∧
    resp = some (.queryComplete reqId status info) ∧ res.2.mac = info.take 6
  mtu : res.2.mtu = d.mtu ∨ ∃ reqId status info, req = .mtu ∧
    resp = some (.queryComplete reqId status info) ∧ res.2.mtu = u32At info 0

section

variable {req : Request} {resp : Option RndisResponse} {d : NetvscDevice} {p : Dev Ctl}

theorem Continues.handles (h : Continues p) (req : Request) (resp : Option RndisResponse)
    (d : NetvscDevice) : Handles req resp d (p d) :=
  ⟨h.ends d, .inl (congrArg Prod.fst (h.settled d)), .inl (congrArg Prod.snd (h.settled d))⟩

theorem onResponse_handles (req : Request) (resp : Option RndisResponse) (d : NetvscDevice) :
    Handles req resp d (onResponse req resp d) := by
  have hquery : ∀ permanent : Bool,
      Continues (if permanent then rndisQueryMtu else rndisQueryMac true) := by
    intro permanent
    split
    · exact request_continues .mtu
    · exact request_continues (.mac true)
  unfold onResponse
  split
  · split
    · exact (Continues.pure (c := .drain 10000 false) fun _ => trivial).handles _ _ d
    · exact (Continues.fail _).handles _ _ d
  · exact (Continues.fail _).handles _ _ d
  · rename_i permanent reqId status info
    split
    · -- the MAC is stored, and the next query is sent
      have hnext := (request_continues .mtu).handles (.mac permanent)
        (some (.queryComplete reqId status info)) { d with mac := info.take 6 }
      refine ⟨hnext.ends, .inr ⟨permanent, reqId, status, info, rfl, rfl, ?_⟩, ?_⟩
      · exact congrArg Prod.fst ((request_continues .mtu).settled { d with mac := info.take 6 })
      · exact hnext.mtu
    · exact (hquery permanent).handles _ _ d
  · exact (hquery _).handles _ _ d
  · rename_i reqId status info
    split
    · have hnext := (request_continues .filter).handles .mtu
        (some (.queryComplete reqId status info)) { d with mtu := u32At info 0 }
      refine ⟨hnext.ends, hnext.mac, .inr ⟨reqId, status, info, rfl, rfl, ?_⟩⟩
      exact congrArg Prod.snd ((request_continues .filter).settled { d with mtu := u32At info 0 })
    · exact (request_continues .filter).handles _ _ d
  · exact (request_continues .filter).handles _ _ d
  · exact finishInit_continues.handles _ _ d
  · exact (Continues.fail _).handles _ _ d

end

/-! ### Steps -/

/-- A guest step during the wait of a request: a packet is dispatched, or the wait goes
on or ends, or the response in the slot is handled. -/
theorem advance_response {d : NetvscDevice} (hb : Base d) (env : Env) (req : Request) :
    (∃ x rest, unread d.log = x :: rest ∧
      advance env (.response req) d = (pollDispatch x.packet.desc (x.packet.body.take rawBufLen) >>=
        fun _ => pure (.response req)) (removed x.packet d)) ∨
    (unread d.log = [] ∧ d.ctrlRespReady = true ∧
      advance env (.response req) d = (Prog.ofOption (parseRndisResponse d.ctrlResp) >>=
        onResponse req) { d with ctrlRespReady := false }) ∨
    (unread d.log = [] ∧ d.ctrlRespReady = false ∧
      advance env (.response req) d =
        (if env.expired then Prog.fail .timeout else pure (.response req) : Dev Ctl) d) := by
  rcases hx : unread d.log with _ | ⟨x, rest⟩
  · rw [advance, Prog.bind_apply, receive, tryRecvRaw_nil hb hx]
    cases hready : d.ctrlRespReady with
    | true =>
      refine .inr (.inl ⟨rfl, rfl, ?_⟩)
      simp only [onEmpty, Prog.bind_apply, Prog.get_apply, if_pos hready]
      rfl
    | false =>
      refine .inr (.inr ⟨rfl, rfl, ?_⟩)
      simp only [onEmpty, Prog.bind_apply, Prog.get_apply, hready]
      rfl
  · refine .inl ⟨x, rest, rfl, ?_⟩
    rw [advance, Prog.bind_apply, receive, tryRecvRaw_cons hb hx]
    rfl

theorem removed_core (p : Packet) (d : NetvscDevice) : (removed p d).core = d.core :=
  core_append (e := .removed p.desc) rfl rfl rfl rfl rfl rfl

/-- The slot goes on to hold a response with the id of the request. -/
theorem RequestOk.store {k : Core} {req : Request} {msg : List UInt8}
    (h : RequestOk k (.response req))
    (hmsg : ∀ reqId, completionId msg = some reqId → k.request.map requestId = some reqId) :
    RequestOk (k.store msg) (.response req) := by
  obtain ⟨reqId, hreq, hid⟩ := h
  cases hc : completionId msg with
  | none =>
    rw [Core.store_of_none hc]
    exact ⟨reqId, hreq, hid⟩
  | some reqId' =>
    rw [Core.store_of_some hc]
    refine ⟨reqId, hreq, fun _ => ?_⟩
    have heq := hmsg reqId' hc
    rw [hreq, Option.map_some, requestId_message] at heq
    exact hc.trans heq.symm

/-- The state after a program that ends at a good control point. -/
theorem requestOk_perform {p : Dev Ctl} {s : Sys}
    (h : ∀ c, (p s.dev).1 = .ok c → RequestOk (p s.dev).2.core c) :
    RequestOk (perform p s).dev.core (perform p s).ctl := by
  unfold perform
  rcases hp : p s.dev with ⟨c | _ | _, d⟩ <;> rw [hp] at h
  · exact h c rfl
  · trivial
  · trivial

/-- Outside a wait for a response the slot does not matter. -/
theorem RequestOk.congr {k : Core} {c : Ctl} (h : RequestOk k c)
    (hc : ∀ req, c ≠ .response req) (k' : Core) : RequestOk k' c := by
  cases c with
  | response req => exact absurd rfl (hc req)
  | waitSection msg next =>
    cases next with
    | none => trivial
    | some req => exact h
  | _ => trivial

structure ResponseInv (s : Sys) : Prop where
  base : Base s.dev
  request : RequestOk s.dev.core s.ctl

/-- What a step does to the MAC and the MTU. -/
structure Stores (s u : Sys) : Prop where
  mac : u.dev.mac = s.dev.mac ∨
    ∃ permanent info, Answered s (.mac permanent) info ∧ u.dev.mac = info.take 6
  mtu : u.dev.mtu = s.dev.mtu ∨ ∃ info, Answered s .mtu info ∧ u.dev.mtu = u32At info 0

theorem ResponseInv.matched {s : Sys} (hi : ResponseInv s) : Matched s := by
  intro req msg hr
  have hreq := hi.request
  rw [hr.ctl] at hreq
  obtain ⟨reqId, hlast, hid⟩ := hreq
  exact ⟨reqId, hlast, hr.resp ▸ hid hr.ready⟩

section

variable {s : Sys} {env : Env} {req : Request}

/-- A program that leaves the MAC and the MTU alone stores nothing. -/
theorem perform_settled {p : Dev Ctl} (hs : (p s.dev).2.settled = s.dev.settled)
    (ho : ∀ c, (p s.dev).1 = .ok c → RequestOk (p s.dev).2.core c) :
    RequestOk (perform p s).dev.core (perform p s).ctl ∧ Stores s (perform p s) := by
  refine ⟨requestOk_perform ho, .inl ?_, .inl ?_⟩ <;> rw [perform_dev]
  · exact congrArg Prod.fst hs
  · exact congrArg Prod.snd hs

/-- A packet is dispatched during the wait. -/
theorem ResponseInv.dispatch (hi : ResponseInv s) (hc : s.ctl = .response req)
    (hg : strayResponse s = false) {x : Posted} {rest : List Posted}
    (hx : unread s.dev.log = x :: rest) {p : Dev Ctl}
    (hp : p s.dev = (pollDispatch x.packet.desc (x.packet.body.take rawBufLen) >>=
      fun _ => pure (.response req)) (removed x.packet s.dev)) :
    RequestOk (perform p s).dev.core (perform p s).ctl ∧ Stores s (perform p s) := by
  have hreq := hi.request
  rw [hc] at hreq
  have hcore := pollDispatch_core (hi.base.removed hx) x.packet.desc
    (x.packet.body.take rawBufLen)
  have hsettled := pollDispatch_settled x.packet.desc (x.packet.body.take rawBufLen)
    (removed x.packet s.dev)
  rw [removed_core] at hcore
  have hok : RequestOk (pollDispatch x.packet.desc (x.packet.body.take rawBufLen)
      (removed x.packet s.dev)).2.core (.response req) := by
    rw [hcore]
    split
    · -- a response that is stored is not a stray one
      rename_i ht
      refine hreq.store fun reqId hid => ?_
      simpa [strayResponse, hc, next_of_unread hx, ht, messageOf, show completionId
        (parseXferPagePacket s.dev.recvBuf (x.packet.body.take rawBufLen) respBufLen) =
          some reqId from hid, NetvscDevice.core] using hg
    · exact hreq
  refine perform_settled ?_ ?_ <;> rw [hp, Prog.bind_apply]
  · rcases hpoll : pollDispatch x.packet.desc (x.packet.body.take rawBufLen)
      (removed x.packet s.dev) with ⟨_ | _ | _, d'⟩ <;> rw [hpoll] at hsettled <;> exact hsettled
  · rcases hpoll : pollDispatch x.packet.desc (x.packet.body.take rawBufLen)
      (removed x.packet s.dev) with ⟨_ | _ | _, d'⟩ <;> rw [hpoll] at hok
    · intro c hc'
      obtain rfl := Outcome.ok.inj hc'
      exact hok
    · exact fun _ h => absurd h (by simp)
    · exact fun _ h => absurd h (by simp)

/-- The response in the slot is returned. -/
theorem ResponseInv.respond (hi : ResponseInv s) (hc : s.ctl = .response req)
    (hempty : unread s.dev.log = []) (hready : s.dev.ctrlRespReady = true) {p : Dev Ctl}
    (hp : p s.dev = (Prog.ofOption (parseRndisResponse s.dev.ctrlResp) >>= onResponse req)
      { s.dev with ctrlRespReady := false }) :
    RequestOk (perform p s).dev.core (perform p s).ctl ∧ Stores s (perform p s) := by
  obtain ⟨reqId, hlast, hid⟩ := hi.matched req _ ⟨hc, hempty, hready, rfl⟩
  rcases hparse : parseRndisResponse s.dev.ctrlResp with _ | resp
  · -- the parser panics
    have hpanic : p s.dev = (.panic, { s.dev with ctrlRespReady := false }) := by
      rw [hp, hparse]
      rfl
    refine perform_settled ?_ ?_ <;> rw [hpanic]
    · rfl
    · exact fun _ h => absurd h (by simp)
  · have hres : p s.dev = onResponse req resp { s.dev with ctrlRespReady := false } := by
      rw [hp, hparse]
      rfl
    have hh := onResponse_handles req resp { s.dev with ctrlRespReady := false }
    rw [← hres] at hh
    -- a query completion in the slot has the id of the request
    have hanswered : ∀ {reqId' status info}, resp = some (.queryComplete reqId' status info) →
        Answered s req info := by
      rintro reqId' status info rfl
      rw [completionId, hparse] at hid
      obtain rfl := Option.some_inj.mp hid
      exact ⟨reqId', status, hlast, ⟨hc, hempty, hready, rfl⟩, hparse⟩
    refine ⟨requestOk_perform hh.ends, ?_, ?_⟩ <;> rw [perform_dev]
    · refine hh.mac.imp id ?_
      rintro ⟨permanent, reqId', status, info, rfl, hr, hmac⟩
      exact ⟨permanent, info, hanswered hr, hmac⟩
    · refine hh.mtu.imp id ?_
      rintro ⟨reqId', status, info, rfl, hr, hmtu⟩
      exact ⟨info, hanswered hr, hmtu⟩

/-- **A guest step** keeps what the slot holds in step with the request. -/
theorem ResponseInv.guest (hi : ResponseInv s) (hg : strayResponse s = false) {u : Sys}
    (h : step s (.guest env) = some u) : ResponseInv u ∧ Stores s u := by
  have hb : Base u.dev := base_of_step hi.base h
  simp only [step, Option.ite_none_right_eq_some, Option.some.injEq] at h
  obtain ⟨-, rfl⟩ := h
  suffices hmain : RequestOk (perform (resume env s.ctl) s).dev.core
      (perform (resume env s.ctl) s).ctl ∧ Stores s (perform (resume env s.ctl) s) from
    ⟨⟨hb, hmain.1⟩, hmain.2⟩
  by_cases hc : ∃ req, s.ctl = .response req
  · obtain ⟨req, hc⟩ := hc
    have hresume : resume env s.ctl = advance env (.response req) := by rw [hc]; rfl
    rw [hresume]
    rcases advance_response hi.base env req with
      ⟨x, rest, hx, hadv⟩ | ⟨hempty, hready, hadv⟩ | ⟨hempty, hready, hadv⟩
    · exact hi.dispatch hc hg hx hadv
    · exact hi.respond hc hempty hready hadv
    · -- the wait goes on, or its deadline has passed
      have hreq := hi.request
      rw [hc] at hreq
      refine perform_settled ?_ ?_ <;> rw [hadv]
      · cases env.expired <;> rfl
      · cases env.expired with
        | true => exact fun _ h => absurd h (by simp)
        | false =>
          intro c hc'
          obtain rfl := Outcome.ok.inj hc'
          exact hreq
  · have hcont := resume_continues env (hi.request.congr fun req hreq => hc ⟨req, hreq⟩)
    exact perform_settled (hcont.settled s.dev) (hcont.ends s.dev)

/-- **One step.** -/
theorem ResponseInv.step {a : Act} {u : Sys} (hi : ResponseInv s) (hg : AnswersRequest s a)
    (h : step s a = some u) : ResponseInv u ∧ Stores s u := by
  have hb : Base u.dev := base_of_step hi.base h
  cases a with
  | guest env => exact hi.guest hg h
  | call c =>
    obtain ⟨d, ctl⟩ := s
    cases ctl <;> simp only [Netvsc.step, reduceCtorEq, Option.some.injEq] at h
    subst h
    have hcont := startCall_continues c
    obtain ⟨hreq, hstores⟩ := perform_settled (s := ⟨d, .ready⟩) (hcont.settled d) (hcont.ends d)
    exact ⟨⟨hb, hreq⟩, hstores⟩
  | put p mem tag =>
    simp only [Netvsc.step, Option.map_eq_some_iff] at h
    obtain ⟨d, hd, rfl⟩ := h
    have hcore := hostPut_core hd
    refine ⟨⟨hb, ?_⟩, .inl (congrArg Core.mac hcore), .inl (congrArg Core.mtu hcore)⟩
    show RequestOk d.core s.ctl
    rw [hcore]
    exact hi.request
  | take =>
    simp only [Netvsc.step, Option.some.injEq] at h
    subst h
    exact ⟨⟨hb, hi.request⟩, .inl rfl, .inl rfl⟩

end

theorem responseInv_openedSys (ram : Ram) : ResponseInv (openedSys ram) :=
  ⟨base_openedDevice ram, trivial⟩

/-! ### Runs -/

theorem ReadFromAnswer.mono {ram : Ram} {l l' : List Act} {query : Request → Prop}
    {stored stored' : List UInt8 → Prop} (h : ReadFromAnswer ram l query stored) (hl : l <+: l')
    (hs : ∀ info, stored info → stored' info) : ReadFromAnswer ram l' query stored' := by
  obtain ⟨l₀, t, req, info, hl₀, ht, hq, ha, hi⟩ := h
  exact ⟨l₀, t, req, info, hl₀.trans hl, ht, hq, ha, hs info hi⟩

/-- A step whose state before it returns the answer, if it stores something. -/
theorem StoredFromAnswers.step {ram : Ram} {l : List Act} {s u : Sys} {a : Act}
    (h : StoredFromAnswers ram l s.dev) (hs : Exec step (fun _ _ => True) (openedSys ram) l s)
    (hst : Stores s u) : StoredFromAnswers ram (l ++ [a]) u.dev := by
  have hl : l <+: l ++ [a] := List.prefix_append l [a]
  constructor
  · rcases hst.mac with heq | ⟨permanent, info, hans, hmac⟩
    · rw [heq]
      exact h.mac.imp id fun hr => hr.mono hl fun _ => id
    · exact .inr ⟨l, s, .mac permanent, info, hl, hs, ⟨permanent, rfl⟩, hans, hmac⟩
  · rcases hst.mtu with heq | ⟨info, hans, hmtu⟩
    · rw [heq]
      exact h.mtu.imp id fun hr => hr.mono hl fun _ => id
    · exact .inr ⟨l, s, .mtu, info, hl, hs, rfl, hans, hmtu⟩

/-- **Responses are matched if the host's are.**  In every run in which each completion
that is read during a wait carries the id of the request that waits, what
`recv_rndis_response` returns for a request carries the id of this request, and the MAC
and the MTU come from the answers to the MAC and the MTU query. -/
theorem matched_of_answersRequest (ram : Ram) {l : List Act} {s : Sys}
    (h : Exec step AnswersRequest (openedSys ram) l s) :
    Matched s ∧ StoredFromAnswers ram l s.dev := by
  suffices hinv : ResponseInv s ∧ StoredFromAnswers ram l s.dev from
    ⟨hinv.1.matched, hinv.2⟩
  induction h with
  | nil => exact ⟨responseInv_openedSys ram, .inl rfl, .inl rfl⟩
  | snoc hr hg hs ih =>
    obtain ⟨hi, hstores⟩ := ih.1.step hg hs
    exact ⟨hi, ih.2.step (hr.mono fun _ _ _ => trivial) hstores⟩

/-- The whole of `init` with a host that answers each request once. -/
theorem matched_initPhase :
    ∃ s, Exec step AnswersRequest (openedSys { }) initPhase s ∧
      s.dev.mac = [2, 0, 0, 0, 0, 1] ∧ s.dev.mtu = 1500 ∧
      StoredFromAnswers { } initPhase s.dev := by
  obtain ⟨s, hs, hmac, hmtu⟩ : ∃ s, Exec step AnswersRequest (openedSys { }) initPhase s ∧
      s.dev.mac = [2, 0, 0, 0, 0, 1] ∧ s.dev.mtu = 1500 :=
    Exec.exists_of_run (by decide +kernel)
  exact ⟨s, hs, hmac, hmtu, (matched_of_answersRequest { } hs).2⟩

/-- `init` up to the wait for the MTU, where the host repeats its answer to the MAC
query. -/
def repeatedAnswer : List Act :=
  nvspPhase ++
    [completeTx 0, answerRndis 7 initCmplt, receives, receives, receives, receives,
      completeTx 1, answerRndis 8 (queryCmplt 2 [2, 0, 0, 0, 0, 1]), receives, receives, receives,
      completeTx 2, answerRndis 9 (queryCmplt 2 [2, 0, 0, 0, 0, 1]), receives, receives]

instance (req : Request) : (c : Ctl) → Decidable (c = .response req)
  | .response req' => decidable_of_iff (req' = req) (by simp)
  | .opened | .negotiate .. | .recvBuf | .sendBuf | .waitSection .. | .drain .. | .singleQueue |
    .ready | .pump _ | .failed _ | .panicked => .isFalse nofun

/-- The repeated answer to request 2 is returned for request 3, and the first bytes of
the MAC become the MTU. -/
theorem repeated_answer_taken :
    ∃ s u, Exec step (fun _ _ => True) (openedSys { }) repeatedAnswer s ∧
      Returning s .mtu s.dev.ctrlResp ∧ lastRequest s.dev.log = some (Request.mtu.message 3) ∧
      completionId s.dev.ctrlResp = some 2 ∧ ¬ Matched s ∧
      step s receives = some u ∧ u.dev.mtu = 2 := by
  obtain ⟨s, hs, hctl, hempty, hready, hlast, hid, hnext⟩ : ∃ s,
      Exec step (fun _ _ => True) (openedSys { }) repeatedAnswer s ∧
        s.ctl = .response .mtu ∧ unread s.dev.log = [] ∧ s.dev.ctrlRespReady = true ∧
        lastRequest s.dev.log = some (Request.mtu.message 3) ∧
        completionId s.dev.ctrlResp = some 2 ∧ ∃ u ∈ step s receives, u.dev.mtu = 2 :=
    Exec.exists_of_run (by decide +kernel)
  obtain ⟨u, hu, hmtu⟩ := hnext
  have hr : Returning s .mtu s.dev.ctrlResp := ⟨hctl, hempty, hready, rfl⟩
  refine ⟨s, u, hs, hr, hlast, hid, fun hm => ?_, hu, hmtu⟩
  obtain ⟨reqId, hlast', hid'⟩ := hm .mtu _ hr
  have h2 : reqId = 2 := Option.some_inj.mp (hid'.symm.trans hid)
  rw [hlast, h2] at hlast'
  exact absurd hlast' (by decide)

end Netvsc
