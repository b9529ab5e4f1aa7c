/-
What the programs of a NetVSC device add to its history.

Whatever the device does, its history grows by events of two kinds: those that have
nothing to do with section 0, and messages that are written to section 0 and handed over
at once.  Section 0 is what the history says was written there, and the send ring holds
the packets that the history says were sent, behind those it held before.

* `Framed` — the events come in this way, and a transmitted message is a frame behind its
  header;
* `replay` — section 0 after these events;
* `Grows` — a change of the device with the events it adds;
* `startCall_adds`, `resume_adds` — every program of the device is such a change, and
  `grows_step` is every step but a read of the host.
-/
import Embclox.NetvscFrame
import Embclox.NetvscInit

open Bytes Effect Ring Nvsp

namespace Netvsc

/-! ### Histories -/

/-- The type of the channel that a SEND_RNDIS_PKT names: 0 is for data. -/
def Sender.channelType : Sender → UInt32
  | .transmit => 0
  | .control | .keepalive => 1

/-- The event hands over what was just written, or says that the ring is full. -/
def Event.handsOverAs (sender : Sender) (bytes : List UInt8) (e : Event) : Prop :=
  e = .ringFull ∨ ∃ transactionId,
    e = .sent vmPktDataInband transactionId (sectionMessage sender.channelType bytes.length)

/-- A frame behind the header that `transmit_with` writes. -/
def IsFrame (bytes : List UInt8) : Prop :=
  ∃ frame, bytes = packetHeader frame.length ++ frame ∧
    rndisPacketHdrSize + frame.length ≤ netvscSendBufSize

inductive Framed : List Event → Prop
  | nil : Framed []
  | plain {e : Event} {log : List Event} (he : e.touchesSection = false) :
      Framed log → Framed (e :: log)
  | handed {sender : Sender} {bytes : List UInt8} {e : Event} {log : List Event}
      (hframe : sender = .transmit → IsFrame bytes) (he : e.handsOverAs sender bytes) :
      Framed log → Framed (.wrote sender bytes :: e :: log)

theorem Framed.append {log new : List Event} (h : Framed log) (h' : Framed new) :
    Framed (log ++ new) := by
  induction h with
  | nil => exact h'
  | plain he _ ih => exact .plain he ih
  | handed hframe he _ ih => exact .handed hframe he ih

theorem Framed.single {e : Event} (he : e.touchesSection = false) : Framed [e] := .plain he .nil

/-- Section 0 after the events. -/
def replay (buf : ℕ → UInt8) : List Event → ℕ → UInt8
  | [] => buf
  | .wrote _ bytes :: log => replay (Memory.write buf 0 bytes) log
  | _ :: log => replay buf log

theorem replay_cons {e : Event} (he : e.touchesSection = false) (buf : ℕ → UInt8)
    (log : List Event) : replay buf (e :: log) = replay buf log := by
  cases e with
  | wrote sender bytes => exact absurd he (by simp [Event.touchesSection])
  | _ => rfl

theorem replay_handed {sender : Sender} {bytes : List UInt8} {e : Event}
    (he : e.handsOverAs sender bytes) (buf : ℕ → UInt8) (log : List Event) :
    replay buf (.wrote sender bytes :: e :: log) = replay (Memory.write buf 0 bytes) log := by
  rcases he with rfl | ⟨transactionId, rfl⟩ <;> rfl

theorem replay_append {log : List Event} (h : Framed log) (buf : ℕ → UInt8) (new : List Event) :
    replay buf (log ++ new) = replay (replay buf log) new := by
  induction h generalizing buf with
  | nil => rfl
  | plain he _ ih => rw [List.cons_append, replay_cons he, replay_cons he, ih]
  | handed _ he _ ih =>
    rw [List.cons_append, List.cons_append, replay_handed he, replay_handed he, ih]

theorem replay_untouched {log : List Event} (h : ∀ e ∈ log, e.touchesSection = false)
    (buf : ℕ → UInt8) : replay buf log = buf := by
  induction log with
  | nil => rfl
  | cons e log ih =>
    obtain ⟨he, hlog⟩ := List.forall_mem_cons.mp h
    rw [replay_cons he, ih hlog]

/-- Type and payload of a packet that was sent. -/
def Event.sent? : Event → Option (UInt16 × List UInt8)
  | .sent packetType _ payload => some (packetType, payload)
  | _ => none

def sents (log : List Event) : List (UInt16 × List UInt8) := log.filterMap Event.sent?

theorem sents_append (log new : List Event) : sents (log ++ new) = sents log ++ sents new :=
  List.filterMap_append

/-- Type and body of a packet on the ring. -/
def typed (p : Packet) : UInt16 × List UInt8 := (p.desc.packetType, p.body)

/-- The send ring holds what it held, and behind it these packets. -/
def Appends (r r' : RingHalf) (xs : List (UInt16 × List UInt8)) : Prop :=
  ∀ q, Repr r q → ∃ q', Repr r' (q ++ q') ∧ q'.map typed = xs

theorem Appends.refl (r : RingHalf) : Appends r r [] :=
  fun q hq => ⟨[], by rwa [List.append_nil], rfl⟩

theorem Appends.trans {r r' r'' : RingHalf} {xs ys : List (UInt16 × List UInt8)}
    (h : Appends r r' xs) (h' : Appends r' r'' ys) : Appends r r'' (xs ++ ys) := by
  intro q hq
  obtain ⟨p, hp, hxs⟩ := h q hq
  obtain ⟨p', hp', hys⟩ := h' _ hp
  exact ⟨p ++ p', by rwa [← List.append_assoc], by rw [List.map_append, hxs, hys]⟩

/-! ### Changes of the device -/

structure Growth (d d' : NetvscDevice) (new : List Event) : Prop where
  log : d'.log = d.log ++ new
  framed : Framed new
  sendBuf : d'.sendBuf = replay d.sendBuf new
  send : Appends d.send d'.send (sents new)

def Grows (d d' : NetvscDevice) : Prop := ∃ new, Growth d d' new

/-- The send ring is in order. -/
def Sending (d : NetvscDevice) : Prop := ∃ q, Repr d.send q

theorem Grows.sending {d d' : NetvscDevice} (h : Grows d d') (hd : Sending d) : Sending d' := by
  obtain ⟨new, hnew⟩ := h
  obtain ⟨q, hq⟩ := hd
  obtain ⟨q', hq', -⟩ := hnew.send q hq
  exact ⟨_, hq'⟩

/-- A change of the fields that have nothing to do with sending. -/
theorem grows_quiet {d d' : NetvscDevice} (hlog : d'.log = d.log) (hbuf : d'.sendBuf = d.sendBuf)
    (hsend : d'.send = d.send) : Grows d d' := by
  refine ⟨[], by rw [hlog, List.append_nil], .nil, hbuf, ?_⟩
  rw [hsend]
  exact .refl d.send

/-- The same with an event that neither sends nor touches section 0. -/
theorem grows_event {d d' : NetvscDevice} {e : Event} (hlog : d'.log = d.log ++ [e])
    (he : e.touchesSection = false) (hnot : e.sent? = none) (hbuf : d'.sendBuf = d.sendBuf)
    (hsend : d'.send = d.send) : Grows d d' := by
  refine ⟨[e], hlog, .single he, ?_, ?_⟩
  · rw [hbuf, replay_cons he]
    rfl
  · rw [hsend, sents, List.filterMap_cons_none hnot]
    exact .refl d.send

theorem Grows.refl (d : NetvscDevice) : Grows d d := grows_quiet rfl rfl rfl

theorem Grows.trans {d d' d'' : NetvscDevice} (h : Grows d d') (h' : Grows d' d'') :
    Grows d d'' := by
  obtain ⟨new, hlog, hframed, hbuf, hsend⟩ := h
  obtain ⟨new', hlog', hframed', hbuf', hsend'⟩ := h'
  refine ⟨new ++ new', by rw [hlog', hlog, List.append_assoc], hframed.append hframed',
    by rw [hbuf', hbuf, replay_append hframed], ?_⟩
  rw [sents_append]
  exact hsend.trans hsend'

theorem grows_closed : Prog.Closed Grows Grows where
  refl := .refl
  trans h h' := h.trans h'
  fails h h' := h.trans h'
  weaken h := h

/-- However the program ends, the device has only grown. -/
abbrev Adds {α : Type} (p : Dev α) : Prop := Prog.Does Sending Grows Grows p

section

variable {α β : Type}

theorem adds_of_grows {p : Dev α} (h : ∀ d, Sending d → Grows d (p d).2) : Adds p := by
  intro d hd
  refine ⟨(h d hd).sending hd, ?_⟩
  split <;> exact h d hd

theorem Adds.grows {p : Dev α} (h : Adds p) {d : NetvscDevice} (hd : Sending d) :
    Grows d (p d).2 :=
  (h d hd).rel

theorem adds_pure (a : α) : Adds (pure a : Dev α) := Prog.Does.pure grows_closed a

theorem adds_fail (e : HvError) : Adds (Prog.fail e : Dev α) := Prog.Does.fail grows_closed e

theorem adds_panic : Adds (Prog.panic : Dev α) := Prog.Does.panic grows_closed

theorem Adds.bind {p : Dev α} {f : α → Dev β} (hp : Adds p) (hf : ∀ a, Adds (f a)) :
    Adds (p >>= f) :=
  Prog.Does.bind grows_closed hp hf

theorem Adds.attempt {p : Dev α} (hp : Adds p) : Adds (Prog.attempt p) :=
  Prog.Does.attempt grows_closed hp

theorem adds_get {f : NetvscDevice → Dev α} (h : ∀ d, Adds (f d)) : Adds (Prog.get >>= f) :=
  Prog.Does.get_bind fun d hd => h d d hd

theorem adds_ofOption (o : Option α) : Adds (Prog.ofOption o : Dev α) :=
  Prog.Does.ofOption grows_closed o

/-- A change of fields that have nothing to do with sending. -/
theorem adds_modify {f : NetvscDevice → NetvscDevice} (hlog : ∀ d, (f d).log = d.log)
    (hbuf : ∀ d, (f d).sendBuf = d.sendBuf) (hsend : ∀ d, (f d).send = d.send) :
    Adds (Prog.modify f : Dev PUnit) :=
  adds_of_grows fun d _ => grows_quiet (hlog d) (hbuf d) (hsend d)

end

/-! ### Sends and receives -/

/-- A send appends its packet, or finds the ring full.  Every payload that the device
sends fills its packet without padding. -/
theorem channelSend_appends {d : NetvscDevice} {call : SendCall} (hd : Sending d) (hfit : call.Fits)
    (hbody : call.body = call.payload) (transactionId : UInt64) :
    ∃ r e, (channelSend call.run (.sent call.desc.packetType transactionId call.payload) d).2 =
        { d with send := r, log := d.log ++ [e] } ∧
      (e = .ringFull ∨ e = .sent call.desc.packetType transactionId call.payload) ∧
      Appends d.send r (sents [e]) := by
  obtain ⟨q, hq⟩ := hd
  rcases call.run_repr hq hfit with hrun | ⟨r, -, hrun, -, -⟩
  · exact ⟨d.send, .ringFull, by simp only [channelSend, hrun], .inl rfl, .refl d.send⟩
  · refine ⟨r, _, by simp only [channelSend, hrun], .inr rfl, fun q hq => ?_⟩
    -- the ring that the call leaves is the same whatever packets it held
    rcases call.run_repr hq hfit with hrun' | ⟨r', p, hrun', hrepr, hraw⟩
    · exact absurd (hrun.symm.trans hrun') (by simp)
    · obtain rfl : r = r' := congrArg Prod.snd (hrun.symm.trans hrun')
      obtain ⟨hdesc, hbody'⟩ := Prod.mk.inj hraw
      refine ⟨[p], hrepr, ?_⟩
      rw [List.map_singleton, typed, hdesc, hbody', hbody]
      rfl

theorem channelSend_adds {call : SendCall} (hfit : call.Fits) (hbody : call.body = call.payload)
    (hplain : isSectionPacket call.desc.packetType call.payload = false) (transactionId : UInt64) :
    Adds (channelSend call.run (.sent call.desc.packetType transactionId call.payload)) := by
  refine adds_of_grows fun d hd => ?_
  obtain ⟨r, e, heq, he, happ⟩ := channelSend_appends hd hfit hbody transactionId
  have htouch : e.touchesSection = false := by
    rcases he with rfl | rfl
    · rfl
    · exact hplain
  rw [heq]
  refine ⟨[e], rfl, .single htouch, ?_, happ⟩
  rw [replay_cons htouch]
  rfl

theorem body_of_forty {payload : List UInt8} (h : payload.length = 40) (transactionId : UInt64)
    (flags : UInt16) : (SendCall.sendPacket payload transactionId flags).body = payload := by
  simp [SendCall.body, SendCall.unpadded, SendCall.extraHeader, SendCall.payload, h, align8]

/-- An NVSP message that does not refer to a section. -/
theorem nvspSend_adds (msgType : NvspMessageType) {body : List UInt8}
    (ht : msgType ≠ .sendRndisPkt) (hlen : body.length ≤ 28) (transactionId : UInt64)
    (flags : UInt16) :
    Adds (channelSend
      (sendPacket (nvspMessagePadded (nvspMessage msgType body)) transactionId flags)
      (.sent vmPktDataInband transactionId (nvspMessagePadded (nvspMessage msgType body)))) := by
  have hforty := @length_nvspMessagePadded msgType body hlen
  refine channelSend_adds (fits_of_short (Nat.le_of_eq hforty) transactionId flags)
    (body_of_forty hforty transactionId flags) ?_ transactionId
  show isSectionPacket vmPktDataInband (nvspMessagePadded (nvspMessage msgType body)) = false
  rw [isSectionPacket, u32At_nvspMessagePadded]
  cases msgType <;> first | exact absurd rfl ht | rfl

theorem sendCompletion_adds (transactionId : UInt64) :
    Adds (sendCompletion compPayload transactionId) := by
  have hlen : compPayload.length = 8 := rfl
  refine @channelSend_adds (.sendComp compPayload transactionId) ?_ ?_ rfl transactionId
  · unfold SendCall.Fits SendCall.unpadded SendCall.extraHeader SendCall.payload align8
    rw [hlen, List.length_nil]
    decide
  · simp [SendCall.body, SendCall.unpadded, SendCall.extraHeader, SendCall.payload, hlen, align8]

theorem channelRecv_adds
    (op : Prog RingHalf RingError (Option (VmPacketDescriptor × List UInt8))) :
    Adds (channelRecv op) := by
  refine adds_of_grows fun d _ => ?_
  unfold channelRecv
  split
  · exact grows_event rfl rfl rfl rfl rfl
  all_goals exact grows_quiet rfl rfl rfl

/-- A message written to section 0 and handed over, whatever happens to the flag. -/
theorem handOver_grows {d : NetvscDevice} (hd : Sending d) {sender : Sender} {bytes : List UInt8}
    (hframe : sender = .transmit → IsFrame bytes) (free : Bool) (txid transactionId : UInt64) :
    Grows d (send (sectionMessage sender.channelType bytes.length) transactionId { d with
      sendBuf := Memory.write d.sendBuf 0 bytes, log := d.log ++ [.wrote sender bytes],
      sendSectionFree := free, nextTxid := txid }).2 := by
  have hforty := length_sectionMessage sender.channelType bytes.length
  have hd' : Sending { d with
      sendBuf := Memory.write d.sendBuf 0 bytes, log := d.log ++ [.wrote sender bytes],
      sendSectionFree := free, nextTxid := txid } := hd
  obtain ⟨r, e, heq, he, happ⟩ := channelSend_appends hd'
    (fits_of_short (Nat.le_of_eq hforty) transactionId vmbusDataPacketFlagCompletionRequested)
    (body_of_forty hforty transactionId vmbusDataPacketFlagCompletionRequested) transactionId
  have hover : e.handsOverAs sender bytes := he.imp id fun h => ⟨transactionId, h⟩
  refine Eq.mpr (congrArg (Grows d) heq)
    ⟨[.wrote sender bytes, e], ?_, .handed hframe hover .nil, ?_, happ⟩
  · exact List.append_assoc _ _ _
  · rw [replay_handed hover]
    rfl

theorem sendControl_adds (msg : List UInt8) : Adds (sendControl msg) := by
  have hframe : Sender.control = .transmit → IsFrame msg := fun h => absurd h (by decide)
  unfold sendControl
  split
  · exact adds_panic
  · exact adds_of_grows fun d hd => handOver_grows hd hframe false _ _

theorem sendRndisControlInner_adds (msg : List UInt8) : Adds (sendRndisControlInner msg) := by
  have hframe : Sender.keepalive = .transmit → IsFrame msg := fun h => absurd h (by decide)
  refine adds_get fun d => ?_
  split
  · exact adds_of_grows fun d hd => handOver_grows hd hframe _ _ _
  · exact adds_fail _

theorem transmitFrame_adds {frameLen : ℕ} (hlen : rndisPacketHdrSize + frameLen ≤ netvscSendBufSize)
    (f : List UInt8 → List UInt8) : Adds (transmitFrame frameLen f) := by
  refine adds_of_grows fun d hd => ?_
  have hfilled := length_filledFrame d frameLen f
  have hframe : Sender.transmit = .transmit →
      IsFrame (packetHeader frameLen ++ filledFrame d frameLen f) :=
    fun _ => ⟨filledFrame d frameLen f, by rw [hfilled], by rwa [hfilled]⟩
  have hgrows := handOver_grows hd hframe false (d.nextTxid + 1) d.nextTxid
  rw [List.length_append, length_packetHeader, hfilled] at hgrows
  exact hgrows

/-! ### Received packets -/

theorem handleCompletion_adds (desc : VmPacketDescriptor) (raw : List UInt8) :
    Adds (handleCompletion desc raw) := by
  unfold handleCompletion
  split
  · refine adds_modify ?_ ?_ ?_ <;> exact fun _ => rfl
  · exact adds_pure _

theorem answer_adds (reqId : UInt32) :
    Adds (do let _ ← Prog.attempt (sendRndisControlInner (buildRndisKeepaliveCmplt reqId))) :=
  (sendRndisControlInner_adds _).attempt.bind fun _ => adds_pure _

theorem pollMessage_adds (buf : List UInt8) : Adds (pollMessage buf) := by
  unfold pollMessage
  split
  · exact adds_pure _
  · refine (adds_ofOption _).bind fun resp => ?_
    split
    · refine adds_modify ?_ ?_ ?_ <;> exact fun _ => rfl
    · refine adds_modify ?_ ?_ ?_ <;> exact fun _ => rfl
    · refine adds_modify ?_ ?_ ?_ <;> exact fun _ => rfl
    · exact answer_adds _
    · exact adds_pure _

theorem pollDispatch_adds (desc : VmPacketDescriptor) (raw : List UInt8) :
    Adds (pollDispatch desc raw) := by
  unfold pollDispatch
  split
  · exact adds_get fun d => (sendCompletion_adds _).attempt.bind fun _ => pollMessage_adds _
  · exact handleCompletion_adds desc raw
  · split
    · exact adds_pure _
    · split
      · exact adds_panic
      · exact adds_pure _
  · exact adds_pure _

theorem pumpMessage_adds (rx : List UInt8) : Adds (pumpMessage rx) := by
  unfold pumpMessage
  split
  · exact adds_pure _
  split
  · refine (adds_ofOption _).bind fun frame => ?_
    split
    · refine adds_modify ?_ ?_ ?_ <;> exact fun _ => rfl
    · exact adds_pure _
  split
  · refine (adds_ofOption _).bind fun resp => ?_
    split
    · exact answer_adds _
    · exact adds_pure _
  · exact adds_pure _

theorem pumpDispatch_adds (desc : VmPacketDescriptor) (raw : List UInt8) :
    Adds (pumpDispatch desc raw) := by
  unfold pumpDispatch
  split
  · refine adds_get fun d => ?_
    split
    · exact adds_pure _
    · exact (sendCompletion_adds _).attempt.bind fun _ =>
        (pumpMessage_adds _).bind fun _ => adds_pure _
  · exact (handleCompletion_adds desc raw).bind fun _ => adds_pure _
  · exact adds_pure _

theorem recvWith_adds : Adds recvWith := by
  refine adds_of_grows fun d _ => ?_
  cases hp : d.pendingRx with
  | some frame =>
    simp only [recvWith, Prog.modify, hp]
    exact grows_event rfl rfl rfl rfl rfl
  | none =>
    simp only [recvWith, Prog.modify, hp]
    exact .refl d

/-! ### `init` -/

theorem createGpadl_adds (env : Env) : Adds (createGpadl env) := by
  unfold createGpadl
  split
  · exact adds_pure _
  · exact adds_fail _

theorem negotiateFrom_adds (versions : List NvspVersion) : Adds (negotiateFrom versions) := by
  cases versions with
  | nil => exact adds_fail _
  | cons ver rest =>
    exact (nvspSend_adds .init (by decide) (by simp) _ _).bind fun _ => adds_pure _

theorem sendNdisConfig_adds (ver : NvspVersion) : Adds (sendNdisConfig ver) := by
  unfold sendNdisConfig
  split
  · exact adds_pure _
  · exact nvspSend_adds .sendNdisConfig (by decide) (by simp) _ _

theorem sendNdisVersion_adds (ver : NvspVersion) : Adds (sendNdisVersion ver) := by
  unfold sendNdisVersion
  split <;> exact nvspSend_adds .sendNdisVersion (by decide) (by simp) _ _

theorem onNegotiate_adds (env : Env) (ver : NvspVersion) (rest : List NvspVersion)
    (resp : Option NvspResponse) : Adds (onNegotiate env ver rest resp) := by
  unfold onNegotiate
  split
  · split
    · refine (sendNdisConfig_adds ver).bind fun _ => Adds.bind ?_ fun _ =>
        (sendNdisVersion_adds ver).bind fun _ => (createGpadl_adds env).bind fun handle =>
        (nvspSend_adds .sendReceiveBuffer (by decide) (by simp) _ _).bind fun _ => adds_pure _
      refine adds_modify ?_ ?_ ?_ <;> exact fun _ => rfl
    · exact negotiateFrom_adds rest
  · exact negotiateFrom_adds rest

theorem onRecvBuf_adds (env : Env) (resp : Option NvspResponse) : Adds (onRecvBuf env resp) := by
  unfold onRecvBuf
  split
  · split
    · exact (createGpadl_adds env).bind fun handle =>
        (nvspSend_adds .sendSendBuffer (by decide) (by simp) _ _).bind fun _ => adds_pure _
    · exact adds_fail _
  · exact adds_fail _

theorem controlSent_adds (msg : List UInt8) (next : Option Request) :
    Adds (controlSent msg next) := by
  refine (sendControl_adds msg).bind fun _ => ?_
  cases next with
  | none => exact adds_pure _
  | some req =>
    refine Adds.bind ?_ fun _ => adds_pure _
    refine adds_modify ?_ ?_ ?_ <;> exact fun _ => rfl

theorem sendRndisControl_adds (msg : List UInt8) (next : Option Request) :
    Adds (sendRndisControl msg next) := by
  refine adds_get fun d => ?_
  split
  · exact controlSent_adds msg next
  · exact adds_pure _

theorem request_adds (build : UInt32 → List UInt8) (req : Request) : Adds (request build req) := by
  refine adds_get fun d => Adds.bind ?_ fun _ => sendRndisControl_adds _ _
  refine adds_modify ?_ ?_ ?_ <;> exact fun _ => rfl

theorem onSendBuf_adds (resp : Option NvspResponse) : Adds (onSendBuf resp) := by
  unfold onSendBuf
  split
  · split
    · exact request_adds _ _
    · exact adds_fail _
  · exact adds_fail _

theorem checkMtu_adds : Adds checkMtu := by
  refine adds_get fun d => ?_
  split
  · exact adds_pure _
  · exact adds_panic

theorem onResponse_adds (req : Request) (resp : Option RndisResponse) :
    Adds (onResponse req resp) := by
  unfold onResponse
  split
  · split
    · exact adds_pure _
    · exact adds_fail _
  · exact adds_fail _
  · split
    · refine Adds.bind ?_ fun _ => request_adds _ _
      refine adds_modify ?_ ?_ ?_ <;> exact fun _ => rfl
    · split <;> exact request_adds _ _
  · split <;> exact request_adds _ _
  · split
    · refine Adds.bind ?_ fun _ => request_adds _ _
      refine adds_modify ?_ ?_ ?_ <;> exact fun _ => rfl
    · exact request_adds _ _
  · exact request_adds _ _
  · refine adds_get fun d => ?_
    split
    · exact (nvspSend_adds .subChannel (by decide) (by simp) _ _).bind fun _ => adds_pure _
    · exact checkMtu_adds
  · exact adds_fail _

/-! ### Calls and steps -/

/-- A call of `transmit_with` that waits has passed its check of the length. -/
def Ctl.sized : Ctl → Prop
  | .pump (.transmitWith frameLen _) => rndisPacketHdrSize + frameLen ≤ netvscSendBufSize
  | _ => True

theorem finishCall_adds {call : Call} (hcall : (Ctl.pump call).sized) : Adds (finishCall call) := by
  cases call with
  | transmitWith frameLen f =>
    refine adds_get fun d => ?_
    split
    · exact (transmitFrame_adds hcall f).attempt.bind fun _ => adds_pure _
    · exact adds_pure _
  | _ => exact adds_pure _

theorem caught_adds {p : Dev Ctl} (h : Adds p) : Adds (caught p) := by
  refine h.attempt.bind fun res => ?_
  split <;> exact adds_pure _

theorem startCall_adds (call : Call) : Adds (startCall call) := by
  cases call with
  | transmitWith frameLen f =>
    unfold startCall
    dsimp only
    split
    · exact adds_panic
    · rename_i hlen
      refine adds_get fun d => ?_
      split
      · exact finishCall_adds (Nat.not_lt.mp hlen)
      · exact adds_pure _
  | recvWith => exact recvWith_adds.bind fun _ => adds_pure _
  | sendRndisControl msg => exact caught_adds (sendRndisControl_adds msg none)
  | _ => exact adds_pure _

theorem receive_adds (c : Ctl) : Adds (receive c) := by
  cases c with
  | pump call =>
    refine (channelRecv_adds _).attempt.bind fun res => ?_
    split <;> exact adds_pure _
  | opened | ready | failed | panicked => exact adds_pure _
  | _ => exact channelRecv_adds _

theorem onPacket_adds {env : Env} {c : Ctl} (hc : c.sized) (desc : VmPacketDescriptor)
    (bytes : List UInt8) : Adds (onPacket env c desc bytes) := by
  cases c with
  | negotiate ver rest => exact onNegotiate_adds env ver rest _
  | recvBuf =>
    show Adds (if bytes.isEmpty then pure .recvBuf else onRecvBuf env (parseNvspResponse bytes))
    split
    · exact adds_pure _
    · exact onRecvBuf_adds env _
  | sendBuf =>
    show Adds (if bytes.isEmpty then pure .sendBuf else onSendBuf (parseNvspResponse bytes))
    split
    · exact adds_pure _
    · exact onSendBuf_adds _
  | singleQueue => exact checkMtu_adds
  | waitSection | response | drain => exact (pollDispatch_adds desc bytes).bind fun _ => adds_pure _
  | pump call =>
    refine (pumpDispatch_adds desc bytes).bind fun more => ?_
    split
    · exact adds_pure _
    · exact finishCall_adds hc
  | _ => exact adds_pure _

theorem onEmpty_adds {env : Env} {c : Ctl} (hc : c.sized) : Adds (onEmpty env c) := by
  -- a wait goes on until its deadline
  have hwait : ∀ c' : Ctl, Adds (if env.expired then Prog.fail .timeout else pure c') := by
    intro c'
    split
    · exact adds_fail _
    · exact adds_pure c'
  cases c with
  | opened => exact negotiateFrom_adds _
  | waitSection msg next =>
    refine adds_get fun d => ?_
    split
    · exact controlSent_adds msg next
    · exact hwait _
  | response req =>
    refine adds_get fun d => ?_
    split
    · refine Adds.bind ?_ fun _ => (adds_ofOption _).bind fun resp => onResponse_adds req resp
      refine adds_modify ?_ ?_ ?_ <;> exact fun _ => rfl
    · exact hwait _
  | drain left processed =>
    unfold onEmpty
    dsimp only
    split
    · exact adds_pure _
    · exact request_adds _ _
  | pump call => exact finishCall_adds hc
  | _ => exact hwait _

theorem resume_adds {env : Env} {c : Ctl} (hc : c.sized) : Adds (resume env c) := by
  have hadv : Adds (advance env c) := by
    refine (receive_adds c).bind fun x => ?_
    split
    · exact onPacket_adds hc _ _
    · exact onEmpty_adds hc
  cases c with
  | waitSection msg next =>
    cases next with
    | none => exact caught_adds hadv
    | some req => exact hadv
  | _ => exact hadv

/-! ### The length of a frame that waits -/

theorem Ctl.sized_of_inCall {c : Ctl} (h : c.inCall = false) : c.sized := by
  cases c with
  | pump call => exact absurd h (by simp [Ctl.inCall])
  | _ => trivial

theorem finishCall_sized (call : Call) : Prog.Returns Ctl.sized (finishCall call) := by
  cases call with
  | transmitWith frameLen f =>
    refine Prog.Returns.bind fun d => ?_
    split
    · exact Prog.Returns.bind fun _ => Prog.Returns.pure trivial
    · exact Prog.Returns.pure trivial
  | _ => exact Prog.Returns.pure trivial

theorem caught_sized {p : Dev Ctl} (h : Prog.Returns Ctl.sized p) :
    Prog.Returns Ctl.sized (caught p) := by
  intro d c hc
  rw [caught, Prog.bind_apply, Prog.attempt] at hc
  rcases hp : p d with ⟨c' | e | _, d'⟩ <;> rw [hp] at hc
  · obtain rfl : c' = c := Outcome.ok.inj hc
    exact h d c' (by rw [hp])
  · obtain rfl : Ctl.ready = c := Outcome.ok.inj hc
    trivial
  · exact absurd hc (by simp)

theorem sendRndisControl_sized (msg : List UInt8) :
    Prog.Returns Ctl.sized (sendRndisControl msg none) := by
  refine Prog.Returns.bind fun d => ?_
  split
  · exact Prog.Returns.bind fun _ => Prog.Returns.pure trivial
  · exact Prog.Returns.pure trivial

theorem startCall_sized (call : Call) : Prog.Returns Ctl.sized (startCall call) := by
  cases call with
  | transmitWith frameLen f =>
    unfold startCall
    dsimp only
    split
    · exact Prog.Returns.panic
    · rename_i hlen
      refine Prog.Returns.bind fun d => ?_
      split
      · exact finishCall_sized _
      · exact Prog.Returns.pure (Nat.not_lt.mp hlen)
  | recvWith => exact Prog.Returns.bind fun _ => Prog.Returns.pure trivial
  | sendRndisControl msg => exact caught_sized (sendRndisControl_sized msg)
  | _ => exact Prog.Returns.pure trivial

/-- Inside a call, the guest goes on with it or returns. -/
theorem advance_sized {env : Env} {c : Ctl} (hcall : c.inCall = true) (hc : c.sized) :
    Prog.Returns Ctl.sized (advance env c) := by
  refine Prog.Returns.bind fun x => ?_
  cases c with
  | pump call =>
    rcases x with _ | ⟨desc, bytes⟩
    · exact finishCall_sized call
    · refine Prog.Returns.bind fun more => ?_
      split
      · exact Prog.Returns.pure hc
      · exact finishCall_sized call
  | waitSection msg next =>
    cases next with
    | some req => exact absurd hcall (by simp [Ctl.inCall])
    | none =>
      rcases x with _ | ⟨desc, bytes⟩
      · refine Prog.Returns.bind fun d => ?_
        split
        · exact Prog.Returns.bind fun _ => Prog.Returns.pure trivial
        · split
          · exact Prog.Returns.fail _
          · exact Prog.Returns.pure trivial
      · exact Prog.Returns.bind fun _ => Prog.Returns.pure trivial
  | _ => exact absurd hcall (by simp [Ctl.inCall])

theorem sized_resume {env : Env} {s : Sys} (hs : s.ctl.sized) :
    (perform (resume env s.ctl) s).ctl.sized := by
  rcases hcall : s.ctl.inCall with _ | _
  · exact Ctl.sized_of_inCall (inCall_resume hcall)
  · have hadv : Prog.Returns Ctl.sized (advance env s.ctl) := advance_sized hcall hs
    refine ctl_perform ?_ (fun _ => trivial) trivial s
    generalize s.ctl = c at hcall hadv
    cases c with
    | waitSection msg next =>
      cases next with
      | none => exact caught_sized hadv
      | some req => exact hadv
    | _ => exact hadv

section

variable {s u : Sys} {a : Act}

theorem sized_step (hs : s.ctl.sized) (h : step s a = some u) : u.ctl.sized := by
  cases a with
  | guest env =>
    simp only [step, Option.ite_none_right_eq_some, Option.some.injEq] at h
    obtain ⟨-, rfl⟩ := h
    exact sized_resume hs
  | call c =>
    obtain ⟨d, ctl⟩ := s
    cases ctl <;> simp only [step, reduceCtorEq, Option.some.injEq] at h
    obtain rfl := h
    exact ctl_perform (startCall_sized c) (fun _ => trivial) trivial _
  | put p mem tag =>
    obtain ⟨r, rfl⟩ := step_put h
    exact hs
  | take =>
    obtain rfl := Option.some.inj h
    exact hs

/-- **The device only grows**, except where the host reads the send ring. -/
theorem grows_step (hd : Sending s.dev) (hs : s.ctl.sized) (ha : a ≠ .take)
    (h : step s a = some u) : Grows s.dev u.dev := by
  cases a with
  | guest env =>
    simp only [step, Option.ite_none_right_eq_some, Option.some.injEq] at h
    obtain ⟨-, rfl⟩ := h
    rw [perform_dev]
    exact (resume_adds hs).grows hd
  | call c =>
    obtain ⟨d, ctl⟩ := s
    cases ctl <;> simp only [step, reduceCtorEq, Option.some.injEq] at h
    obtain rfl := h
    rw [perform_dev]
    exact (startCall_adds c).grows hd
  | put p mem tag =>
    obtain ⟨r, rfl⟩ := step_put h
    exact grows_event rfl rfl rfl rfl rfl
  | take => exact absurd rfl ha

end

end Netvsc
