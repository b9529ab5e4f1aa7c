/-
Sends that fail because the send ring is full.

`transmit_with` and `send_rndis_control` mark section 0 as used and then hand their
message to the ring.  If the ring has no room, the mark stays: no completion will ever
come for a packet that was not sent, and every later call finds the section in use.

* `lastSend` — what became of the last message that a caller wrote to section 0;
* `handsOver s a` — the step hands such a message to the ring;
* `step_spec` — every other step of a call leaves the section as it is;
* `harmless_iff` — in the run of a call, a failed send leaves the section flag as it was
  exactly if every step that hands a message over finds room for it;
* `section_stranded` — a send fails, the ring empties, and the next send still does not
  go out.
-/
import Embclox.NetvscLoops
import Embclox.NetvscSteps

open Bytes Effect Ring Nvsp Run

namespace Netvsc

/-! ### What became of the last message -/

/-- The room that the message for section 0 takes on the send ring: a descriptor, the
padded NVSP message and the trailer. -/
def sectionTotal : ℕ := align8 (16 + nvspMessageSize) + 8

/-- The send ring reports `Full` for such a message. -/
def sectionFull (r : RingHalf) : Bool :=
  match sendAvail r with
  | some avail => decide (avail ≤ sectionTotal)
  | none => false

/-- The send ring takes such a message. -/
def SectionRoom (r : RingHalf) : Prop := ∃ avail, sendAvail r = some avail ∧ sectionTotal < avail

theorem SectionRoom.not_full {r : RingHalf} (h : SectionRoom r) : sectionFull r = false := by
  obtain ⟨avail, havail, hlt⟩ := h
  rw [sectionFull, havail]
  exact decide_eq_false (Nat.not_le.mpr hlt)

inductive LastSend
  /-- No caller has written a message. -/
  | none
  /-- The message is in section 0, and nothing has happened since. -/
  | written
  | handed
  /-- The ring was full. -/
  | failed
  deriving DecidableEq

def LastSend.next (st : LastSend) (e : Event) : LastSend :=
  if e.isUse then .written
  else if st = .written then
    match e with
    | .ringFull => .failed
    | .sent _ _ _ => .handed
    | _ => .written
  else st

/-- What became of the last message of `send_rndis_control` or `transmit_with`. -/
def lastSend (log : List Event) : LastSend := log.foldl LastSend.next .none

theorem lastSend_append (log new : List Event) :
    lastSend (log ++ new) = new.foldl LastSend.next (lastSend log) :=
  List.foldl_append

theorem next_of_ne {st : LastSend} {e : Event} (hst : st ≠ .written) (he : e.isUse = false) :
    st.next e = st := by
  unfold LastSend.next
  rw [he, if_neg Bool.false_ne_true, if_neg hst]

/-- Only a message of a caller changes what became of the last one. -/
theorem foldl_quiet {st : LastSend} {new : List Event} (hst : st ≠ .written)
    (hnew : ∀ e ∈ new, e.isUse = false) : new.foldl LastSend.next st = st := by
  induction new with
  | nil => rfl
  | cons e new ih =>
    rw [List.foldl_cons, next_of_ne hst (hnew e List.mem_cons_self)]
    exact ih fun e' he' => hnew e' (List.mem_cons_of_mem e he')

section

variable {log : List Event} {use : Event}

theorem lastSend_written (huse : use.isUse = true) : lastSend (log ++ [use]) = .written := by
  rw [lastSend_append, List.foldl_cons, List.foldl_nil]
  unfold LastSend.next
  rw [if_pos huse]

theorem lastSend_failed (huse : use.isUse = true) :
    lastSend (log ++ [use, .ringFull]) = .failed := by
  have hwritten : lastSend (log ++ [use]) = .written := lastSend_written huse
  rw [List.append_cons, lastSend_append, hwritten]
  rfl

theorem lastSend_handed (huse : use.isUse = true) (kind : UInt16) (transactionId : UInt64)
    (payload : List UInt8) :
    lastSend (log ++ [use, .sent kind transactionId payload]) = .handed := by
  have hwritten : lastSend (log ++ [use]) = .written := lastSend_written huse
  rw [List.append_cons, lastSend_append, hwritten]
  rfl

end

/-! ### Handing a message over -/

theorem send_cases (channelType : UInt32) (len : ℕ) (transactionId : UInt64) (d : NetvscDevice) :
    (sendAvail d.send = none ∧
      send (sectionMessage channelType len) transactionId d = (.panic, d)) ∨
    (sectionFull d.send = true ∧ send (sectionMessage channelType len) transactionId d =
      (.err (.hypercallFailed 0xFFFF), { d with log := d.log ++ [.ringFull] })) ∨
    (SectionRoom d.send ∧ ∃ r, send (sectionMessage channelType len) transactionId d =
      (.ok (), { d with
        send := r
        log := d.log ++
          [.sent vmPktDataInband transactionId (sectionMessage channelType len)] })) := by
  have htotal : align8 (16 + (sectionMessage channelType len).length) + 8 = sectionTotal := by
    rw [length_sectionMessage]
    rfl
  rcases havail : sendAvail d.send with _ | avail
  · refine .inl ⟨rfl, ?_⟩
    simp only [send, channelSend, sendPacket, sendWith, havail]
  · by_cases hfull : avail ≤ sectionTotal
    · refine .inr (.inl ⟨by rw [sectionFull, havail]; exact decide_eq_true hfull, ?_⟩)
      simp only [send, channelSend, sendPacket, sendWith, havail, htotal, if_pos hfull]
    · refine .inr (.inr ⟨⟨avail, havail, Nat.not_le.mp hfull⟩, ?_⟩)
      simp only [send, channelSend, sendPacket, sendWith, havail, htotal, if_neg hfull]
      exact ⟨_, rfl⟩

/-- How the attempt to hand a message over ends, from the device `d`. -/
def Attempted (sender : Sender) (d : NetvscDevice) (x : Outcome HvError Unit × NetvscDevice) :
    Prop :=
  ∃ bytes,
    (sendAvail d.send = none ∧ x.1 = .panic ∧ x.2.log = d.log ++ [.wrote sender bytes]) ∨
    (sectionFull d.send = true ∧ x.1 = .err (.hypercallFailed 0xFFFF) ∧
      x.2.log = d.log ++ [.wrote sender bytes, .ringFull] ∧ x.2.sendSectionFree = false) ∨
    (SectionRoom d.send ∧ x.1 = .ok () ∧ ∃ kind transactionId payload,
      x.2.log = d.log ++ [.wrote sender bytes, .sent kind transactionId payload])

/-- The message is written and the section marked before the ring is asked. -/
theorem attempted_of_send {sender : Sender} {d : NetvscDevice} {bytes : List UInt8}
    {buf : ℕ → UInt8} {txid transactionId : UInt64} {channelType : UInt32} {len : ℕ}
    {x : Outcome HvError Unit × NetvscDevice}
    (hx : x = send (sectionMessage channelType len) transactionId { d with
      sendBuf := buf, log := d.log ++ [.wrote sender bytes], sendSectionFree := false,
      nextTxid := txid }) : Attempted sender d x := by
  rcases send_cases channelType len transactionId { d with
      sendBuf := buf, log := d.log ++ [.wrote sender bytes], sendSectionFree := false,
      nextTxid := txid } with ⟨hnone, heq⟩ | ⟨hfull, heq⟩ | ⟨hroom, r, heq⟩
  · refine ⟨bytes, .inl ⟨hnone, ?_, ?_⟩⟩ <;> rw [hx, heq]
  · refine ⟨bytes, .inr (.inl ⟨hfull, ?_, ?_, ?_⟩)⟩ <;> rw [hx, heq]
    exact List.append_assoc _ _ _
  · refine ⟨bytes, .inr (.inr ⟨hroom, ?_, vmPktDataInband, transactionId,
      sectionMessage channelType len, ?_⟩)⟩ <;> rw [hx, heq]
    exact List.append_assoc _ _ _

theorem transmitFrame_attempted (frameLen : ℕ) (f : List UInt8 → List UInt8) (d : NetvscDevice) :
    Attempted .transmit d (transmitFrame frameLen f d) :=
  attempted_of_send rfl

theorem sendControl_attempted {msg : List UInt8} (hlen : ¬ netvscSendBufSize < msg.length)
    (d : NetvscDevice) : Attempted .control d (sendControl msg d) := by
  rw [sendControl, if_neg hlen]
  exact attempted_of_send rfl

/-- The system after a step that handed a message to the ring `r`. -/
def Over (r : RingHalf) (u : Sys) : Prop :=
  (sendAvail r = none ∧ u.ctl = .panicked ∧ lastSend u.dev.log = .written) ∨
  (sectionFull r = true ∧ u.ctl = .ready ∧ lastSend u.dev.log = .failed ∧
    u.dev.sendSectionFree = false) ∨
  (SectionRoom r ∧ u.ctl = .ready ∧ lastSend u.dev.log = .handed)

/-- A call that goes back to its caller with the outcome of the attempt. -/
theorem Attempted.toOver {sender : Sender} {d : NetvscDevice} {p : Dev Unit} {k : Dev Ctl} {s : Sys}
    (hsender : ∀ bytes, (Event.wrote sender bytes).isUse = true) (h : Attempted sender d (p d))
    (hk : k s.dev = (do let _ ← Prog.attempt p; return .ready : Dev Ctl) d) :
    Over d.send (perform k s) := by
  unfold perform
  rw [hk, Prog.bind_apply, Prog.attempt]
  rcases h with ⟨bytes,
    ⟨hnone, ho, hlog⟩ | ⟨hfull, ho, hlog, hfree⟩ | ⟨hroom, ho, kind, txid, payload, hlog⟩⟩
  · rw [show p d = (.panic, (p d).2) from Prod.ext ho rfl]
    refine .inl ⟨hnone, rfl, ?_⟩
    show lastSend (p d).2.log = _
    rw [hlog]
    exact lastSend_written (hsender bytes)
  · rw [show p d = (.err (.hypercallFailed 0xFFFF), (p d).2) from Prod.ext ho rfl]
    refine .inr (.inl ⟨hfull, rfl, ?_, hfree⟩)
    show lastSend (p d).2.log = _
    rw [hlog]
    exact lastSend_failed (hsender bytes)
  · rw [show p d = (.ok (), (p d).2) from Prod.ext ho rfl]
    refine .inr (.inr ⟨hroom, rfl, ?_⟩)
    show lastSend (p d).2.log = _
    rw [hlog]
    exact lastSend_handed (hsender bytes) kind txid payload

/-! ### The steps of a call -/

theorem Calm.taken (d : NetvscDevice) : Calm d (taken d) := ⟨[_], rfl, by simp [Event.isUse]⟩

theorem Calm.lastSend_eq {d d' : NetvscDevice} (h : Calm d d') (hd : lastSend d.log ≠ .written) :
    lastSend d'.log = lastSend d.log := by
  obtain ⟨new, hlog, hnew⟩ := h
  rw [hlog, lastSend_append, foldl_quiet hd hnew]

/-- `pump_channel` ends with the next receive: the ring is empty or rejected, or the
packet comes behind a frame that is still pending. -/
def pumpEnds (d : NetvscDevice) : Bool :=
  (recvAvail d.recv).isSome && (!accepts d.recv ||
    (VmbusPacketType.fromU16 (header d.recv).packetType == some .dataUsingXferPages &&
      d.pendingRx.isSome))

/-- The step hands a message of a caller to the send ring. -/
def handsOver (s : Sys) : Act → Bool
  | .call (.transmitWith frameLen _) =>
      s.dev.sendSectionFree && decide (rndisPacketHdrSize + frameLen ≤ netvscSendBufSize)
  | .call (.sendRndisControl msg) =>
      s.dev.sendSectionFree && decide (msg.length ≤ netvscSendBufSize)
  | .guest _ =>
      match s.ctl with
      | .pump (.transmitWith _ _) => s.dev.sendSectionFree && pumpEnds s.dev
      | .waitSection msg none => s.dev.sendSectionFree && decide (recvAvail s.dev.recv = some 0) &&
          decide (msg.length ≤ netvscSendBufSize)
      | _ => false
  | _ => false

section

variable {d : NetvscDevice} {env : Env} {call : Call}

/-- The loop goes on with every packet that does not come behind a pending frame. -/
theorem pumpDispatch_goesOn {desc : VmPacketDescriptor} {raw : List UInt8}
    (h : VmbusPacketType.fromU16 desc.packetType = some .dataUsingXferPages →
      d.pendingRx.isSome = false) : (pumpDispatch desc raw d).1 ≠ .ok false := by
  by_cases hx : VmbusPacketType.fromU16 desc.packetType = some .dataUsingXferPages
  · have hreturns : Prog.Returns (fun b => b = true) (do
        let _ ← Prog.attempt (sendCompletion compPayload desc.transactionId)
        pumpMessage (parseXferPagePacket d.recvBuf raw rxFrameMax)
        return true : Dev Bool) :=
      Prog.Returns.bind fun _ => Prog.Returns.bind fun _ => Prog.Returns.pure rfl
    rw [pumpDispatch, hx]
    dsimp only
    rw [Prog.get_bind, if_neg (by rw [h hx]; exact Bool.false_ne_true)]
    exact fun hfalse => Bool.false_ne_true (hreturns d false hfalse)
  · obtain ⟨free, heq⟩ := @pumpDispatch_skips desc raw d hx
    rw [heq]
    simp

/-- The last receive of `pump_channel`. -/
theorem advance_pumpEnds (h : pumpEnds d = true) :
    ∃ d', advance env (.pump call) d = finishCall call d' ∧ d'.send = d.send ∧
      d'.sendSectionFree = d.sendSectionFree ∧ Calm d d' := by
  unfold pumpEnds at h
  rcases tryRecvRaw_cases rawBufLen d with ⟨hacc, raw, hraw⟩ | ⟨hacc, hnothing⟩
  · -- a packet behind a pending frame
    rw [hacc] at h
    obtain ⟨-, hx, hp⟩ : _ ∧ VmbusPacketType.fromU16 (header d.recv).packetType =
        some .dataUsingXferPages ∧ d.pendingRx.isSome = true := by simpa using h
    have hround : pumpRound d = (.ok false, taken d) :=
      (pumpRound_of_packet hraw).trans (pumpDispatch_stops hx hp)
    exact ⟨taken d, advance_pumpRound env call hround, rfl, rfl, Calm.taken d⟩
  · have hreceive : receive (.pump call) d = (.ok none, d) := by
      rcases hnothing with ⟨-, heq⟩ | ⟨-, e, heq⟩ | ⟨hnone, -⟩
      · exact receive_pump call heq
      · exact receive_pump_err call heq
      · rw [hnone] at h
        exact absurd h Bool.false_ne_true
    refine ⟨d, ?_, rfl, rfl, Calm.refl d⟩
    rw [advance, Prog.bind_apply, hreceive]
    rfl

/-- Any other receive of it. -/
theorem advance_pumpOn (h : pumpEnds d = false) :
    (∀ c, (advance env (.pump call) d).1 = .ok c → c = .pump call) ∧
      Calm d (advance env (.pump call) d).2 := by
  unfold pumpEnds at h
  rcases tryRecvRaw_cases rawBufLen d with ⟨hacc, raw, hraw⟩ | ⟨hacc, hnothing⟩
  · obtain ⟨avail, havail, -⟩ := accepts_bounds hacc
    rw [hacc, havail] at h
    have hgoes : (pumpDispatch (header d.recv) raw (taken d)).1 ≠ .ok false := by
      refine pumpDispatch_goesOn fun hx => ?_
      simpa [hx, taken] using h
    have hquiet := (pumpDispatch_quiet (header d.recv) raw).at (taken d)
    rw [advance, Prog.bind_apply, receive_pump call hraw]
    dsimp only
    rw [onPacket, Prog.bind_apply]
    generalize pumpDispatch (header d.recv) raw (taken d) = x at hgoes hquiet
    rcases x with ⟨(_ | _) | _ | _, d'⟩
    · exact absurd rfl hgoes
    · exact ⟨fun c hc => by simpa using hc.symm, (Calm.taken d).trans hquiet.log⟩
    · exact ⟨fun c hc => by simp at hc, (Calm.taken d).trans hquiet.log⟩
    · exact ⟨fun c hc => by simp at hc, (Calm.taken d).trans hquiet.log⟩
  · -- the receive panics
    rcases hnothing with ⟨hzero, -⟩ | ⟨⟨avail, -, havail⟩, -⟩ | ⟨-, heq⟩
    · rw [hzero, hacc] at h
      exact absurd h (by simp)
    · rw [havail, hacc] at h
      exact absurd h (by simp)
    · have hreceive : receive (.pump call) d = (.panic, d) := by
        rw [receive, Prog.bind_apply, Prog.attempt, heq]
      rw [advance, Prog.bind_apply, hreceive]
      exact ⟨fun c hc => by simp at hc, Calm.refl d⟩

/-- The receive of `wait_for_send_section_async` before which the message goes out. -/
theorem advance_waitEnds {msg : List UInt8} (hfree : d.sendSectionFree = true)
    (hzero : recvAvail d.recv = some 0) :
    advance env (.waitSection msg none) d = controlSent msg none d := by
  have hreceive : receive (.waitSection msg none) d = (.ok none, d) := by
    show tryRecvRaw rawBufLen d = _
    simp only [tryRecvRaw, channelRecv, recvPacketRaw, Ring.recvWith, hzero, if_pos]
  rw [advance, Prog.bind_apply, hreceive]
  dsimp only
  rw [onEmpty, Prog.get_bind, if_pos hfree]

/-- Any other receive of it. -/
theorem advance_waitOn {msg : List UInt8}
    (h : ¬ (d.sendSectionFree = true ∧ recvAvail d.recv = some 0)) :
    (∀ c, (advance env (.waitSection msg none) d).1 = .ok c → c = .waitSection msg none) ∧
      Calm d (advance env (.waitSection msg none) d).2 := by
  have hreceive : receive (.waitSection msg none) d = tryRecvRaw rawBufLen d := rfl
  rw [advance, Prog.bind_apply, hreceive]
  rcases tryRecvRaw_cases rawBufLen d with
    ⟨-, raw, hraw⟩ | ⟨-, ⟨hzero, heq⟩ | ⟨-, e, heq⟩ | ⟨-, heq⟩⟩
  · have hquiet := (pollDispatch_quiet (header d.recv) raw).at (taken d)
    rw [hraw]
    dsimp only
    rw [onPacket, Prog.bind_apply]
    generalize pollDispatch (header d.recv) raw (taken d) = x at hquiet
    rcases x with ⟨_ | _ | _, d'⟩
    · exact ⟨fun c hc => by simpa using hc.symm, (Calm.taken d).trans hquiet.log⟩
    · exact ⟨fun c hc => by simp at hc, (Calm.taken d).trans hquiet.log⟩
    · exact ⟨fun c hc => by simp at hc, (Calm.taken d).trans hquiet.log⟩
  · rw [heq]
    dsimp only
    rw [onEmpty, Prog.get_bind, if_neg fun hfree => h ⟨hfree, hzero⟩]
    by_cases hexp : env.expired = true
    · rw [if_pos hexp]
      exact ⟨fun c hc => by simp at hc, Calm.refl d⟩
    · rw [if_neg hexp]
      exact ⟨fun c hc => by simpa using hc.symm, Calm.refl d⟩
  · rw [heq]
    exact ⟨fun c hc => by simp at hc, Calm.refl d⟩
  · rw [heq]
    exact ⟨fun c hc => by simp at hc, Calm.refl d⟩

theorem caught_congr {p q : Dev Ctl} (h : p d = q d) : caught p d = caught q d := by
  rw [caught, caught, Prog.bind_apply, Prog.bind_apply, Prog.attempt, Prog.attempt, h]

/-- What `caught` makes of a program. -/
theorem caught_cases (p : Dev Ctl) (d : NetvscDevice) :
    (caught p d).2 = (p d).2 ∧
      ∀ c, (caught p d).1 = .ok c → (p d).1 = .ok c ∨ c = .ready := by
  rw [caught, Prog.bind_apply, Prog.attempt]
  rcases p d with ⟨_ | _ | _, d'⟩
  · exact ⟨rfl, fun c hc => .inl hc⟩
  · exact ⟨rfl, fun c hc => .inr (by simpa using hc.symm)⟩
  · exact ⟨rfl, fun c hc => by simp at hc⟩

end

/-! ### Handing over at the end of a call -/

section

variable {d : NetvscDevice} {k : Dev Ctl} {s : Sys}

theorem over_of_finishCall {frameLen : ℕ} {f : List UInt8 → List UInt8}
    (hfree : d.sendSectionFree = true) (hk : k s.dev = finishCall (.transmitWith frameLen f) d) :
    Over d.send (perform k s) := by
  refine (transmitFrame_attempted frameLen f d).toOver (fun _ => rfl) ?_
  rw [hk, finishCall, Prog.get_bind, if_pos hfree]

theorem over_of_control {msg : List UInt8} (hlen : ¬ netvscSendBufSize < msg.length)
    (hk : k s.dev = caught (controlSent msg none) d) : Over d.send (perform k s) := by
  refine (sendControl_attempted hlen d).toOver (fun _ => rfl) ?_
  rw [hk, caught, controlSent, Prog.bind_apply, Prog.bind_apply, Prog.attempt, Prog.attempt,
    Prog.bind_apply]
  rcases sendControl msg d with ⟨_ | _ | _, d'⟩ <;> rfl

/-- A control message that does not fit in the section. -/
theorem caught_controlSent_long {msg : List UInt8} (hlen : netvscSendBufSize < msg.length) :
    caught (controlSent msg none) d = (.panic, d) := by
  rw [caught, Prog.bind_apply, Prog.attempt, controlSent, Prog.bind_apply, sendControl,
    if_pos hlen]
  rfl

end

/-! ### Every step of a call -/

/-- A control point between calls, inside one, or after the guest has stopped. -/
def Ctl.isCall (c : Ctl) : Prop := c.inCall = true ∨ c.running = false

/-- The step from `s` to `u` keeps to its call; if it hands a message over, that ends
the call. -/
def KeepsTo (b : Bool) (s u : Sys) : Prop :=
  u.ctl.isCall ∧ if b = true then Over s.dev.send u else Calm s.dev u.dev

theorem Over.isCall {r : RingHalf} {u : Sys} (h : Over r u) : u.ctl.isCall := by
  rcases h with ⟨-, hctl, -⟩ | ⟨-, hctl, -⟩ | ⟨-, hctl, -⟩ <;> rw [hctl] <;> exact .inr rfl

theorem Over.keepsTo {s u : Sys} {b : Bool} (h : Over s.dev.send u) (hover : b = true) :
    KeepsTo b s u :=
  ⟨h.isCall, by rwa [if_pos hover]⟩

theorem Calm.keepsTo {s : Sys} {p : Dev Ctl} {b : Bool} (h : Calm s.dev (p s.dev).2)
    (hc : ∀ c, (p s.dev).1 = .ok c → c.isCall) (hover : b = false) :
    KeepsTo b s (perform p s) := by
  constructor
  · unfold perform
    rcases hp : p s.dev with ⟨c | _ | _, d⟩
    · exact hc c (by rw [hp])
    · exact .inr rfl
    · exact .inr rfl
  · rw [if_neg (by rw [hover]; exact Bool.false_ne_true), perform_dev]
    exact h

theorem isCall_of_ok {c c' : Ctl} (h : c.isCall) (heq : (.ok c : Outcome HvError Ctl) = .ok c') :
    c'.isCall := by
  obtain rfl : c = c' := by simpa using heq
  exact h

/-- A step that does nothing but go to a control point. -/
theorem keepsTo_still {s : Sys} {p : Dev Ctl} {o : Outcome HvError Ctl} {b : Bool}
    (heq : p s.dev = (o, s.dev)) (ho : ∀ c, o = .ok c → c.isCall) (hover : b = false) :
    KeepsTo b s (perform p s) := by
  refine Calm.keepsTo ?_ ?_ hover
  · rw [heq]
    exact Calm.refl s.dev
  · rw [heq]
    exact ho

/-! The two calls that send either hand over at once, or wait, or refuse a message
that does not fit in the section. -/

theorem transmitWith_keepsTo (s : Sys) (frameLen : ℕ) (f : List UInt8 → List UInt8) :
    KeepsTo (handsOver s (.call (.transmitWith frameLen f))) s
      (perform (startCall (.transmitWith frameLen f)) s) := by
  by_cases hlen : netvscSendBufSize < rndisPacketHdrSize + frameLen
  · refine keepsTo_still (o := .panic) ?_ (fun c hc => by simp at hc) ?_
    · rw [startCall, if_pos hlen]
      rfl
    · rw [handsOver, decide_eq_false (Nat.not_le.mpr hlen), Bool.and_false]
  by_cases hfree : s.dev.sendSectionFree = true
  · have heq : startCall (.transmitWith frameLen f) s.dev =
        finishCall (.transmitWith frameLen f) s.dev := by
      rw [startCall, if_neg hlen, Prog.get_bind, if_pos hfree]
    refine Over.keepsTo (over_of_finishCall hfree heq) ?_
    rw [handsOver, hfree, decide_eq_true (Nat.not_lt.mp hlen)]
    rfl
  · refine keepsTo_still (o := .ok (.pump (.transmitWith frameLen f))) ?_
      (fun c hc => isCall_of_ok (.inl rfl) hc) ?_
    · rw [startCall, if_neg hlen, Prog.get_bind, if_neg hfree]
      rfl
    · rw [handsOver, Bool.eq_false_iff.mpr hfree, Bool.false_and]

theorem sendRndisControl_keepsTo (s : Sys) (msg : List UInt8) :
    KeepsTo (handsOver s (.call (.sendRndisControl msg))) s
      (perform (startCall (.sendRndisControl msg)) s) := by
  by_cases hfree : s.dev.sendSectionFree = true
  · have heq : startCall (.sendRndisControl msg) s.dev = caught (controlSent msg none) s.dev := by
      refine caught_congr ?_
      rw [sendRndisControl, Prog.get_bind, if_pos hfree]
    by_cases hlen : netvscSendBufSize < msg.length
    · refine keepsTo_still (heq.trans (caught_controlSent_long hlen)) (fun c hc => by simp at hc) ?_
      rw [handsOver, decide_eq_false (Nat.not_le.mpr hlen), Bool.and_false]
    · refine Over.keepsTo (over_of_control hlen heq) ?_
      rw [handsOver, hfree, decide_eq_true (Nat.not_lt.mp hlen)]
      rfl
  · refine keepsTo_still (o := .ok (.waitSection msg none)) ?_
      (fun c hc => isCall_of_ok (.inl rfl) hc) ?_
    · rw [startCall, caught, Prog.bind_apply, Prog.attempt, sendRndisControl, Prog.get_bind,
        if_neg hfree]
      rfl
    · rw [handsOver, Bool.eq_false_iff.mpr hfree, Bool.false_and]

theorem call_keepsTo (s : Sys) (call : Call) :
    KeepsTo (handsOver s (.call call)) s (perform (startCall call) s) := by
  cases call with
  | hasTxSpace => exact keepsTo_still rfl (fun c hc => isCall_of_ok (.inl rfl) hc) rfl
  | hasRxPacket => exact keepsTo_still rfl (fun c hc => isCall_of_ok (.inl rfl) hc) rfl
  | transmitWith frameLen f => exact transmitWith_keepsTo s frameLen f
  | recvWith =>
    refine Calm.keepsTo ?_ (fun c hc => isCall_of_ok (.inr rfl) hc) rfl
    show Calm s.dev (recvWith s.dev).2
    rcases hp : s.dev.pendingRx with _ | frame
    · refine ⟨[], ?_, by simp⟩
      simp [recvWith, Prog.modify, hp]
    · refine ⟨[.delivered frame], ?_, by simp [Event.isUse]⟩
      simp [recvWith, Prog.modify, hp]
  | sendRndisControl msg => exact sendRndisControl_keepsTo s msg

theorem pump_keepsTo (d : NetvscDevice) (env : Env) (call : Call) :
    KeepsTo (handsOver ⟨d, .pump call⟩ (.guest env)) ⟨d, .pump call⟩
      (perform (resume env (.pump call)) ⟨d, .pump call⟩) := by
  show KeepsTo _ _ (perform (advance env (.pump call)) _)
  rcases hends : pumpEnds d with _ | _
  · obtain ⟨hc, hcalm⟩ := @advance_pumpOn d env call hends
    refine hcalm.keepsTo (s := ⟨d, .pump call⟩) (fun c h => ?_) ?_
    · rw [hc c h]
      exact .inl rfl
    · cases call with
      | transmitWith _ _ => exact (congrArg (d.sendSectionFree && ·) hends).trans (Bool.and_false _)
      | _ => rfl
  · obtain ⟨d', heq, hsend, hfree', hcalm⟩ := @advance_pumpEnds d env call hends
    -- a call other than `transmit_with`, or one that finds the section in use
    have hreturns : finishCall call d' = (.ok .ready, d') →
        handsOver ⟨d, .pump call⟩ (.guest env) = false →
        KeepsTo (handsOver ⟨d, .pump call⟩ (.guest env)) ⟨d, .pump call⟩
          (perform (advance env (.pump call)) ⟨d, .pump call⟩) := by
      intro hfinish hover
      refine Calm.keepsTo ?_ ?_ hover
      · rw [heq, hfinish]
        exact hcalm
      · rw [heq, hfinish]
        exact fun c hc => isCall_of_ok (.inr rfl) hc
    cases call with
    | transmitWith frameLen f =>
      by_cases hfree : d.sendSectionFree = true
      · refine Over.keepsTo (s := ⟨d, _⟩) ?_ ?_
        · rw [show (Sys.mk d (.pump (.transmitWith frameLen f))).dev.send = d'.send from hsend.symm]
          exact over_of_finishCall (hfree'.trans hfree) heq
        · show (d.sendSectionFree && pumpEnds d) = true
          rw [hfree, hends]
          rfl
      · refine hreturns ?_ ?_
        · rw [finishCall, Prog.get_bind, hfree', if_neg hfree]
          rfl
        · show (d.sendSectionFree && pumpEnds d) = false
          rw [Bool.eq_false_iff.mpr hfree, Bool.false_and]
    | _ => exact hreturns rfl rfl

theorem wait_keepsTo (d : NetvscDevice) (env : Env) (msg : List UInt8) :
    KeepsTo (handsOver ⟨d, .waitSection msg none⟩ (.guest env)) ⟨d, .waitSection msg none⟩
      (perform (resume env (.waitSection msg none)) ⟨d, .waitSection msg none⟩) := by
  have hover : handsOver ⟨d, .waitSection msg none⟩ (.guest env) =
      (d.sendSectionFree && decide (recvAvail d.recv = some 0) &&
        decide (msg.length ≤ netvscSendBufSize)) := rfl
  show KeepsTo _ _ (perform (caught (advance env (.waitSection msg none))) _)
  by_cases hends : d.sendSectionFree = true ∧ recvAvail d.recv = some 0
  · have heq := caught_congr (@advance_waitEnds d env msg hends.1 hends.2)
    rw [hover, hends.1, decide_eq_true hends.2]
    by_cases hlen : netvscSendBufSize < msg.length
    · refine keepsTo_still (s := ⟨d, _⟩) (heq.trans (caught_controlSent_long hlen))
        (fun c hc => by simp at hc) ?_
      rw [decide_eq_false (Nat.not_le.mpr hlen), Bool.and_false]
    · refine Over.keepsTo (s := ⟨d, _⟩) (over_of_control hlen heq) ?_
      rw [decide_eq_true (Nat.not_lt.mp hlen)]
      rfl
  · obtain ⟨hc, hcalm⟩ := @advance_waitOn d env msg hends
    obtain ⟨hdev, hok⟩ := caught_cases (advance env (.waitSection msg none)) d
    refine Calm.keepsTo (s := ⟨d, _⟩) ?_ (fun c h => ?_) ?_
    · rw [hdev]
      exact hcalm
    · rcases hok c h with hadvance | rfl
      · rw [hc c hadvance]
        exact .inl rfl
      · exact .inr rfl
    · rw [hover]
      simpa using fun hfree hzero => absurd ⟨hfree, hzero⟩ hends

/-- **Every step of a call** keeps to it, and only a step that `handsOver` names takes
section 0 into use. -/
theorem step_spec {s u : Sys} {a : Act} (hctl : s.ctl.isCall) (h : step s a = some u) :
    KeepsTo (handsOver s a) s u := by
  cases a with
  | guest env =>
    rcases s with ⟨d, c⟩
    by_cases hrun : c.running = true
    · obtain rfl : perform (resume env c) ⟨d, c⟩ = u := by simpa [step, hrun] using h
      rcases hctl with hin | hstop
      · cases c with
        | pump call => exact pump_keepsTo d env call
        | waitSection msg next =>
          cases next with
          | none => exact wait_keepsTo d env msg
          | some req => exact absurd hin Bool.false_ne_true
        | _ => exact absurd hin Bool.false_ne_true
      · exact absurd (hstop.symm.trans hrun) Bool.false_ne_true
    · simp [step, hrun] at h
  | call c =>
    rcases s with ⟨d, ctl⟩
    cases ctl with
    | ready =>
      obtain rfl : perform (startCall c) ⟨d, .ready⟩ = u := by simpa [step] using h
      exact call_keepsTo ⟨d, .ready⟩ c
    | _ => simp [step] at h
  | put p mem tag =>
    obtain ⟨r, rfl⟩ := step_put h
    exact ⟨hctl, [.put p tag (postedFrame p mem)], rfl, by simp [Event.isUse]⟩
  | take =>
    obtain rfl : _ = u := Option.some_inj.mp h
    exact ⟨hctl, Calm.refl s.dev⟩

/-! ### Runs of one call -/

/-- The call is the first step of the run, and there is no other; the host acts as it
likes. -/
def OneCall (c : Call) (s u : Sys) : Act → Prop
  | .call c' => c' = c ∧ u = s
  | _ => True

/-- If the step hands a message over, the send ring has room for it. -/
def HasRoom (s : Sys) (a : Act) : Prop := handsOver s a = true → sectionFull s.dev.send = false

/-- If the last message did not go out because the ring was full, then the section is
marked as it was before the call, and not as in use. -/
def SendFailureHarmless (s t : Sys) : Prop :=
  lastSend t.dev.log = .failed →
    t.dev.sendSectionFree = s.dev.sendSectionFree ∧ t.dev.sendSectionFree = true

/-- After a panic only the host acts. -/
theorem step_panicked {s u : Sys} {a : Act} (hs : s.ctl = .panicked) (h : step s a = some u) :
    u.ctl = .panicked ∧ (lastSend s.dev.log = .written → lastSend u.dev.log = .written) := by
  cases a with
  | guest env => simp [step, hs, Ctl.running] at h
  | call c => simp [step, hs] at h
  | put p mem tag =>
    obtain ⟨r, rfl⟩ := step_put h
    refine ⟨hs, fun hw => ?_⟩
    rw [lastSend_append, hw]
    rfl
  | take =>
    obtain rfl : _ = u := Option.some_inj.mp h
    exact ⟨hs, id⟩

/-- What holds in the run of a call as long as its messages find room. -/
structure CallInv (t : Sys) : Prop where
  ctl : t.ctl.isCall
  sent : lastSend t.dev.log ≠ .failed
  /-- The send ring panicked on the index difference. -/
  written : lastSend t.dev.log = .written → t.ctl = .panicked

theorem CallInv.step {t u : Sys} {a : Act} (ht : CallInv t) (hroom : HasRoom t a)
    (h : step t a = some u) : CallInv u := by
  obtain ⟨hctl, hspec⟩ := step_spec ht.ctl h
  by_cases hover : handsOver t a = true
  · rw [if_pos hover] at hspec
    rcases hspec with ⟨-, hc, hw⟩ | ⟨hfull, -⟩ | ⟨-, -, hh⟩
    · exact ⟨hctl, by rw [hw]; simp, fun _ => hc⟩
    · exact absurd (hfull.symm.trans (hroom hover)) (by simp)
    · exact ⟨hctl, by rw [hh]; simp, by rw [hh]; simp⟩
  · rw [if_neg hover] at hspec
    by_cases hw : lastSend t.dev.log = .written
    · obtain ⟨hc, hkeep⟩ := step_panicked (ht.written hw) h
      exact ⟨hctl, by rw [hkeep hw]; simp, fun _ => hc⟩
    · have hsame := hspec.lastSend_eq hw
      exact ⟨hctl, by rw [hsame]; exact ht.sent, fun h' => absurd (hsame.symm.trans h') hw⟩

/-- **A send that fails on a full ring.**  Let a call start on any device, with the host
acting in between as it likes.  A failed send leaves section 0 marked as it was, and not
in use, all along the run exactly if every step of the run that hands a message over
finds room for it. -/
theorem harmless_iff {c : Call} {s t : Sys} {l : List Act} (hs : s.ctl = .ready)
    (hlog : s.dev.log = []) (h : Exec step (OneCall c s) s l t) :
    (∀ l' t', l' <+: l → Exec step (OneCall c s) s l' t' → SendFailureHarmless s t') ↔
      Exec step (fun u a => OneCall c s u a ∧ HasRoom u a) s l t := by
  have hinv : ∀ {l t}, Exec step (fun u a => OneCall c s u a ∧ HasRoom u a) s l t → CallInv t := by
    intro l t hrun
    refine hrun.invariant ⟨.inr (by rw [hs]; rfl), ?_, ?_⟩ fun ht hg hstep => ht.step hg.2 hstep
    · rw [hlog]
      exact LastSend.noConfusion
    · rw [hlog]
      exact fun hw => LastSend.noConfusion hw
  refine Exec.guarded_iff (fun hrun hfailed => absurd hfailed (hinv hrun).sent) ?_ h
  intro l t u a hrun _ hroom hstep hP
  -- the step that finds no room fails, and leaves the section marked as in use
  obtain ⟨hover, hfull⟩ : handsOver t a = true ∧ sectionFull t.dev.send = true := by
    simpa [HasRoom] using hroom
  have hspec := (step_spec (hinv hrun).ctl hstep).2
  rw [if_pos hover] at hspec
  rcases hspec with ⟨hnone, -⟩ | ⟨-, -, hfailed, hfree⟩ | ⟨hroom', -⟩
  · rw [sectionFull, hnone] at hfull
    exact absurd hfull Bool.false_ne_true
  · exact absurd (hfree.symm.trans (hP hfailed).2) Bool.false_ne_true
  · exact absurd (hroom'.not_full.symm.trans hfull) Bool.false_ne_true

/-- A device between calls with this send ring, and nothing to receive. -/
def sendingFrom (r : RingHalf) : Sys := ⟨{ openedDevice { } with send := r }, .ready⟩

def sixtyBytes : Call := .transmitWith 60 id

/-- On an empty ring the frame goes out. -/
theorem harmless_iff_emptyRing :
    handsOver (sendingFrom (openedHalf fun _ => 0)) (.call sixtyBytes) = true ∧
    ∀ l' t', l' <+: [.call sixtyBytes] →
      Exec step (OneCall sixtyBytes (sendingFrom (openedHalf fun _ => 0)))
        (sendingFrom (openedHalf fun _ => 0)) l' t' →
      SendFailureHarmless (sendingFrom (openedHalf fun _ => 0)) t' := by
  have hcall : OneCall sixtyBytes (sendingFrom (openedHalf fun _ => 0))
      (sendingFrom (openedHalf fun _ => 0)) (.call sixtyBytes) := ⟨rfl, rfl⟩
  refine ⟨by decide, (harmless_iff rfl rfl (.cons hcall rfl .nil)).mpr ?_⟩
  exact .cons ⟨hcall, fun _ => by decide⟩ rfl .nil

/-- A ring whose data area holds one long packet of `len8 * 8` bytes. -/
def filledRing (len8 : UInt16) : RingHalf :=
  { openedHalf (Memory.write (fun _ => 0) 0 (⟨vmPktDataInband, 2, len8, 0, 0⟩ :
      VmPacketDescriptor).toBytes) with writeIndex := UInt32.ofNat (len8.toNat * 8 + 8) }

/-- There are 64 free bytes left on the send ring, as many as the next message would
take. -/
def stuffedRing : RingHalf := filledRing 15863

/-- **The section is lost.**  The send fails on a full ring.  Then the host reads the ring,
and the next call waits for a completion that will not come: it sends nothing either. -/
theorem section_stranded :
    ∃ t u, Exec step (OneCall sixtyBytes (sendingFrom stuffedRing)) (sendingFrom stuffedRing)
        [.call sixtyBytes] t ∧
      lastSend t.dev.log = .failed ∧ ¬ SendFailureHarmless (sendingFrom stuffedRing) t ∧
      Exec step (fun _ _ => True) t [.take, .call sixtyBytes, receives] u ∧ u.ctl = .ready ∧
      sectionFull u.dev.send = false ∧ u.dev.sendSectionFree = false ∧
      u.dev.log = t.dev.log := by
  have hfailed : lastSend (perform (startCall sixtyBytes) (sendingFrom stuffedRing)).dev.log =
      .failed := by decide +kernel
  have hfree : (perform (startCall sixtyBytes) (sendingFrom stuffedRing)).dev.sendSectionFree =
      false := by decide +kernel
  obtain ⟨u, hu, hready, hroom, hbusy, hsame⟩ : ∃ u, Exec step (fun _ _ => True)
      (perform (startCall sixtyBytes) (sendingFrom stuffedRing))
      [.take, .call sixtyBytes, receives] u ∧ u.ctl = .ready ∧
      sectionFull u.dev.send = false ∧ u.dev.sendSectionFree = false ∧
      u.dev.log = (perform (startCall sixtyBytes) (sendingFrom stuffedRing)).dev.log :=
    Exec.exists_of_run (by decide +kernel)
  refine ⟨_, u, .snoc .nil ⟨rfl, rfl⟩ rfl, hfailed, ?_, hu, hready, hroom, hbusy, hsame⟩
  intro h
  exact Bool.false_ne_true (hfree.symm.trans (h hfailed).2)

end Netvsc
