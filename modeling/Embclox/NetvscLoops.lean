/-
The receive loops of the NetVSC device as loops.

In the runs of the device, every receive is a step of its own and the host may act in
between.  Here `pump_channel` and `poll_channel` are whole loops over a ring that the
host does not touch.

* `pumpRound`, `pollRound` — the bodies of the two loops;
* `Quiet` — what a dispatch does apart from queueing a frame: it leaves the receive
  ring alone and never marks section 0 as used;
* `pumpRound_next`, `pollRound_next` — a round that goes on has moved the read index
  behind one packet;
* `exec_of_pumpChannel` — a call that drains the ring this way is a run of the device.
-/
import Embclox.Loop
import Embclox.NetvscRun
import Embclox.RingRecv

open Bytes Effect Ring Nvsp Run

namespace Netvsc

/-! ### The loops -/

/-- One round of the loop of `pump_channel`. -/
def pumpRound : Dev Bool := do
  match ← tryRecvRaw rawBufLen with
  | some (desc, raw) => pumpDispatch desc raw
  | none => return false

/-- One round of the loop of `poll_channel`. -/
def pollRound : Dev Bool := do
  match ← tryRecvRaw rawBufLen with
  | some (desc, raw) => do
      pollDispatch desc raw
      return true
  | none => return false

/-- `pump_channel`, up to `n` packets; `true` if there is more to do. -/
def pumpChannel (n : ℕ) : Dev Bool := Prog.loop pumpRound n

/-- `poll_channel`, up to `n` packets. -/
def pollChannel (n : ℕ) : Dev Bool := Prog.loop pollRound n

/-! ### What a dispatch leaves alone -/

/-- A message of `send_rndis_control` or of `transmit_with` is written to section 0. -/
def Event.isUse : Event → Bool
  | .wrote .control _ | .wrote .transmit _ => true
  | _ => false

/-- No message was written that takes the section into use. -/
def Calm (d d' : NetvscDevice) : Prop :=
  ∃ new, d'.log = d.log ++ new ∧ ∀ e ∈ new, e.isUse = false

theorem Calm.refl (d : NetvscDevice) : Calm d d := ⟨[], by rw [List.append_nil], by simp⟩

theorem Calm.trans {d e f : NetvscDevice} (h : Calm d e) (h' : Calm e f) : Calm d f := by
  obtain ⟨new, hlog, hnew⟩ := h
  obtain ⟨new', hlog', hnew'⟩ := h'
  refine ⟨new ++ new', by rw [hlog', hlog, List.append_assoc], ?_⟩
  intro x hx
  exact (List.mem_append.mp hx).elim (hnew x) (hnew' x)

/-- The receive ring is as it was, a free section is still free, and no message was
written that takes the section into use. -/
structure Quiet (d d' : NetvscDevice) : Prop where
  recv : d'.recv = d.recv
  free : d.sendSectionFree = true → d'.sendSectionFree = true
  log : Calm d d'

theorem Quiet.of_log {d d' : NetvscDevice} {e : Event} (hrecv : d'.recv = d.recv)
    (hfree : d'.sendSectionFree = d.sendSectionFree) (hlog : d'.log = d.log ++ [e])
    (he : e.isUse = false) : Quiet d d' :=
  ⟨hrecv, fun h => hfree.trans h, [e], hlog, by simpa using he⟩

theorem Quiet.of_same {d d' : NetvscDevice} (hrecv : d'.recv = d.recv)
    (hfree : d.sendSectionFree = true → d'.sendSectionFree = true) (hlog : d'.log = d.log) :
    Quiet d d' :=
  ⟨hrecv, hfree, [], by rw [hlog, List.append_nil], by simp⟩

theorem quiet_closed : Prog.Closed Quiet Quiet := by
  have htrans : ∀ {d e f : NetvscDevice}, Quiet d e → Quiet e f → Quiet d f := by
    intro d e f h h'
    exact ⟨h'.recv.trans h.recv, fun hd => h'.free (h.free hd), h.log.trans h'.log⟩
  exact ⟨fun _ => Quiet.of_same rfl id rfl, htrans, htrans, id⟩

/-- The program is quiet from every device. -/
abbrev IsQuiet {α : Type} (p : Dev α) : Prop := Prog.Does (fun _ => True) Quiet Quiet p

theorem IsQuiet.at {α : Type} {p : Dev α} (h : IsQuiet p) (d : NetvscDevice) : Quiet d (p d).2 :=
  (h d trivial).rel

theorem isQuiet_of {α : Type} {p : Dev α} (h : ∀ d, Quiet d (p d).2) : IsQuiet p := by
  intro d _
  refine ⟨trivial, ?_⟩
  split <;> exact h d

theorem channelSend_quiet (op : Prog RingHalf RingError Unit) {e : Event} (he : e.isUse = false) :
    IsQuiet (channelSend op e) := by
  refine isQuiet_of fun d => ?_
  unfold channelSend
  rcases op d.send with ⟨_ | _ | _, r⟩
  · exact Quiet.of_log rfl rfl rfl he
  · exact Quiet.of_log (e := .ringFull) rfl rfl rfl rfl
  · exact Quiet.of_same rfl id rfl

theorem sendRndisControlInner_quiet (msg : List UInt8) : IsQuiet (sendRndisControlInner msg) := by
  refine Prog.Does.get_bind fun d _ => ?_
  split
  · refine Prog.Does.bind quiet_closed (isQuiet_of fun d => ?_)
      (fun _ => channelSend_quiet _ rfl) d trivial
    exact Quiet.of_log (e := .wrote .keepalive msg) rfl rfl rfl rfl
  · exact Prog.Does.fail quiet_closed _ d trivial

theorem handleCompletion_quiet (desc : VmPacketDescriptor) (raw : List UInt8) :
    IsQuiet (handleCompletion desc raw) := by
  unfold handleCompletion
  split
  · exact isQuiet_of fun d => Quiet.of_same rfl (fun _ => rfl) rfl
  · exact Prog.Does.pure quiet_closed _

/-- The reply to a keepalive, whether or not it could be sent. -/
theorem answer_quiet (reqId : UInt32) : IsQuiet
    (do let _ ← Prog.attempt (sendRndisControlInner (buildRndisKeepaliveCmplt reqId)) : Dev Unit) :=
  Prog.Does.bind quiet_closed ((sendRndisControlInner_quiet _).attempt quiet_closed) fun _ =>
    Prog.Does.pure quiet_closed _

theorem pollMessage_quiet (buf : List UInt8) : IsQuiet (pollMessage buf) := by
  unfold pollMessage
  split
  · exact Prog.Does.pure quiet_closed _
  · refine Prog.Does.bind quiet_closed (Prog.Does.ofOption quiet_closed _) fun resp => ?_
    split
    · exact isQuiet_of fun d => Quiet.of_same rfl id rfl
    · exact isQuiet_of fun d => Quiet.of_same rfl id rfl
    · exact isQuiet_of fun d => Quiet.of_same rfl id rfl
    · exact answer_quiet _
    · exact Prog.Does.pure quiet_closed _

theorem pollDispatch_quiet (desc : VmPacketDescriptor) (raw : List UInt8) :
    IsQuiet (pollDispatch desc raw) := by
  unfold pollDispatch
  split
  · refine Prog.Does.get_bind fun d _ => ?_
    exact Prog.Does.bind quiet_closed ((channelSend_quiet _ rfl).attempt quiet_closed)
      (fun _ => pollMessage_quiet _) d trivial
  · exact handleCompletion_quiet desc raw
  · split
    · exact Prog.Does.pure quiet_closed _
    · split
      · exact Prog.Does.panic quiet_closed
      · exact Prog.Does.pure quiet_closed _
  · exact Prog.Does.pure quiet_closed _

theorem pumpMessage_quiet (rx : List UInt8) : IsQuiet (pumpMessage rx) := by
  unfold pumpMessage
  split
  · exact Prog.Does.pure quiet_closed _
  split
  · refine Prog.Does.bind quiet_closed (Prog.Does.ofOption quiet_closed _) fun frame => ?_
    cases frame with
    | none => exact Prog.Does.pure quiet_closed _
    | some frame => exact isQuiet_of fun d => Quiet.of_same rfl id rfl
  split
  · refine Prog.Does.bind quiet_closed (Prog.Does.ofOption quiet_closed _) fun resp => ?_
    split
    · exact answer_quiet _
    · exact Prog.Does.pure quiet_closed _
  · exact Prog.Does.pure quiet_closed _

theorem pumpDispatch_quiet (desc : VmPacketDescriptor) (raw : List UInt8) :
    IsQuiet (pumpDispatch desc raw) := by
  unfold pumpDispatch
  split
  · refine Prog.Does.get_bind fun d _ => ?_
    split
    · exact Prog.Does.pure quiet_closed _ d trivial
    · refine Prog.Does.bind quiet_closed ((channelSend_quiet _ rfl).attempt quiet_closed)
        (fun _ => ?_) d trivial
      exact Prog.Does.bind quiet_closed (pumpMessage_quiet _) fun _ => Prog.Does.pure quiet_closed _
  · exact Prog.Does.bind quiet_closed (handleCompletion_quiet desc raw) fun _ =>
      Prog.Does.pure quiet_closed _
  · exact Prog.Does.pure quiet_closed _

/-! ### What a round of `pump_channel` does with a packet -/

section

variable {desc : VmPacketDescriptor} {raw : List UInt8} {d : NetvscDevice}

/-- A packet without a message may free the section, and the loop goes on. -/
theorem pumpDispatch_skips
    (h : VmbusPacketType.fromU16 desc.packetType ≠ some .dataUsingXferPages) :
    ∃ free, pumpDispatch desc raw d = (.ok true, { d with sendSectionFree := free }) := by
  rw [pumpDispatch]
  rcases hty : VmbusPacketType.fromU16 desc.packetType with _ | _ | _ | _ | _
  · exact ⟨d.sendSectionFree, rfl⟩
  · exact ⟨d.sendSectionFree, rfl⟩
  · exact absurd hty h
  · exact ⟨d.sendSectionFree, rfl⟩
  · dsimp only
    by_cases hc : isTxCompletion desc raw = true
    · exact ⟨true, by rw [handleCompletion, if_pos hc]; rfl⟩
    · exact ⟨d.sendSectionFree, by rw [handleCompletion, if_neg hc]; rfl⟩

/-- A transfer-page packet ends the loop if a frame is pending. -/
theorem pumpDispatch_stops
    (h : VmbusPacketType.fromU16 desc.packetType = some .dataUsingXferPages)
    (hp : d.pendingRx.isSome = true) : pumpDispatch desc raw d = (.ok false, d) := by
  rw [pumpDispatch, h]
  dsimp only
  rw [Prog.get_bind, if_pos hp]
  rfl

/-- Otherwise it is completed, and then its message is looked at. -/
theorem pumpDispatch_message
    (h : VmbusPacketType.fromU16 desc.packetType = some .dataUsingXferPages)
    (hp : d.pendingRx = none) {res : Except HvError Unit} {d' : NetvscDevice}
    (hack : Prog.attempt (sendCompletion compPayload desc.transactionId) d = (.ok res, d')) :
    pumpDispatch desc raw d = (pumpMessage (parseXferPagePacket d.recvBuf raw rxFrameMax) >>=
      fun _ => pure true : Dev Bool) d' := by
  rw [pumpDispatch, h]
  dsimp only
  rw [Prog.get_bind, if_neg (by rw [hp]; decide), Prog.bind_apply, hack]

end

/-! ### Receives on any ring -/

/-- The device after the packet at the read index was taken off the ring, whatever it
is. -/
def taken (d : NetvscDevice) : NetvscDevice :=
  { d with recv := skip d.recv, log := d.log ++ [.removed (header d.recv)] }

/-- A receive that finds no packet: the ring is empty, its first packet is rejected, or
the index difference overflows. -/
def Nothing {α : Type} (d : NetvscDevice) (x : Outcome HvError (Option α) × NetvscDevice) : Prop :=
  (recvAvail d.recv = some 0 ∧ x = (.ok none, d)) ∨
  ((∃ avail, avail ≠ 0 ∧ recvAvail d.recv = some avail) ∧ ∃ e, x = (.err e, d)) ∨
  (recvAvail d.recv = none ∧ x = (.panic, d))

theorem tryRecvRaw_cases (bufLen : ℕ) (d : NetvscDevice) :
    (accepts d.recv = true ∧
      ∃ raw, tryRecvRaw bufLen d = (.ok (some (header d.recv, raw)), taken d)) ∨
    (accepts d.recv = false ∧ Nothing d (tryRecvRaw bufLen d)) := by
  rcases recvCases d.recv with
    ⟨hnone, hacc, hr⟩ | ⟨hzero, hacc, hr⟩ | ⟨hsome, hacc, hr⟩ | ⟨hok, -⟩
  · refine .inr ⟨hacc, .inr (.inr ⟨hnone, ?_⟩)⟩
    simp only [tryRecvRaw, channelRecv, recvPacketRaw, hr]
  · refine .inr ⟨hacc, .inl ⟨hzero, ?_⟩⟩
    simp only [tryRecvRaw, channelRecv, recvPacketRaw, hr]
  · refine .inr ⟨hacc, .inr (.inl ⟨hsome, .hypercallFailed 0xFFFF, ?_⟩)⟩
    simp only [tryRecvRaw, channelRecv, recvPacketRaw, hr]
  · refine .inl ⟨hok, (copyFrom d.recv (d.recv.readIndex.toNat + 16)
      (min ((header d.recv).len8.toNat * 8 - 16) bufLen)).1, ?_⟩
    simp only [tryRecvRaw, channelRecv, recvPacketRaw_of_accepts hok, deliver]
    rfl

section

variable {d d' : NetvscDevice}

theorem pumpRound_of_packet {desc : VmPacketDescriptor} {raw : List UInt8}
    (h : tryRecvRaw rawBufLen d = (.ok (some (desc, raw)), d')) :
    pumpRound d = pumpDispatch desc raw d' := by
  rw [pumpRound, Prog.bind_apply, h]

theorem pollRound_of_packet {desc : VmPacketDescriptor} {raw : List UInt8}
    (h : tryRecvRaw rawBufLen d = (.ok (some (desc, raw)), d')) :
    pollRound d = (pollDispatch desc raw >>= fun _ => pure true : Dev Bool) d' := by
  rw [pollRound, Prog.bind_apply, h]

/-- The loops are over when no packet is found. -/
theorem rounds_of_nothing (h : Nothing d (tryRecvRaw rawBufLen d)) :
    (pumpRound d).1 ≠ .ok true ∧ (pollRound d).1 ≠ .ok true := by
  rw [pumpRound, pollRound, Prog.bind_apply, Prog.bind_apply]
  rcases h with ⟨-, h⟩ | ⟨-, e, h⟩ | ⟨-, h⟩ <;> rw [h] <;> simp

/-- **A round of `pump_channel` that goes on** has moved the read index behind one
packet. -/
theorem pumpRound_next (h : pumpRound d = (.ok true, d')) :
    accepts d.recv = true ∧ d'.recv = skip d.recv := by
  rcases tryRecvRaw_cases rawBufLen d with ⟨hok, raw, hraw⟩ | ⟨-, hnone⟩
  · rw [pumpRound_of_packet hraw] at h
    have hquiet := (pumpDispatch_quiet (header d.recv) raw).at (taken d)
    rw [h] at hquiet
    exact ⟨hok, hquiet.recv⟩
  · exact absurd (congrArg Prod.fst h) (rounds_of_nothing hnone).1

theorem pollRound_next (h : pollRound d = (.ok true, d')) :
    accepts d.recv = true ∧ d'.recv = skip d.recv := by
  rcases tryRecvRaw_cases rawBufLen d with ⟨hok, raw, hraw⟩ | ⟨-, hnone⟩
  · rw [pollRound_of_packet hraw] at h
    have hquiet := IsQuiet.at (Prog.Does.bind quiet_closed (pollDispatch_quiet (header d.recv) raw)
      fun _ => Prog.Does.pure quiet_closed true) (taken d)
    rw [h] at hquiet
    exact ⟨hok, hquiet.recv⟩
  · exact absurd (congrArg Prod.fst h) (rounds_of_nothing hnone).2

/-! ### Loops and runs -/

theorem receive_pump (call : Call) {x : Option (VmPacketDescriptor × List UInt8)}
    (h : tryRecvRaw rawBufLen d = (.ok x, d')) : receive (.pump call) d = (.ok x, d') := by
  rw [receive, Prog.bind_apply, Prog.attempt, h]
  rfl

/-- A rejected packet counts as none. -/
theorem receive_pump_err (call : Call) {e : HvError}
    (h : tryRecvRaw rawBufLen d = (.err e, d')) : receive (.pump call) d = (.ok none, d') := by
  rw [receive, Prog.bind_apply, Prog.attempt, h]
  rfl

/-- The guest makes the receives of a loop one after the other. -/
theorem advance_pumpRound (env : Env) (call : Call) {b : Bool} (h : pumpRound d = (.ok b, d')) :
    advance env (.pump call) d =
      if b = true then (.ok (.pump call), d') else finishCall call d' := by
  rcases tryRecvRaw_cases rawBufLen d with
    ⟨-, raw, hraw⟩ | ⟨-, ⟨-, hnone⟩ | ⟨-, e, herr⟩ | ⟨-, hpanic⟩⟩
  · rw [pumpRound_of_packet hraw] at h
    rw [advance, Prog.bind_apply, receive_pump call hraw]
    dsimp only
    rw [onPacket, Prog.bind_apply, h]
    cases b <;> rfl
  · rw [pumpRound, Prog.bind_apply, hnone] at h
    obtain ⟨hb, rfl⟩ := Prod.mk.inj h
    obtain rfl : false = b := by simpa using hb
    rw [advance, Prog.bind_apply, receive_pump call hnone]
    rfl
  · rw [pumpRound, Prog.bind_apply, herr] at h
    exact absurd (congrArg Prod.fst h) (by simp)
  · rw [pumpRound, Prog.bind_apply, hpanic] at h
    exact absurd (congrArg Prod.fst h) (by simp)

theorem step_pump {call : Call} {b : Bool} (h : pumpRound d = (.ok b, d')) :
    step ⟨d, .pump call⟩ receives =
      some (if b = true then ⟨d', .pump call⟩ else perform (finishCall call) ⟨d', .pump call⟩) := by
  have hadvance := advance_pumpRound { } call h
  show some (perform (advance { } (.pump call)) ⟨d, .pump call⟩) = _
  cases b with
  | true =>
    unfold perform
    rw [hadvance]
    rfl
  | false => exact congrArg some (perform_congr hadvance)

/-- **A call that drains the ring** without interference by the host is a run of the
device, one step for each receive. -/
theorem exec_of_pumpChannel {G : Sys → Act → Prop} (hG : ∀ s, G s receives) {n : ℕ}
    (h : pumpChannel n d = (.ok false, d')) (call : Call) :
    ∃ l, (∀ a ∈ l, a = receives) ∧
      Exec step G ⟨d, .pump call⟩ l (perform (finishCall call) ⟨d', .pump call⟩) := by
  induction n generalizing d with
  | zero => exact absurd (congrArg Prod.fst h) (by simp [pumpChannel, Prog.loop])
  | succ n ih =>
    rcases Prog.round_cases pumpRound d with ⟨t, ht⟩ | hlast
    · -- one more packet
      rw [pumpChannel, Prog.loop_next ht] at h
      obtain ⟨l, hl, hrun⟩ := ih h
      refine ⟨receives :: l, ?_, .cons (hG _) (step_pump ht) hrun⟩
      intro a ha
      rcases List.mem_cons.mp ha with rfl | ha
      · rfl
      · exact hl a ha
    · rw [pumpChannel, Prog.loop_last hlast] at h
      exact ⟨[receives], by simp, .cons (hG _) (step_pump h) .nil⟩

end

end Netvsc
