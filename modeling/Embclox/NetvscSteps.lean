/-
Every step of a NetVSC device is a move of its view.

* `guest_moves` — a guest step takes at most one packet, the next one on the ring,
  and goes on with moves that remove nothing;
* `call_moves`, `put_moves`, `take_moves` — the other steps;
* `base_of_step` — every step keeps `Base`.
-/
import Embclox.NetvscMoves

open Bytes Effect Ring Nvsp Relation

namespace Netvsc

variable {K K' F F' : Prop} {d : NetvscDevice}

/-! ### The programs between two receives -/

/-- What the guest may do without removing a packet; a message that could not be
handed over stops it. -/
abbrev Guest (K : Prop) (p : Dev Ctl) : Prop :=
  Prog.Does Base (Moves K False) (Moves K True) p

theorem guest_closed : Prog.Closed (Moves K False) (Moves K True) :=
  moves_closed fun _ => trivial

theorem guest_pure (c : Ctl) : Guest K (pure c) := Prog.Does.pure guest_closed c

theorem guest_fail (e : HvError) : Guest K (Prog.fail e) := Prog.Does.fail guest_closed e

theorem createGpadl_does (env : Env) :
    Prog.Does Base (Moves K False) (Moves K True) (createGpadl env) := by
  unfold createGpadl
  cases env.gpadl with
  | ok handle => exact Prog.Does.pure guest_closed handle
  | error e => exact Prog.Does.fail guest_closed e

theorem negotiateFrom_does (versions : List NvspVersion) : Guest K (negotiateFrom versions) := by
  cases versions with
  | nil => exact guest_fail _
  | cons ver rest =>
    exact (nvspSend_does .init (by decide) (by simp) _ _).bind guest_closed
      fun _ => guest_pure _

theorem sendNdisConfig_does (ver : NvspVersion) :
    Prog.Does Base (Moves K False) (Moves K True) (sendNdisConfig ver) := by
  unfold sendNdisConfig
  split
  · exact Prog.Does.pure guest_closed _
  · exact nvspSend_does .sendNdisConfig (by decide) (by simp) _ _

theorem sendNdisVersion_does (ver : NvspVersion) :
    Prog.Does Base (Moves K False) (Moves K True) (sendNdisVersion ver) := by
  unfold sendNdisVersion
  split <;> exact nvspSend_does .sendNdisVersion (by decide) (by simp) _ _

theorem negotiated_does (env : Env) (ver : NvspVersion) : Guest K (negotiated env ver) := by
  refine (sendNdisConfig_does ver).bind guest_closed fun _ => Prog.Does.bind guest_closed ?_
    fun _ => (sendNdisVersion_does ver).bind guest_closed fun _ =>
    (createGpadl_does env).bind guest_closed fun handle =>
    (nvspSend_does .sendReceiveBuffer (by decide) (by simp) _ _).bind guest_closed
    fun _ => guest_pure _
  refine quiet_does ?_ ?_ ?_ <;> exact fun _ => rfl

theorem onNegotiate_does (env : Env) (ver : NvspVersion) (rest : List NvspVersion)
    (resp : Option NvspResponse) : Guest K (onNegotiate env ver rest resp) := by
  unfold onNegotiate
  split
  · split
    · exact negotiated_does env ver
    · exact negotiateFrom_does rest
  · exact negotiateFrom_does rest

theorem onRecvBuf_does (env : Env) (resp : Option NvspResponse) : Guest K (onRecvBuf env resp) := by
  unfold onRecvBuf
  split
  · split
    · exact (createGpadl_does env).bind guest_closed fun handle =>
        (nvspSend_does .sendSendBuffer (by decide) (by simp) _ _).bind guest_closed
        fun _ => guest_pure _
    · exact guest_fail _
  · exact guest_fail _

theorem controlSent_does (hb : Base d) (hfree : d.sendSectionFree = true) (msg : List UInt8)
    (next : Option Request) :
    Prog.DoesAt Base (Moves K False) (Moves K True) (controlSent msg next) d := by
  refine (sendControl_does hb hfree msg).bind guest_closed fun _ => ?_
  cases next with
  | none => exact guest_pure _
  | some req =>
    refine Prog.Does.bind guest_closed ?_ fun _ => guest_pure _
    refine quiet_does ?_ ?_ ?_ <;> exact fun _ => rfl

theorem sendRndisControl_does (msg : List UInt8) (next : Option Request) :
    Guest K (sendRndisControl msg next) := by
  refine Prog.Does.get_bind fun d hb => ?_
  by_cases hfree : d.sendSectionFree = true
  · rw [if_pos hfree]
    exact controlSent_does hb hfree msg next
  · rw [if_neg hfree]
    exact guest_pure _ d hb

theorem request_does (build : UInt32 → List UInt8) (req : Request) :
    Guest K (request build req) := by
  refine Prog.Does.get_bind fun d hb => ?_
  refine Prog.DoesAt.bind guest_closed ?_ (fun _ => sendRndisControl_does _ _)
  refine quiet_does ?_ ?_ ?_ d hb <;> exact fun _ => rfl

theorem onSendBuf_does (resp : Option NvspResponse) : Guest K (onSendBuf resp) := by
  unfold onSendBuf
  split
  · split
    · exact request_does _ _
    · exact guest_fail _
  · exact guest_fail _

theorem checkMtu_does : Guest K checkMtu := by
  refine Prog.Does.get_bind fun d hb => ?_
  by_cases hfit : d.mtu.toNat + 14 ≤ rxFrameMax
  · rw [if_pos hfit]
    exact guest_pure _ d hb
  · rw [if_neg hfit]
    exact Prog.Does.panic guest_closed d hb

theorem finishInit_does : Guest K finishInit := by
  refine Prog.Does.get_bind fun d hb => ?_
  by_cases hv5 : NvspVersion.v5.asU32 ≤ d.nvspVersion
  · rw [if_pos hv5]
    exact (nvspSend_does .subChannel (by decide) (by simp) _ _ d hb).bind guest_closed
      fun _ => guest_pure _
  · rw [if_neg hv5]
    exact checkMtu_does d hb

theorem onResponse_does (req : Request) (resp : Option RndisResponse) :
    Guest K (onResponse req resp) := by
  unfold onResponse
  split
  · split
    · exact guest_pure _
    · exact guest_fail _
  · exact guest_fail _
  · split
    · refine Prog.Does.bind guest_closed ?_ fun _ => request_does _ _
      refine quiet_does ?_ ?_ ?_ <;> exact fun _ => rfl
    · split <;> exact request_does _ _
  · split <;> exact request_does _ _
  · split
    · refine Prog.Does.bind guest_closed ?_ fun _ => request_does _ _
      refine quiet_does ?_ ?_ ?_ <;> exact fun _ => rfl
    · exact request_does _ _
  · exact request_does _ _
  · exact finishInit_does
  · exact guest_fail _

/-- The calls on an initialised device see the error of a message that could not be
handed over, and the device goes on. -/
abbrev Caller (K : Prop) (p : Dev Ctl) : Prop :=
  Prog.Does Base (Moves K True) (Moves K True) p

theorem caller_closed : Prog.Closed (Moves K True) (Moves K True) := moves_closed id

theorem Guest.caller {p : Dev Ctl} (h : Guest K p) : Caller K p :=
  h.mono (moves_mono id fun _ => trivial) id

theorem finishCall_does (call : Call) : Caller K (finishCall call) := by
  cases call with
  | transmitWith frameLen f =>
    refine Prog.Does.get_bind fun d hb => ?_
    by_cases hfree : d.sendSectionFree = true
    · rw [if_pos hfree]
      exact ((transmitFrame_does hb hfree frameLen f).attempt caller_closed).bind caller_closed
        fun _ => Prog.Does.pure caller_closed _
    · rw [if_neg hfree]
      exact Prog.Does.pure caller_closed _ d hb
  | _ => exact Prog.Does.pure caller_closed _

theorem caught_does {p : Dev Ctl} (h : Caller K p) : Caller K (caught p) := by
  refine (h.attempt caller_closed).bind caller_closed fun res => ?_
  cases res <;> exact Prog.Does.pure caller_closed _

theorem recvWith_does : Prog.Does Base (Moves K True) (Moves K True) recvWith := by
  refine Prog.Does.modify fun d hb => ?_
  cases hp : d.pendingRx with
  | none => exact ⟨hb, .refl⟩
  | some frame =>
    exact ⟨hb.extend rfl rfl (by simp) hb.send, .single (.deliver frame hp)⟩

theorem startCall_does (call : Call) : Caller K (startCall call) := by
  cases call with
  | hasTxSpace => exact Prog.Does.pure caller_closed _
  | hasRxPacket => exact Prog.Does.pure caller_closed _
  | transmitWith frameLen f =>
    unfold startCall
    dsimp only
    split
    · exact Prog.Does.panic caller_closed
    · refine Prog.Does.get_bind fun d hb => ?_
      by_cases hfree : d.sendSectionFree = true
      · rw [if_pos hfree]
        exact finishCall_does _ d hb
      · rw [if_neg hfree]
        exact Prog.Does.pure caller_closed _ d hb
  | recvWith =>
    exact recvWith_does.bind caller_closed fun _ => Prog.Does.pure caller_closed _
  | sendRndisControl msg => exact caught_does (sendRndisControl_does msg none).caller

/-- A control point inside a call on the initialised device. -/
def Ctl.inCall : Ctl → Bool
  | .pump _ | .waitSection _ none => true
  | _ => false

theorem onEmpty_does (env : Env) (c : Ctl) :
    Prog.Does Base (Moves K (c.inCall = true)) (Moves K True) (onEmpty env c) := by
  have hguest : ∀ {p : Dev Ctl}, Guest K p →
      Prog.Does Base (Moves K (c.inCall = true)) (Moves K True) p :=
    fun h => h.mono (moves_mono id False.elim) id
  -- a wait goes on until its deadline
  have hwait : ∀ c' : Ctl, Guest K (if env.expired then Prog.fail .timeout else pure c') := by
    intro c'
    split
    · exact guest_fail _
    · exact guest_pure c'
  cases c with
  | opened => exact hguest (negotiateFrom_does _)
  | waitSection msg next =>
    refine hguest (Prog.Does.get_bind fun d hb => ?_)
    by_cases hfree : d.sendSectionFree = true
    · rw [if_pos hfree]
      exact controlSent_does hb hfree msg next
    · rw [if_neg hfree]
      exact hwait _ d hb
  | response req =>
    refine hguest (Prog.Does.get_bind fun d hb => ?_)
    by_cases hready : d.ctrlRespReady = true
    · rw [if_pos hready]
      refine Prog.DoesAt.bind guest_closed ?_ fun _ =>
        (Prog.Does.ofOption guest_closed _).bind guest_closed fun resp => onResponse_does req resp
      refine quiet_does ?_ ?_ ?_ d hb <;> exact fun _ => rfl
    · rw [if_neg hready]
      exact hwait _ d hb
  | drain left processed =>
    refine hguest ?_
    unfold onEmpty
    dsimp only
    split
    · exact guest_pure _
    · exact request_does _ _
  | pump call =>
    exact (finishCall_does call).mono (moves_mono id fun _ => rfl) id
  | _ => exact hguest (hwait _)

/-! ### Steps -/

/-- The guest, about to make the receive of `c` with the view `v`, takes no packet
(there is none that it can read) or the next one; `R` says how it goes on, with the
permission to answer a keepalive and the view after the removal. -/
def GuestMove (c : Ctl) (v : View) (R : Prop → View → Prop) : Prop :=
  ((∀ k p, c.consumer = some k → v.next = some p → k.accepts p = false) ∧ R False v) ∨
    ∃ k p w, c.consumer = some k ∧ v.next = some p ∧ k.accepts p = true ∧ Take p v k w ∧
      R (answersKeepalive k v p = true) w

theorem GuestMove.imp {c : Ctl} {v : View} {R R' : Prop → View → Prop} (h : GuestMove c v R)
    (hR : ∀ {K w}, R K w → R' K w) : GuestMove c v R' := by
  rcases h with ⟨hidle, h⟩ | ⟨k, p, w, hc, hp, ha, ht, h⟩
  · exact .inl ⟨hidle, hR h⟩
  · exact .inr ⟨k, p, w, hc, hp, ha, ht, hR h⟩

/-- A guest program has ended, by moves from the view `w`. -/
def Ends (K F : Prop) (w : View) (res : Outcome HvError Ctl × NetvscDevice) : Prop :=
  Base res.2 ∧ match res.1 with
    | .ok _ => ReflTransGen (Micro K F) w res.2.view
    | _ => ReflTransGen (Micro K True) w res.2.view

theorem ends_of_does {p : Dev Ctl} (hb : Base d)
    (h : Prog.Does Base (Moves K F) (Moves K True) p) : Ends K F d.view (p d) := by
  have hd := h d hb
  unfold Prog.DoesAt at hd
  rcases hp : p d with ⟨_ | _ | _, d'⟩ <;> rw [hp] at hd <;> exact hd

theorem Ends.after {w v : View} {res : Outcome HvError Ctl × NetvscDevice}
    (hw : ReflTransGen (Micro K False) w v) (h : Ends False F v res) : Ends K F w res := by
  obtain ⟨o, d⟩ := res
  refine ⟨h.1, ?_⟩
  have h2 := h.2
  cases o with
  | ok => exact (moves_mono id False.elim hw).trans (moves_mono False.elim id h2)
  | _ => exact (moves_mono id False.elim hw).trans (moves_mono False.elim id h2)

/-- A dispatched packet, whatever the outcome of the dispatch. -/
theorem Dispatched.ends {k : Consumer} {p : Packet} {v : View} {o : Outcome HvError Ctl}
    (h : Dispatched k p v d) :
    ∃ w, Take p v k w ∧ Ends (answersKeepalive k v p = true) F w (o, d) := by
  obtain ⟨hb, w, ht, hw⟩ := h
  refine ⟨w, ht, hb, ?_⟩
  dsimp only
  split
  · exact moves_mono id False.elim hw
  · exact moves_mono id False.elim hw

/-- What follows a dispatch goes on from where it ended. -/
theorem Dispatched.bind {α : Type} {k : Consumer} {p : Packet} {v : View} {q : Dev α}
    {f : α → Dev Ctl} (h : Dispatched k p v (q d).2)
    (hf : ∀ a, Prog.Does Base (Moves False F) (Moves False True) (f a)) :
    ∃ w, Take p v k w ∧ Ends (answersKeepalive k v p = true) F w ((q >>= f) d) := by
  rw [Prog.bind_apply]
  rcases hq : q d with ⟨_ | _ | _, d'⟩ <;> rw [hq] at h
  · obtain ⟨hb, w, ht, hw⟩ := h
    exact ⟨w, ht, .after hw (ends_of_does hb (hf _))⟩
  · exact h.ends
  · exact h.ends

theorem onPacket_raw {env : Env} {c : Ctl} (hc : c.consumer = some .raw)
    (desc : VmPacketDescriptor) (bytes : List UInt8) : Guest K (onPacket env c desc bytes) := by
  cases c with
  | negotiate ver rest => exact onNegotiate_does env ver rest _
  | recvBuf =>
    show Guest K (if bytes.isEmpty then pure .recvBuf else onRecvBuf env (parseNvspResponse bytes))
    split
    · exact guest_pure _
    · exact onRecvBuf_does env _
  | sendBuf =>
    show Guest K (if bytes.isEmpty then pure .sendBuf else onSendBuf (parseNvspResponse bytes))
    split
    · exact guest_pure _
    · exact onSendBuf_does _
  | singleQueue => exact checkMtu_does
  | _ => exact absurd hc (by simp [Ctl.consumer])

theorem next_of_unread {x : Posted} {rest : List Posted} (hx : unread d.log = x :: rest) :
    d.view.next = some x.packet := by
  rw [View.next, show d.view.log = d.log from rfl, hx]
  rfl

section

variable {x : Posted} {rest : List Posted} {env : Env} {c : Ctl}

/-- `recv_with_timeout` takes a packet, or finds that it cannot read it. -/
theorem advance_raw (hb : Base d) (hx : unread d.log = x :: rest) (hc : c.consumer = some .raw) :
    GuestMove c d.view fun K w => Ends K (c.inCall = true) w (advance env c d) := by
  have hnext := next_of_unread hx
  have hrecv : receive c = tryRecv respBufLen := by
    cases c <;> simp only [Ctl.consumer, Option.some.injEq, reduceCtorEq] at hc <;> rfl
  rcases tryRecv_cons hb hx respBufLen with ⟨hok, extra, -, h⟩ | ⟨hbad, h⟩
  · refine .inr ⟨.raw, x.packet, _, hc, hnext, hok, .raw, ?_⟩
    rw [advance, Prog.bind_apply, hrecv, h]
    exact ends_of_does (hb.removed hx) ((onPacket_raw hc _ _).mono
      (moves_mono id False.elim) id)
  · -- a packet that it cannot read stays on the ring
    refine .inl ⟨fun k p hk hp => ?_, ?_⟩
    · obtain rfl := Option.some_inj.mp (hc.symm.trans hk)
      obtain rfl := Option.some_inj.mp (hnext.symm.trans hp)
      exact hbad
    · rw [advance, Prog.bind_apply, hrecv]
      rcases h with ⟨e, h⟩ | h <;> rw [h] <;> exact ⟨hb, .refl⟩

theorem advance_poll (hb : Base d) (hx : unread d.log = x :: rest) (hc : c.consumer = some .poll) :
    GuestMove c d.view fun K w => Ends K (c.inCall = true) w (advance env c d) := by
  obtain ⟨c', hadv⟩ : ∃ c', advance env c d =
      (pollDispatch x.packet.desc (x.packet.body.take rawBufLen) >>= fun _ => pure c')
        (removed x.packet d) := by
    cases c <;> simp only [Ctl.consumer, Option.some.injEq, reduceCtorEq] at hc <;>
      exact ⟨_, by rw [advance, Prog.bind_apply, receive, tryRecvRaw_cons hb hx]; rfl⟩
  obtain ⟨w, ht, hend⟩ := (dispatch_poll hb hx).bind (F := c.inCall = true)
    (f := fun _ => pure c') fun _ => Prog.Does.pure (moves_closed fun _ => trivial) _
  exact .inr ⟨.poll, x.packet, w, hc, next_of_unread hx, rfl, ht, by rw [hadv]; exact hend⟩

theorem advance_pump (hb : Base d) (hx : unread d.log = x :: rest) (call : Call) :
    GuestMove (.pump call) d.view fun K w => Ends K True w (advance env (.pump call) d) := by
  have hadv : advance env (.pump call) d =
      (pumpDispatch x.packet.desc (x.packet.body.take rawBufLen) >>= fun more =>
        if more then pure (.pump call) else finishCall call) (removed x.packet d) := by
    rw [advance, Prog.bind_apply, receive, Prog.bind_apply, Prog.attempt, tryRecvRaw_cons hb hx]
    rfl
  obtain ⟨w, ht, hend⟩ := (dispatch_pump hb hx).bind (F := True)
    (f := fun more => if more then pure (.pump call) else finishCall call) (by
      intro more
      cases more with
      -- the loop ends where a packet is dropped
      | false => exact finishCall_does call
      | true => exact Prog.Does.pure (moves_closed id) _)
  exact .inr ⟨.pump, x.packet, w, rfl, next_of_unread hx, rfl, ht, by rw [hadv]; exact hend⟩

end

/-- **One receive and the work up to the next.** -/
theorem advance_moves (hb : Base d) (env : Env) (c : Ctl) :
    GuestMove c d.view fun K w => Ends K (c.inCall = true) w (advance env c d) := by
  have hempty : advance env c d = onEmpty env c d →
      Ends False (c.inCall = true) d.view (advance env c d) := by
    intro h
    rw [h]
    exact ends_of_does hb (onEmpty_does env c)
  rcases hx : unread d.log with _ | ⟨x, rest⟩
  · -- nothing to take
    refine .inl ⟨fun k p _ hp => ?_, hempty ?_⟩
    · rw [View.next, show d.view.log = d.log from rfl, hx] at hp
      exact absurd hp (by simp)
    · rw [advance, Prog.bind_apply]
      cases c <;> simp only [receive, tryRecv_nil hb hx, tryRecvRaw_nil hb hx, Prog.bind_apply,
        Prog.attempt, Prog.pure_apply]
  -- by the kind of receive
  rcases hc : c.consumer with _ | _ | _ | _
  · refine .inl ⟨fun k p hk _ => absurd (hc.symm.trans hk) (by simp), hempty ?_⟩
    rw [advance, Prog.bind_apply]
    cases c <;> simp only [Ctl.consumer, reduceCtorEq] at hc <;> rfl
  · exact advance_raw hb hx hc
  · exact advance_poll hb hx hc
  · cases c with
    | pump call => simpa [Ctl.inCall] using advance_pump hb hx call
    | _ => exact absurd hc (by simp [Ctl.consumer])

theorem Ends.caught {w : View} {p : Dev Ctl} (h : Ends K F w (p d)) :
    Ends K True w (caught p d) := by
  unfold Netvsc.caught
  rw [Prog.bind_apply, Prog.attempt]
  rcases hp : p d with ⟨_ | _ | _, d'⟩ <;> rw [hp] at h
  · exact ⟨h.1, moves_mono id (fun _ => trivial) h.2⟩
  · exact ⟨h.1, h.2⟩
  · exact ⟨h.1, h.2⟩

/-- `init` has failed, or the guest has panicked. -/
def Ctl.stopped : Ctl → Bool
  | .failed _ | .panicked => true
  | _ => false

theorem Ends.perform {w : View} {p : Dev Ctl} {s : Sys} (h : Ends K F w (p s.dev)) :
    Base (perform p s).dev ∧
      ReflTransGen (Micro K (F ∨ (perform p s).ctl.stopped = true)) w (perform p s).dev.view := by
  unfold Netvsc.perform
  rcases hp : p s.dev with ⟨_ | _ | _, d'⟩ <;> rw [hp] at h
  · exact ⟨h.1, moves_mono id .inl h.2⟩
  · exact ⟨h.1, moves_mono id (fun _ => .inr rfl) h.2⟩
  · exact ⟨h.1, moves_mono id (fun _ => .inr rfl) h.2⟩

section

variable {s u : Sys}

/-- **A guest step** takes at most one packet and goes on with moves that remove
nothing. -/
theorem guest_moves {env : Env} (hb : Base s.dev) (h : step s (.guest env) = some u) :
    GuestMove s.ctl s.dev.view fun K w => Base u.dev ∧
      ReflTransGen (Micro K (s.ctl.inCall = true ∨ u.ctl.stopped = true)) w u.dev.view := by
  obtain ⟨d, c⟩ := s
  simp only [step, Option.ite_none_right_eq_some, Option.some.injEq] at h
  obtain ⟨-, rfl⟩ := h
  have hadv := advance_moves hb env c
  have hsame : resume env c = advance env c → GuestMove c d.view fun K w =>
      Base (perform (resume env c) ⟨d, c⟩).dev ∧
        ReflTransGen (Micro K (c.inCall = true ∨
          (perform (resume env c) ⟨d, c⟩).ctl.stopped = true)) w
          (perform (resume env c) ⟨d, c⟩).dev.view := by
    intro hr
    rw [hr]
    exact hadv.imp fun h => h.perform
  cases c with
  | waitSection msg next =>
    cases next with
    | some req => exact hsame rfl
    | none =>
      -- the internal caller goes on after an error
      refine hadv.imp fun h => ?_
      obtain ⟨hb', hw⟩ := Ends.perform (s := ⟨d, .waitSection msg none⟩) h.caught
      exact ⟨hb', moves_mono id (fun _ => .inl rfl) hw⟩
  | _ => exact hsame rfl

theorem call_moves {c : Call} (hb : Base s.dev) (h : step s (.call c) = some u) :
    s.ctl = .ready ∧ Base u.dev ∧ ReflTransGen (Micro False True) s.dev.view u.dev.view := by
  obtain ⟨d, ctl⟩ := s
  cases ctl <;> simp only [step, reduceCtorEq, Option.some.injEq] at h
  obtain rfl := h
  obtain ⟨hb', hw⟩ := Ends.perform (s := ⟨d, .ready⟩) (ends_of_does hb (startCall_does c))
  exact ⟨rfl, hb', moves_mono id (fun _ => trivial) hw⟩

theorem put_moves {p : Packet} {mem : ℕ → UInt8} {tag : Option ℕ} (hb : Base s.dev)
    (h : step s (.put p mem tag) = some u) :
    u.ctl = s.ctl ∧ Base u.dev ∧
      u.dev.view = { s.dev.view with recvBuf := mem }.add [.put p tag (postedFrame p mem)] := by
  simp only [step, hostPut, hb.recv.sendAvail, Option.map_eq_some_iff,
    Option.ite_none_right_eq_some, Option.some.injEq] at h
  obtain ⟨d, ⟨hroom, rfl⟩, rfl⟩ := h
  refine ⟨rfl, ⟨?_, ?_, hb.send⟩, rfl⟩
  · show Repr (push s.dev.recv p (List.replicate 8 0)) _
    rw [unread_put hb.count, List.map_append]
    refine hb.recv.push (List.length_replicate ..) ?_
    show packetSpan (_ ++ [p]) < _
    rw [packetSpan_concat]
    omega
  · have hcount := hb.count
    rw [puts_append, removedCount_append, List.length_append]
    exact Nat.add_le_add hcount (Nat.zero_le _)

theorem take_moves (hb : Base s.dev) (h : step s .take = some u) :
    u.ctl = s.ctl ∧ Base u.dev ∧ u.dev.view = s.dev.view := by
  simp only [step, Option.some.injEq] at h
  obtain rfl := h
  refine ⟨rfl, ⟨hb.recv, hb.count, ?_⟩, rfl⟩
  obtain ⟨out, hout⟩ := hb.send
  cases out with
  | nil => exact ⟨[], by rw [recvPacketRaw, recvWith_nil hout]; exact hout⟩
  | cons p out => exact ⟨out, by rw [recvPacketRaw_cons hout]; exact hout.pop⟩

/-- **The rings hold what the history says**, in every state. -/
theorem base_of_step {a : Act} (hb : Base s.dev) (h : step s a = some u) : Base u.dev := by
  cases a with
  | guest env =>
    rcases guest_moves hb h with ⟨-, hu, -⟩ | ⟨_, _, _, -, -, -, -, hu, -⟩ <;> exact hu
  | call c => exact (call_moves hb h).2.1
  | put p mem tag => exact (put_moves hb h).2.1
  | take => exact (take_moves hb h).2.1

theorem base_openedDevice (ram : Ram) : Base (openedDevice ram) :=
  ⟨freshRing_repr (by decide) (by decide) (by decide), Nat.le_refl 0,
    [], freshRing_repr (by decide) (by decide) (by decide)⟩

end

end Netvsc
