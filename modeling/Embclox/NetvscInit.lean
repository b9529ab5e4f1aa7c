/-
TX completions during `init`.

The host completes every SEND_RNDIS_PKT, at any later time.  When `init` returns, the
section is free, or the completion of the last control message is still to come: it
is on the receive ring or has not been sent.  Otherwise nothing ever frees the
section again.

* `NothingSwallowed` — this property of a state;
* `nothingSwallowed_of_takesNone` — it holds when `init` returns, in every run in
  which no `recv_with_timeout` takes a TX completion;
* `completion_swallowed` — the receive of `nvsp_request_single_queue` takes the
  completion of the packet filter.
-/
import Embclox.NetvscTx

open Bytes Effect Ring Nvsp Relation Run

namespace Netvsc

/-! ### The last control message -/

/-- The last control message that was handed over is packet number `k`. -/
def LastControl (log : List Event) (k : ℕ) : Prop :=
  ∃ pre bytes transactionId payload post,
    log = pre ++ .wrote .control bytes :: .sent vmPktDataInband transactionId payload :: post ∧
      isSectionPacket vmPktDataInband payload = true ∧
      (∀ bytes, Event.wrote .control bytes ∉ post) ∧ sends pre = k

/-- The section is free, or the completion of the last control message is unread on
the receive ring or not yet sent by the host. -/
def NothingSwallowed (d : NetvscDevice) : Prop :=
  d.sendSectionFree = true ∨ ∃ k, LastControl d.log k ∧
    ((∃ x ∈ unread d.log, x.tag = some k) ∨ ∀ x ∈ puts d.log, x.tag ≠ some k)

/-- What has not been received is unread or has not been sent. -/
theorem outstanding_of_not_received {log : List Event} {k : ℕ} (h : k ∉ received log) :
    (∃ x ∈ unread log, x.tag = some k) ∨ ∀ x ∈ puts log, x.tag ≠ some k := by
  by_cases hput : ∃ x ∈ puts log, x.tag = some k
  · obtain ⟨x, hx, hk⟩ := hput
    -- the packets are the removed ones and the unread ones
    rw [← List.take_append_drop (removedCount log) (puts log), List.mem_append] at hx
    rcases hx with hx | hx
    · exact absurd (List.mem_filterMap.mpr ⟨x, hx, hk⟩) h
    · exact .inl ⟨x, hx, hk⟩
  · exact .inr fun x hx hk => hput ⟨x, hx, hk⟩

theorem LastControl.append {log new : List Event} {k : ℕ} (h : LastControl log k)
    (hnew : ∀ bytes, Event.wrote .control bytes ∉ new) : LastControl (log ++ new) k := by
  obtain ⟨pre, bytes, transactionId, payload, post, hlog, hsec, hpost, hk⟩ := h
  refine ⟨pre, bytes, transactionId, payload, post ++ new, ?_, hsec, fun bytes hmem => ?_, hk⟩
  · rw [hlog]
    simp
  · rcases List.mem_append.mp hmem with hmem | hmem
    · exact hpost bytes hmem
    · exact hnew bytes hmem

/-! ### The host -/

/-- The guest sees a SEND_RNDIS_PKT_COMPLETE in the packet. -/
def showsTxCompletion (p : Packet) : Bool :=
  p.desc.packetType == vmPktComp && isTxCompletion p.desc (p.body.take rawBufLen)

/-- The completions of the host are completions of packets that were sent, and nobody
calls the device before `init` returns. -/
def InitHost (s : Sys) : Act → Prop
  | .put p _ tag => ∀ k, tag = some k → showsTxCompletion p = true ∧ k < sends s.dev.log
  | .call _ => False
  | _ => True

/-- The next receive is a `recv_with_timeout` and takes a TX completion. -/
def swallowsNext (s : Sys) : Bool :=
  match s.ctl.consumer, s.dev.view.next with
  | some .raw, some p => showsTxCompletion p
  | _, _ => false

abbrev TakesNone : Sys → Act → Prop := Avoids swallowsNext

instance (s : Sys) : (a : Act) → Decidable (InitHost s a)
  | .put p _ tag => inferInstanceAs (Decidable
      (∀ k ∈ tag, showsTxCompletion p = true ∧ k < sends s.dev.log))
  | .call _ => .isFalse id
  | .guest _ | .take => .isTrue trivial

/-! ### Control points of `init` -/

/-- A request waits for the section as part of `init`. -/
theorem sendRndisControl_returns (msg : List UInt8) (req : Request) :
    Prog.Returns (fun c => c.inCall = false) (sendRndisControl msg (some req)) := by
  refine Prog.Returns.bind fun d => ?_
  split
  · exact Prog.Returns.bind fun _ => Prog.Returns.bind fun _ => Prog.Returns.pure rfl
  · exact Prog.Returns.pure rfl

theorem request_returns (build : UInt32 → List UInt8) (req : Request) :
    Prog.Returns (fun c => c.inCall = false) (request build req) :=
  Prog.Returns.bind fun _ => Prog.Returns.bind fun _ => sendRndisControl_returns _ req

theorem checkMtu_returns : Prog.Returns (fun c => c.inCall = false) checkMtu := by
  refine Prog.Returns.bind fun d => ?_
  split
  · exact Prog.Returns.pure rfl
  · exact Prog.Returns.panic

theorem negotiateFrom_returns (versions : List NvspVersion) :
    Prog.Returns (fun c => c.inCall = false) (negotiateFrom versions) := by
  cases versions with
  | nil => exact Prog.Returns.fail _
  | cons ver rest => exact Prog.Returns.bind fun _ => Prog.Returns.pure rfl

theorem onResponse_returns (req : Request) (resp : Option RndisResponse) :
    Prog.Returns (fun c => c.inCall = false) (onResponse req resp) := by
  unfold onResponse
  split
  · split
    · exact Prog.Returns.pure rfl
    · exact Prog.Returns.fail _
  · exact Prog.Returns.fail _
  · split
    · exact Prog.Returns.bind fun _ => request_returns _ _
    · split <;> exact request_returns _ _
  · split <;> exact request_returns _ _
  · split
    · exact Prog.Returns.bind fun _ => request_returns _ _
    · exact request_returns _ _
  · exact request_returns _ _
  · refine Prog.Returns.bind fun d => ?_
    split
    · exact Prog.Returns.bind fun _ => Prog.Returns.pure rfl
    · exact checkMtu_returns
  · exact Prog.Returns.fail _

theorem onPacket_returns {env : Env} {c : Ctl} (hc : c.inCall = false) (desc : VmPacketDescriptor)
    (bytes : List UInt8) :
    Prog.Returns (fun c => c.inCall = false) (onPacket env c desc bytes) := by
  cases c with
  | negotiate ver rest =>
    show Prog.Returns _ (onNegotiate env ver rest (parseNvspResponse bytes))
    unfold onNegotiate
    split
    · split
      · exact Prog.Returns.bind fun _ => Prog.Returns.bind fun _ => Prog.Returns.bind fun _ =>
          Prog.Returns.bind fun _ => Prog.Returns.bind fun _ => Prog.Returns.pure rfl
      · exact negotiateFrom_returns rest
    · exact negotiateFrom_returns rest
  | recvBuf =>
    show Prog.Returns _ (if bytes.isEmpty then pure .recvBuf
      else onRecvBuf env (parseNvspResponse bytes))
    unfold onRecvBuf
    split
    · exact Prog.Returns.pure rfl
    · split
      · split
        · exact Prog.Returns.bind fun _ => Prog.Returns.bind fun _ => Prog.Returns.pure rfl
        · exact Prog.Returns.fail _
      · exact Prog.Returns.fail _
  | sendBuf =>
    show Prog.Returns _ (if bytes.isEmpty then pure .sendBuf
      else onSendBuf (parseNvspResponse bytes))
    unfold onSendBuf
    split
    · exact Prog.Returns.pure rfl
    · split
      · split
        · exact request_returns _ _
        · exact Prog.Returns.fail _
      · exact Prog.Returns.fail _
  | singleQueue => exact checkMtu_returns
  | waitSection msg next =>
    cases next with
    | none => exact absurd hc (by simp [Ctl.inCall])
    | some req => exact Prog.Returns.bind fun _ => Prog.Returns.pure rfl
  | response req => exact Prog.Returns.bind fun _ => Prog.Returns.pure rfl
  | drain left processed => exact Prog.Returns.bind fun _ => Prog.Returns.pure rfl
  | pump call => exact absurd hc (by simp [Ctl.inCall])
  | _ => exact Prog.Returns.pure rfl

theorem onEmpty_returns {env : Env} {c : Ctl} (hc : c.inCall = false) :
    Prog.Returns (fun c => c.inCall = false) (onEmpty env c) := by
  have hwait : ∀ {c' : Ctl}, c'.inCall = false →
      Prog.Returns (fun c => c.inCall = false)
        (if env.expired then Prog.fail .timeout else pure c' : Dev Ctl) := by
    intro c' hc'
    split
    · exact Prog.Returns.fail _
    · exact Prog.Returns.pure hc'
  cases c with
  | opened => exact negotiateFrom_returns _
  | waitSection msg next =>
    cases next with
    | none => exact absurd hc (by simp [Ctl.inCall])
    | some req =>
      refine Prog.Returns.bind fun d => ?_
      split
      · exact Prog.Returns.bind fun _ => Prog.Returns.bind fun _ => Prog.Returns.pure rfl
      · exact hwait rfl
  | response req =>
    refine Prog.Returns.bind fun d => ?_
    split
    · exact Prog.Returns.bind fun _ => Prog.Returns.bind fun resp => onResponse_returns req resp
    · exact hwait rfl
  | drain left processed =>
    unfold onEmpty
    dsimp only
    split
    · exact Prog.Returns.pure rfl
    · exact request_returns _ _
  | pump call => exact absurd hc (by simp [Ctl.inCall])
  | _ => exact hwait rfl

/-- `init` never enters a call of the data path. -/
theorem inCall_resume {env : Env} {s : Sys} (hc : s.ctl.inCall = false) :
    (perform (resume env s.ctl) s).ctl.inCall = false := by
  have hret : Prog.Returns (fun c => c.inCall = false) (resume env s.ctl) := by
    have hadv : Prog.Returns (fun c => c.inCall = false) (advance env s.ctl) := by
      refine Prog.Returns.bind fun x => ?_
      rcases x with _ | ⟨desc, bytes⟩
      · exact onEmpty_returns hc
      · exact onPacket_returns hc desc bytes
    generalize s.ctl = c at hc hadv
    cases c with
    | waitSection msg next =>
      cases next with
      | none => exact absurd hc (by simp [Ctl.inCall])
      | some req => exact hadv
    | _ => exact hadv
  exact ctl_perform hret (fun _ => rfl) rfl s

/-! ### The invariant -/

structure InitInv (v : View) : Prop where
  tags : ∀ x ∈ puts v.log, ∀ k, x.tag = some k →
    showsTxCompletion x.packet = true ∧ k < sends v.log
  outstanding : v.sectionFree = true ∨ ∃ k, LastControl v.log k ∧ k ∉ received v.log

section

variable {K F : Prop} {v w : View}

theorem InitInv.received_lt (h : InitInv v) {k : ℕ} (hk : k ∈ received v.log) :
    k < sends v.log := by
  obtain ⟨x, hx, hxk⟩ := List.mem_filterMap.mp hk
  exact (h.tags x (List.mem_of_mem_take hx) k hxk).2

/-- Events that are neither on the ring nor control messages. -/
theorem InitInv.add (h : InitInv v) {new : List Event} (hoff : ∀ e ∈ new, e.offRing)
    (hnew : ∀ bytes, Event.wrote .control bytes ∉ new) : InitInv (v.add new) := by
  have hputs : puts (v.log ++ new) = puts v.log := by
    rw [puts_append, puts_offRing hoff, List.append_nil]
  refine ⟨?_, ?_⟩ <;> simp only [View.add, hputs, received_offRing hoff, sends_append]
  · intro x hx k hk
    exact ⟨(h.tags x hx k hk).1, Nat.lt_add_right _ (h.tags x hx k hk).2⟩
  · rcases h.outstanding with hfree | ⟨k, hlast, hk⟩
    · exact .inl hfree
    · exact .inr ⟨k, hlast.append hnew, hk⟩

/-- A control message becomes the last one, and its completion is still to come. -/
theorem InitInv.use (h : InitInv v) (bytes : List UInt8) {e : Event} (he : e.handsOver)
    (hne : e ≠ .ringFull) :
    InitInv ({ v with sectionFree := false }.add [.wrote .control bytes, e]) := by
  have hoff : ∀ e' ∈ [Event.wrote .control bytes, e], e'.offRing := offRing_pair he
  obtain ⟨transactionId, payload, rfl, hsec⟩ := he.resolve_right hne
  have hputs : puts (v.log ++
      [.wrote .control bytes, .sent vmPktDataInband transactionId payload]) = puts v.log := by
    rw [puts_append, puts_offRing hoff, List.append_nil]
  refine ⟨?_, .inr ⟨sends v.log, ?_, ?_⟩⟩
  · simp only [View.add, hputs, sends_append]
    intro x hx k hk
    exact ⟨(h.tags x hx k hk).1, Nat.lt_add_right _ (h.tags x hx k hk).2⟩
  · exact ⟨v.log, bytes, transactionId, payload, [], rfl, hsec, by simp, rfl⟩
  · simp only [View.add, received_offRing hoff]
    exact fun hmem => Nat.lt_irrefl _ (h.received_lt hmem)

theorem InitInv.micro (h : InitInv v) (hm : Micro K False v w) : InitInv w := by
  cases hm with
  | nvsp transactionId payload hp =>
    exact h.add (by simp) (by simp)
  | full => exact h.add (by simp) (by simp)
  | use sender bytes e hfree he hf =>
    obtain ⟨rfl, hne⟩ := hf.resolve_right id
    exact h.use bytes he hne
  | reply bytes e hk hfree he =>
    -- a reply is not a control message
    refine h.add (offRing_pair he) fun bytes' hmem => ?_
    rcases List.mem_pair.mp hmem with heq | heq
    · exact absurd heq (by simp)
    · rcases he with ⟨_, _, rfl, -⟩ | rfl <;> exact absurd heq (by simp)
  | deliver frame hp =>
    have hv : InitInv { v with pendingRx := none } := ⟨h.tags, h.outstanding⟩
    exact hv.add (by simp) (by simp)

theorem InitInv.moves (h : InitInv v) (hm : ReflTransGen (Micro K False) v w) : InitInv w := by
  induction hm with
  | refl => exact h
  | tail _ hstep ih => exact ih.micro hstep

variable {k : Consumer} {x : Posted} {rest : List Posted}

/-- No control message is written by a removal. -/
theorem LastControl.take {p : Packet} (h : Take p v k w) {n : ℕ} (hn : LastControl v.log n) :
    LastControl w.log n := by
  rcases h.log with ⟨-, e, he, hlog⟩ | ⟨hlog, -⟩
  · rw [hlog]
    refine hn.append fun bytes hmem => ?_
    rcases List.mem_pair.mp hmem with heq | heq
    · exact absurd heq (by simp)
    · rcases he with rfl | rfl <;> exact absurd heq (by simp)
  · rw [hlog]
    exact hn.append (by simp)

/-- A packet that shows no completion has no number. -/
theorem InitInv.received_of_take (hv : InitInv v) (h : Take x.packet v k w)
    (hx : unread v.log = x :: rest) (hno : showsTxCompletion x.packet = false) :
    received w.log = received v.log := by
  have htag : x.tag = none := by
    by_contra hne
    obtain ⟨n, hn⟩ := Option.ne_none_iff_exists'.mp hne
    exact Bool.eq_false_iff.mp hno (hv.tags x (mem_puts_of_unread hx) n hn).1
  rw [h.received_eq hx, htag]
  exact List.append_nil _

/-- The dispatch loops see a completion and set the flag. -/
theorem Take.sectionFree_of_shows {p : Packet} (h : Take p v k w) (hk : k ≠ .raw)
    (hshow : showsTxCompletion p = true) : w.sectionFree = true := by
  simp only [showsTxCompletion, Bool.and_eq_true, beq_iff_eq] at hshow
  obtain ⟨hty, hseen⟩ := hshow
  cases h with
  | raw => exact absurd rfl hk
  | poll e ht he => exact absurd (hty.symm.trans ht) vmPktComp_ne_xferPages
  | pump e ht hp he => exact absurd (hty.symm.trans ht) vmPktComp_ne_xferPages
  | drop ht hp => exact absurd (hty.symm.trans ht) vmPktComp_ne_xferPages
  | completion k hk ht => simp [View.add, hseen]
  | other k hk ht ht' => exact absurd hty ht'

theorem Take.sectionFree_mono {p : Packet} (h : Take p v k w) (hv : v.sectionFree = true) :
    w.sectionFree = true := by
  cases h with
  | completion k hk ht => simp [View.add, hv]
  | _ => exact hv

/-- A removal that does not swallow a completion. -/
theorem Take.initInv (h : Take x.packet v k w) (hx : unread v.log = x :: rest) (hv : InitInv v)
    (hraw : k = .raw → showsTxCompletion x.packet = false) : InitInv w := by
  refine ⟨?_, ?_⟩
  · rw [h.ring.1, h.sends_eq]
    exact hv.tags
  · rcases hv.outstanding with hfree | ⟨n, hn, hnr⟩
    · exact .inl (h.sectionFree_mono hfree)
    · by_cases hshow : showsTxCompletion x.packet = true
      · refine .inl (h.sectionFree_of_shows ?_ hshow)
        rintro rfl
        exact Bool.eq_false_iff.mp (hraw rfl) hshow
      · refine .inr ⟨n, hn.take h, ?_⟩
        rwa [hv.received_of_take h hx (Bool.eq_false_iff.mpr hshow)]

end

/-! ### Runs -/

/-- A stopped guest makes no more steps; until then, nothing is swallowed. -/
structure InitRun (s : Sys) : Prop where
  base : Base s.dev
  ctl : s.ctl.inCall = false
  inv : s.ctl.stopped = true ∨ InitInv s.dev.view

theorem initRun_opened (ram : Ram) : InitRun (openedSys ram) :=
  ⟨base_openedDevice ram, rfl,
    .inr ⟨fun x hx => absurd hx (by simp [openedSys, openedDevice, NetvscDevice.view, puts]),
      .inl rfl⟩⟩

section

variable {s u : Sys} {a : Act}

theorem initRun_guest {env : Env} (hs : InitRun s) (hc : TakesNone s (.guest env))
    (h : step s (.guest env) = some u) : InitRun u := by
  have hmoves := guest_moves hs.base h
  refine ⟨base_of_step hs.base h, ?_, ?_⟩
  · simp only [step, Option.ite_none_right_eq_some, Option.some.injEq] at h
    obtain ⟨-, rfl⟩ := h
    exact inCall_resume hs.ctl
  · by_cases hstop : u.ctl.stopped = true
    · exact .inl hstop
    · -- the guest is in `init` and goes on, so no message has failed
      have hF : ¬ (s.ctl.inCall = true ∨ u.ctl.stopped = true) := by
        rintro (hcall | hstop')
        · exact Bool.eq_false_iff.mp hs.ctl hcall
        · exact hstop hstop'
      have hrun : s.ctl.running = true := by
        by_contra hrun
        simp [step, hrun] at h
      have hv : InitInv s.dev.view := hs.inv.resolve_left fun hst => by
        cases hctl : s.ctl <;> rw [hctl] at hst hrun <;>
          simp [Ctl.stopped, Ctl.running] at hst hrun
      right
      rcases hmoves with ⟨-, -, hw⟩ | ⟨k, p, w, hk, hp, -, ht, -, hw⟩
      · exact hv.moves (moves_mono id hF hw)
      · obtain ⟨x, rest, hx, rfl⟩ := View.next_eq_some hp
        refine (ht.initInv hx hv ?_).moves (moves_mono id hF hw)
        rintro rfl
        simpa only [Avoids, swallowsNext, hk, hp] using hc

theorem initRun_put {p : Packet} {mem : ℕ → UInt8} {tag : Option ℕ} (hs : InitRun s)
    (hhost : InitHost s (.put p mem tag)) (h : step s (.put p mem tag) = some u) : InitRun u := by
  obtain ⟨hctl, hb, hview⟩ := put_moves hs.base h
  refine ⟨hb, by rw [hctl]; exact hs.ctl, ?_⟩
  rw [hctl, hview]
  refine hs.inv.imp id fun hv => ?_
  have hputs : puts (s.dev.log ++ [.put p tag (postedFrame p mem)]) =
      puts s.dev.log ++ [⟨p, tag, postedFrame p mem⟩] := puts_append _ _
  have hsends : sends (s.dev.log ++ [.put p tag (postedFrame p mem)]) = sends s.dev.log :=
    sends_append _ _
  refine ⟨?_, ?_⟩
  · show ∀ x ∈ puts (s.dev.log ++ [.put p tag (postedFrame p mem)]), ∀ k, x.tag = some k →
      showsTxCompletion x.packet = true ∧ k < sends (s.dev.log ++ [.put p tag (postedFrame p mem)])
    rw [hputs, hsends]
    intro x hx k hk
    rcases List.mem_append.mp hx with hx | hx
    · exact hv.tags x hx k hk
    · obtain rfl := List.mem_singleton.mp hx
      exact hhost k hk
  · rcases hv.outstanding with hfree | ⟨k, hlast, hk⟩
    · exact .inl hfree
    · refine .inr ⟨k, hlast.append (by simp), ?_⟩
      rw [show received (View.log _) = received s.dev.log from received_put hs.base.count]
      exact hk

theorem initRun_step (hs : InitRun s) (hhost : InitHost s a) (hc : TakesNone s a)
    (h : step s a = some u) : InitRun u := by
  cases a with
  | guest env => exact initRun_guest hs hc h
  | call c => exact absurd hhost id
  | put p mem tag => exact initRun_put hs hhost h
  | take =>
    obtain ⟨hctl, hb, hview⟩ := take_moves hs.base h
    exact ⟨hb, by rw [hctl]; exact hs.ctl, by rw [hctl, hview]; exact hs.inv⟩

end

/-- **Completions during `init`.**  In every run from the opened channel in which no
`recv_with_timeout` takes a TX completion: when `init` returns, the section is free or
the completion of the last control message is still to come. -/
theorem nothingSwallowed_of_takesNone {ram : Ram} {l : List Act} {s : Sys}
    (h : Exec step (fun s a => InitHost s a ∧ TakesNone s a) (openedSys ram) l s)
    (hready : s.ctl = .ready) : NothingSwallowed s.dev := by
  have hrun : InitRun s := h.invariant (initRun_opened ram)
    fun hi hg hstep => initRun_step hi hg.1 hg.2 hstep
  have hv := hrun.inv.resolve_left (by rw [hready]; decide)
  rcases hv.outstanding with hfree | ⟨k, hlast, hk⟩
  · exact .inl hfree
  · exact .inr ⟨k, hlast, outstanding_of_not_received hk⟩

/-- The completion of the packet filter comes after the end of `init`. -/
def lateCompletion : List Act :=
  nvspPhase ++ rndisPhase ++
    [answerRndis 10 setCmplt, receives, receives, answerNvsp subChannelCmplt, receives]

theorem nothingSwallowed_of_takesNone_late_completion :
    ∃ s, Exec step (fun s a => InitHost s a ∧ TakesNone s a) (openedSys { }) lateCompletion s ∧
      s.ctl = .ready ∧ s.dev.sendSectionFree = false ∧ NothingSwallowed s.dev := by
  obtain ⟨s, hs, hready, hused⟩ : ∃ s, Exec step (fun s a => InitHost s a ∧ TakesNone s a)
      (openedSys { }) lateCompletion s ∧ s.ctl = .ready ∧ s.dev.sendSectionFree = false :=
    Exec.exists_of_run (by decide +kernel)
  exact ⟨s, hs, hready, hused, nothingSwallowed_of_takesNone hs hready⟩

/-- The completion of the packet filter comes between the request for a single queue
and its answer. -/
def completionAtSwitch : List Act :=
  nvspPhase ++ rndisPhase ++ [answerRndis 10 setCmplt, receives, receives, completeTx 3, receives]

theorem LastControl.lt_sends {log : List Event} {k : ℕ} (h : LastControl log k) :
    k < sends log := by
  obtain ⟨pre, bytes, transactionId, payload, post, rfl, hsec, -, rfl⟩ := h
  rw [sends_append]
  -- the message itself comes after the `k` packets before it
  have hone : 0 < sends (.wrote .control bytes ::
      .sent vmPktDataInband transactionId payload :: post) :=
    List.countP_pos_iff.mpr ⟨.sent vmPktDataInband transactionId payload, by simp, hsec⟩
  omega

/-- `init` returns with the section in use, and all completions have been received. -/
theorem completion_swallowed :
    ∃ s, Exec step InitHost (openedSys { }) completionAtSwitch s ∧ s.ctl = .ready ∧
      ¬ NothingSwallowed s.dev := by
  obtain ⟨s, hs, hready, hused, hsends, hrec, hempty⟩ : ∃ s, Exec step InitHost (openedSys { })
      completionAtSwitch s ∧ s.ctl = .ready ∧ s.dev.sendSectionFree = false ∧
        sends s.dev.log = 4 ∧ received s.dev.log = [0, 1, 2, 3] ∧ unread s.dev.log = [] :=
    Exec.exists_of_run (by decide +kernel)
  refine ⟨s, hs, hready, ?_⟩
  rintro (hfree | ⟨k, hlast, ⟨x, hx, -⟩ | hnone⟩)
  · exact Bool.eq_false_iff.mp hused hfree
  · rw [hempty] at hx
    exact absurd hx (by simp)
  · -- its completion was put and received
    have hk := hlast.lt_sends
    have hmem : k ∈ received s.dev.log := by
      rw [hrec, List.mem_cons, List.mem_cons, List.mem_pair]
      omega
    obtain ⟨x, hx, hxk⟩ := List.mem_filterMap.mp hmem
    exact hnone x (List.mem_of_mem_take hx) hxk

end Netvsc
