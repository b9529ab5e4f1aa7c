/-
The task behind a NetVSC device.

`DynNic` asks the device with `rx_ready` and `tx_ready`, which read the receive ring, and
registers the waker of the channel when it has nothing to hand out.  The host signals when
it puts a packet on an empty ring; `vmbus_isr` clears the bit of the channel and wakes the
task.  Nobody looks at the ring again after the waker is registered.

* `WakeSys` — the device, the interrupt of its channel, and the task that polls the network
  stack, with the answers it got;
* `WakeOk` — a task that has found no frame is woken by the next packet, and so is one that
  has found no room, unless `pump_channel` stopped before the end of the ring;
* `wakeOk_of_run` — it holds in every state in which the task waits, for every waker cell
  that keeps a registration until the next wake;
* `stalls_after_drop` — otherwise the packet that gives the room back can lie on the ring
  while nothing is going to wake the task.
-/
import Embclox.NetvscRx
import Embclox.NetvscSend
import Embclox.Sint

open Async Bytes Effect Nvsp Relation Ring Run

namespace Netvsc

/-- Where the task stands. -/
inductive Task
  /-- In the network stack. -/
  | running
  /-- In the `rx_ready` of `receive`. -/
  | asksRx
  /-- In the `tx_ready` of `receive`. -/
  | asksBoth
  /-- In the `tx_ready` of `transmit`. -/
  | asksTx
  /-- About to register the waker. -/
  | registers
  | parked
  deriving DecidableEq

structure WakeSys (ω : Type) where
  nic : Sys
  line : Sint.Line ω
  task : Task
  /-- The last `rx_ready` has found no frame. -/
  noFrame : Bool
  /-- The last `tx_ready` has found section 0 in use. -/
  noRoom : Bool
  /-- It stopped at a packet for which there was no slot. -/
  stopped : Bool

inductive WakeAct
  | put (p : Packet) (mem : ℕ → UInt8) (tag : Option ℕ)
  | take
  /-- The host signals, or the handler of the interrupt runs. -/
  | line (a : Sint.Act)
  /-- The executor polls the task. -/
  | poll
  | receive
  | transmit
  /-- The token of `receive` is consumed. -/
  | consumeRx
  | consumeTx (frameLen : ℕ) (f : List UInt8 → List UInt8)
  /-- The next receive of `pump_channel`. -/
  | pump
  | register
  /-- The task waits. -/
  | park

section

variable {ω : Type}

/-- The task starts a call of the driver. -/
def starts (s : WakeSys ω) (call : Call) (task : Task) : Option (WakeSys ω) :=
  (step s.nic (.call call)).map fun nic => { s with nic, task }

/-- What the task does with an answer. -/
def answered (s : WakeSys ω) (nic : Sys) : Option (WakeSys ω) :=
  match s.task with
  | .asksRx =>
      if nic.dev.pendingRx.isSome then starts { s with nic } .hasTxSpace .asksBoth
      else some { s with nic, task := .registers, noFrame := true }
  | .asksBoth | .asksTx =>
      if nic.dev.sendSectionFree then some { s with nic, task := .running, noRoom := false }
      else some { s with nic, task := .registers, noRoom := true, stopped := dropsNext s.nic }
  | _ => some { s with nic }

/-- A packet on an empty ring is signalled. -/
def owes (s : WakeSys ω) : Sint.Line ω :=
  if recvAvail s.nic.dev.recv = some 0 then { s.line with owed := true } else s.line

section

variable (relid : ℕ) (cell : Cell ω)

/-- The task does not run while the handler does. -/
def taskStep (s : WakeSys ω) : WakeAct → Option (WakeSys ω)
  | .poll =>
      if s.task = .parked then
        some { s with
          line := { s.line with woken := false }
          task := .running
          noFrame := false
          noRoom := false }
      else none
  | .receive => if s.task = .running then starts { s with noFrame := false } .hasRxPacket .asksRx
      else none
  | .transmit => if s.task = .running then starts s .hasTxSpace .asksTx else none
  | .consumeRx => if s.task = .running then starts s .recvWith .running else none
  | .consumeTx frameLen f =>
      if s.task = .running then starts s (.transmitWith frameLen f) .running else none
  | .pump =>
      match step s.nic (.guest { }) with
      | none => none
      | some nic => if nic.ctl = .ready then answered s nic else some { s with nic }
  | .register =>
      if s.task = .registers then
        some { s with
          line := { s.line with cell := cell.register s.line.cell }
          task := .running }
      else none
  | .park =>
      if s.task = .running ∧ s.nic.ctl = .ready then some { s with task := .parked } else none
  | .put .. | .take | .line _ => none

def wakeStep (s : WakeSys ω) : WakeAct → Option (WakeSys ω)
  | .put p mem tag => (step s.nic (.put p mem tag)).map fun nic => { s with nic, line := owes s }
  | .take => (step s.nic .take).map fun nic => { s with nic }
  | .line a => (Sint.step relid cell s.line a).map fun line => { s with line }
  | a => if Sint.idle s.line.isr.pc then taskStep cell s a else none

/-- The task has got an answer that it waits on. -/
def WakeSys.waits (s : WakeSys ω) : Bool := s.noFrame || s.noRoom

/-- The host does not signal in the middle of the handler's update, and the handler does not
come to its wake between the task's answer and its registration while the cell is empty. -/
def WakeHost (s : WakeSys ω) : WakeAct → Prop
  | .line a =>
      Sint.Undisturbed relid s.line a ∧ (s.waits = true → Sint.Registered relid cell s.line a)
  | _ => True

instance (s : WakeSys ω) : (a : WakeAct) → Decidable (WakeHost relid cell s a)
  | .line _ => inferInstanceAs (Decidable (_ ∧ _))
  | .put .. | .take | .poll | .receive | .transmit | .consumeRx | .consumeTx .. | .pump |
    .register | .park => .isTrue trivial

/-- The signal under way gets to its wake: the host signals if it owes that, and the handler
runs. -/
def Wakes (s : WakeSys ω) : Prop :=
  ∃ (l : List Sint.Act) (u : WakeSys ω), Exec (wakeStep relid cell)
    (fun s a => ∃ b, a = .line b ∧ Sint.Serves relid s.line b) s (l.map .line) u ∧
      u.line.woken = true

def FrameWaits (v : View) : Prop := unread v.log ≠ [] ∨ v.pendingRx.isSome = true

def RoomWaits (v : View) : Prop := unread v.log ≠ [] ∨ v.sectionFree = true

/-- What a parked task can count on. -/
structure WakeOk (s : WakeSys ω) : Prop where
  frame : s.noFrame = true → FrameWaits s.nic.dev.view → Wakes relid cell s
  room : s.noRoom = true → s.stopped = false → RoomWaits s.nic.dev.view → Wakes relid cell s

end

/-- An initialised device, and a task that has been spawned. -/
def wakeInit (nic : Sys) (line : Sint.Line ω) : WakeSys ω where
  nic := nic
  line := line
  task := .parked
  noFrame := false
  noRoom := false
  stopped := false

end

/-! ### What the device leaves to do -/

/-- Nothing new waits. -/
structure NoMore (v w : View) : Prop where
  frame : FrameWaits w → FrameWaits v
  room : RoomWaits w → RoomWaits v

theorem NoMore.refl (v : View) : NoMore v v := ⟨id, id⟩

theorem NoMore.of_unread {v : View} (h : unread v.log ≠ []) (w : View) : NoMore v w :=
  ⟨fun _ => .inl h, fun _ => .inl h⟩

section

variable {ω : Type} {relid : ℕ} {cell : Cell ω} {K F : Prop} {v w : View}

theorem Micro.noMore (h : Micro K F v w) : NoMore v w := by
  have hring : unread w.log = unread v.log := by
    obtain ⟨new, hlog, hnew⟩ := h.log
    rw [hlog, unread_offRing fun e he => (hnew e he).1]
  refine ⟨Or.imp (hring ▸ id) ?_, Or.imp (hring ▸ id) ?_⟩
  · cases h with
    | deliver => simp [View.add]
    | _ => exact id
  · cases h with
    | use => simp [View.add]
    | _ => exact id

theorem noMore_of_moves (h : ReflTransGen (Micro K F) v w) : NoMore v w := by
  induction h with
  | refl => exact .refl v
  | tail _ h ih => exact ⟨ih.frame ∘ h.noMore.frame, ih.room ∘ h.noMore.room⟩

variable {s u : Sys}

theorem guest_noMore {env : Env} (hb : Base s.dev) (h : step s (.guest env) = some u) :
    NoMore s.dev.view u.dev.view := by
  rcases guest_moves hb h with ⟨-, -, hw⟩ | ⟨k, p, w, -, hp, -, -, -, -⟩
  · exact noMore_of_moves hw
  · -- there was a packet
    obtain ⟨x, rest, hx, -⟩ := View.next_eq_some hp
    exact .of_unread (by rw [hx]; simp) _

theorem call_noMore {c : Call} (hb : Base s.dev) (h : step s (.call c) = some u) :
    NoMore s.dev.view u.dev.view :=
  noMore_of_moves (call_moves hb h).2.2

/-! ### The end of `pump_channel` -/

/-- `has_rx_packet` and `has_tx_space`. -/
def Call.asks : Call → Bool
  | .hasRxPacket | .hasTxSpace => true
  | _ => false

theorem finishCall_asks {call : Call} (h : call.asks = true) : finishCall call = pure .ready := by
  cases call with
  | hasRxPacket => rfl
  | hasTxSpace => rfl
  | _ => exact absurd h Bool.false_ne_true

/-- The call goes on after a packet that was dispatched. -/
theorem ctl_of_goesOn {env : Env} {call : Call} {d d' : NetvscDevice} {desc : VmPacketDescriptor}
    {raw : List UInt8} (hraw : tryRecvRaw rawBufLen d = (.ok (some (desc, raw)), d'))
    (h : (pumpDispatch desc raw d').1 ≠ .ok false) :
    (perform (advance env (.pump call)) ⟨d, .pump call⟩).ctl ≠ .ready := by
  have hadvance : advance env (.pump call) d = (pumpDispatch desc raw >>= fun more =>
      if more then return .pump call else finishCall call : Dev Ctl) d' := by
    rw [advance, Prog.bind_apply, receive_pump call hraw]
    rfl
  rw [perform, hadvance, Prog.bind_apply]
  generalize pumpDispatch desc raw d' = x at h
  rcases x with ⟨(_ | _) | _ | _, d''⟩
  · exact absurd rfl h
  all_goals simp

/-- **`pump_channel` ends** at the end of the ring, or at a packet for which there is no
slot. -/
theorem pump_ends {env : Env} {call : Call} (hb : Base s.dev) (hc : s.ctl = .pump call)
    (hcall : call.asks = true) (h : step s (.guest env) = some u) (hready : u.ctl = .ready) :
    u.dev = s.dev ∧ unread s.dev.log = [] ∨
      dropsNext s = true ∧ u.dev.pendingRx.isSome = true := by
  obtain ⟨d, c⟩ := s
  obtain rfl : c = .pump call := hc
  obtain rfl : perform (advance env (.pump call)) ⟨d, .pump call⟩ = u := by
    simpa [step, Ctl.running, resume] using h
  have hrecv := hb.recv
  cases hx : unread d.log with
  | nil =>
    -- the receive finds the end of the ring
    refine .inl ⟨?_, rfl⟩
    rw [show unread (Sys.dev ⟨d, .pump call⟩).log = [] from hx] at hrecv
    rw [perform_dev, advance, Prog.bind_apply,
      receive_pump call (tryRecvRaw_of_empty hrecv rawBufLen)]
    show (finishCall call d).2 = d
    rw [finishCall_asks hcall]
    rfl
  | cons x rest =>
    rw [show unread (Sys.dev ⟨d, .pump call⟩).log = _ from hx] at hrecv
    have hraw := tryRecvRaw_of_repr hrecv rawBufLen
    by_cases hstop : x.packet.desc.packetType = vmPktDataUsingXferPages ∧
        d.pendingRx.isSome = true
    · -- a frame while the slot is taken: it is removed, and the loop stops
      refine .inr ⟨?_, ?_⟩
      · simp only [dropsNext, next_of_unread hx, Bool.and_eq_true, beq_iff_eq]
        exact hstop
      · have hround : pumpRound d = (.ok false, removed x.packet d) :=
          (pumpRound_of_packet hraw).trans
            (pumpDispatch_stops (by rw [hstop.1, fromU16_xferPages]) hstop.2)
        rw [perform_dev, advance_pumpRound env call hround, if_neg Bool.false_ne_true,
          finishCall_asks hcall]
        exact hstop.2
    · -- after any other packet the loop goes on
      refine absurd hready (ctl_of_goesOn hraw (pumpDispatch_goesOn fun hty => ?_))
      exact Bool.eq_false_iff.mpr fun hp => hstop ⟨packetType_of_fromU16 hty, hp⟩

/-! ### The invariant -/

structure WakeInv (relid : ℕ) (cell : Cell ω) (s : WakeSys ω) : Prop where
  base : Base s.nic.dev
  alert : Sint.Alert relid s.line
  frame : s.noFrame = true → FrameWaits s.nic.dev.view → Sint.Rung relid s.line
  room : s.noRoom = true → s.stopped = false → RoomWaits s.nic.dev.view →
    Sint.Rung relid s.line
  registered : s.waits = true →
    (s.line.woken = true ∨ cell.holds s.line.cell = true) ∨ s.task = .registers
  /-- The receives of an answer are those of its call. -/
  asksRx : s.task = .asksRx → s.nic.ctl.running = true → s.nic.ctl = .pump .hasRxPacket
  asksTx : s.task = .asksBoth ∨ s.task = .asksTx → s.nic.ctl.running = true →
    s.nic.ctl = .pump .hasTxSpace

variable {t v : WakeSys ω}

/-- A run of the signal alone. -/
theorem wakes_of_coming (hrelid : relid / 64 < Isr.siefpWords)
    (h : Sint.Coming relid cell t.line) : Wakes relid cell t := by
  obtain ⟨l, line, hrun, hwoken⟩ := h.wakes hrelid
  refine ⟨l, { t with line }, ?_, hwoken⟩
  refine hrun.lift (fun line => { t with line }) WakeAct.line fun {b c a} hg hs => ?_
  refine ⟨⟨a, rfl, hg⟩, ?_⟩
  rw [wakeStep, hs]
  rfl

theorem WakeInv.wakeOk (hrelid : relid / 64 < Isr.siefpWords) (hi : WakeInv relid cell t)
    (hpark : t.task = .parked) : WakeOk relid cell t := by
  have hcoming : t.waits = true → Sint.Rung relid t.line → Wakes relid cell t := fun hwaits hrung =>
    wakes_of_coming hrelid ⟨hrung, hi.alert, (hi.registered hwaits).resolve_right (by simp [hpark])⟩
  refine ⟨fun hno hwork => hcoming ?_ (hi.frame hno hwork),
    fun hno hstop hwork => hcoming ?_ (hi.room hno hstop hwork)⟩
  · rw [WakeSys.waits, hno, Bool.true_or]
  · rw [WakeSys.waits, hno, Bool.or_true]

/-- The device goes on and leaves no more to do. -/
theorem WakeInv.of_noMore (hi : WakeInv relid cell t) {nic : Sys} (hb : Base nic.dev)
    (hwork : NoMore t.nic.dev.view nic.dev.view)
    (hrx : t.task = .asksRx → nic.ctl.running = true → nic.ctl = .pump .hasRxPacket)
    (htx : t.task = .asksBoth ∨ t.task = .asksTx → nic.ctl.running = true →
      nic.ctl = .pump .hasTxSpace) : WakeInv relid cell { t with nic } where
  base := hb
  alert := hi.alert
  frame := fun hno hw => hi.frame hno (hwork.frame hw)
  room := fun hno hstop hw => hi.room hno hstop (hwork.room hw)
  registered := hi.registered
  asksRx := hrx
  asksTx := htx

/-! ### Steps of the task -/

theorem ctl_of_call {s u : Sys} {call : Call} (h : step s (.call call) = some u)
    (hcall : call.asks = true) : u.ctl = .pump call := by
  obtain ⟨d, c⟩ := s
  cases c <;> simp only [step, reduceCtorEq, Option.some.injEq] at h
  subst h
  cases call with
  | hasRxPacket => rfl
  | hasTxSpace => rfl
  | _ => exact absurd hcall Bool.false_ne_true

theorem ctl_of_guest {s u : Sys} {env : Env} {call : Call} (hc : s.ctl = .pump call)
    (hcall : call.asks = true) (h : step s (.guest env) = some u) (hrun : u.ctl.running = true) :
    u.ctl = .pump call := by
  have hreturns : Prog.Returns (fun c => c.running = true → c = .pump call)
      (advance env (.pump call)) := by
    have hfinish : Prog.Returns (fun c => c.running = true → c = .pump call)
        (finishCall call) := by
      rw [finishCall_asks hcall]
      exact Prog.Returns.pure fun h => absurd h Bool.false_ne_true
    refine Prog.Returns.bind fun x => ?_
    rcases x with _ | ⟨desc, bytes⟩
    · exact hfinish
    · refine Prog.Returns.bind fun more => ?_
      cases more with
      | false => exact hfinish
      | true => exact Prog.Returns.pure fun _ => rfl
  obtain rfl : perform (advance env (.pump call)) s = u := by
    simpa [step, hc, Ctl.running, resume] using h
  exact ctl_perform (P := fun c => c.running = true → c = .pump call) hreturns
    (fun _ h => absurd h Bool.false_ne_true) (fun h => absurd h Bool.false_ne_true) s hrun

theorem WakeInv.starts (hi : WakeInv relid cell t) {call : Call} {task : Task}
    (h : starts t call task = some v) (hreg : t.task ≠ .registers)
    (hrx : task = .asksRx → call = .hasRxPacket)
    (htx : task = .asksBoth ∨ task = .asksTx → call = .hasTxSpace) : WakeInv relid cell v := by
  obtain ⟨nic, hstep, rfl⟩ := Option.map_eq_some_iff.mp h
  have hwork := call_noMore hi.base hstep
  refine ⟨base_of_step hi.base hstep, hi.alert, fun hno hw => hi.frame hno (hwork.frame hw),
    fun hno hstop hw => hi.room hno hstop (hwork.room hw),
    fun hwaits => .inl ((hi.registered hwaits).resolve_right hreg), ?_, ?_⟩
  · intro htask _
    obtain rfl := hrx htask
    exact ctl_of_call hstep rfl
  · intro htask _
    obtain rfl := htx htask
    exact ctl_of_call hstep rfl

/-- The device after a receive. -/
theorem WakeInv.guest (hi : WakeInv relid cell t) {nic : Sys}
    (h : step t.nic (.guest { }) = some nic) : WakeInv relid cell { t with nic } := by
  have hrun : t.nic.ctl.running = true := by
    by_contra hstop
    simp [step, hstop] at h
  exact hi.of_noMore (base_of_step hi.base h) (guest_noMore hi.base h)
    (fun htask => ctl_of_guest (hi.asksRx htask hrun) rfl h)
    (fun htask => ctl_of_guest (hi.asksTx htask hrun) rfl h)

/-- **An answer**: a task that waits for a frame, or for room without having stopped, has
seen the end of the ring. -/
theorem WakeInv.answered (hi : WakeInv relid cell t) {nic : Sys}
    (h : step t.nic (.guest { }) = some nic) (hready : nic.ctl = .ready)
    (ha : answered t nic = some v) : WakeInv relid cell v := by
  have hrun : t.nic.ctl.running = true := by
    by_contra hstop
    simp [step, hstop] at h
  have hnic := hi.guest h
  unfold Netvsc.answered at ha
  cases htask : t.task with
  | asksRx =>
    simp only [htask] at ha
    by_cases hpending : nic.dev.pendingRx.isSome = true
    · -- there is a frame: room for the answer is asked for next
      rw [if_pos hpending] at ha
      exact hnic.starts ha (by simp [htask]) (by simp) fun _ => rfl
    · -- without a frame the loop has come to the end of the ring
      rw [if_neg hpending, Option.some.injEq] at ha
      subst ha
      refine ⟨hnic.base, hnic.alert, fun _ hw => ?_, hnic.room, fun _ => .inr rfl, by simp,
        by simp⟩
      rcases pump_ends hi.base (hi.asksRx htask hrun) rfl h hready with ⟨hdev, hend⟩ | ⟨-, hp⟩
      · rw [hdev] at hw hpending
        exact absurd hw (not_or.mpr ⟨not_not.mpr hend, hpending⟩)
      · exact absurd hp hpending
  | asksBoth | asksTx =>
    simp only [htask] at ha
    by_cases hfree : nic.dev.sendSectionFree = true
    · -- there is room: only an earlier answer is waited on still
      rw [if_pos hfree, Option.some.injEq] at ha
      subst ha
      refine ⟨hnic.base, hnic.alert, hnic.frame, by simp, fun hwaits => ?_, by simp, by simp⟩
      refine .inl ((hi.registered ?_).resolve_right (by simp [htask]))
      simp only [WakeSys.waits, Bool.or_false] at hwaits ⊢
      rw [hwaits, Bool.true_or]
    · rw [if_neg hfree, Option.some.injEq] at ha
      subst ha
      refine ⟨hnic.base, hnic.alert, hnic.frame, fun _ hstop hw => ?_, fun _ => .inr rfl, by simp,
        by simp⟩
      -- without room, and without a frame that was dropped, the ring has been read
      have hc := hi.asksTx (by simp [htask]) hrun
      rcases pump_ends hi.base hc rfl h hready with ⟨hdev, hend⟩ | ⟨hdrop, -⟩
      · rw [hdev] at hw hfree
        exact absurd hw (not_or.mpr ⟨not_not.mpr hend, hfree⟩)
      · exact absurd (hstop.symm.trans hdrop) (by decide)
  | _ =>
    simp only [htask, Option.some.injEq] at ha
    subst ha
    rwa [← htask]

/-- The task forgets the answers it does not wait on any more. -/
theorem WakeInv.forget (hi : WakeInv relid cell t) :
    WakeInv relid cell { t with noFrame := false } where
  base := hi.base
  alert := hi.alert
  frame := fun h => absurd h Bool.false_ne_true
  room := hi.room
  registered := fun h => hi.registered (by
    rw [WakeSys.waits, Bool.false_or] at h
    rw [WakeSys.waits, h, Bool.or_true])
  asksRx := hi.asksRx
  asksTx := hi.asksTx

theorem WakeInv.taskStep (hcell : cell.Sound) (hi : WakeInv relid cell t) {a : WakeAct}
    (h : taskStep cell t a = some v) : WakeInv relid cell v := by
  cases a with
  | poll =>
    -- the task waits on nothing any more
    simp only [Netvsc.taskStep, Option.ite_none_right_eq_some, Option.some.injEq] at h
    obtain ⟨-, rfl⟩ := h
    exact ⟨hi.base, ⟨hi.alert.siefp, hi.alert.flag, hi.alert.seen⟩, by simp, by simp,
      by simp [WakeSys.waits], by simp, by simp⟩
  | receive =>
    simp only [Netvsc.taskStep, Option.ite_none_right_eq_some] at h
    obtain ⟨htask, h⟩ := h
    exact hi.forget.starts h (by simp [htask]) (fun _ => rfl) (by simp)
  | transmit =>
    simp only [Netvsc.taskStep, Option.ite_none_right_eq_some] at h
    obtain ⟨htask, h⟩ := h
    exact hi.starts h (by simp [htask]) (by simp) fun _ => rfl
  | consumeRx | consumeTx =>
    simp only [Netvsc.taskStep, Option.ite_none_right_eq_some] at h
    obtain ⟨htask, h⟩ := h
    exact hi.starts h (by simp [htask]) (by simp) (by simp)
  | pump =>
    unfold Netvsc.taskStep at h
    dsimp only at h
    cases hstep : step t.nic (.guest { }) with
    | none => simp [hstep] at h
    | some nic =>
      simp only [hstep] at h
      by_cases hready : nic.ctl = .ready
      · rw [if_pos hready] at h
        exact hi.answered hstep hready h
      · rw [if_neg hready, Option.some.injEq] at h
        subst h
        exact hi.guest hstep
  | register =>
    simp only [Netvsc.taskStep, Option.ite_none_right_eq_some, Option.some.injEq] at h
    obtain ⟨-, rfl⟩ := h
    exact ⟨hi.base, ⟨hi.alert.siefp, hi.alert.flag, hi.alert.seen⟩, hi.frame, hi.room,
      fun _ => .inl (.inr (hcell.registered _)), by simp, by simp⟩
  | park =>
    simp only [Netvsc.taskStep, Option.ite_none_right_eq_some, Option.some.injEq] at h
    obtain ⟨⟨htask, -⟩, rfl⟩ := h
    exact ⟨hi.base, hi.alert, hi.frame, hi.room,
      fun hwaits => .inl ((hi.registered hwaits).resolve_right (by simp [htask])), by simp, by simp⟩
  | put | take | line => simp [Netvsc.taskStep] at h

/-! ### Steps of the host and the handler -/

theorem owes_alert (h : Sint.Alert relid t.line) : Sint.Alert relid (owes t) := by
  unfold owes
  split
  · exact ⟨h.siefp, h.flag, h.seen⟩
  · exact h

theorem owes_rung (h : Sint.Rung relid t.line) : Sint.Rung relid (owes t) := by
  unfold owes
  split
  · exact .inr (.inl rfl)
  · exact h

theorem owes_cell : (owes t).cell = t.line.cell ∧ (owes t).woken = t.line.woken := by
  unfold owes
  split <;> exact ⟨rfl, rfl⟩

/-- A packet on an empty ring. -/
theorem owes_of_empty (hb : Base t.nic.dev) (h : unread t.nic.dev.log = []) :
    Sint.Rung relid (owes t) := by
  have hrecv := hb.recv
  rw [h, List.map_nil] at hrecv
  have havail : recvAvail t.nic.dev.recv = some 0 := hrecv.recvAvail
  rw [owes, if_pos havail]
  exact .inr (.inl rfl)

/-- **A packet is put**: on an empty ring the host signals, and what is on the ring has been
signalled. -/
theorem WakeInv.put (hi : WakeInv relid cell t) {p : Packet} {mem : ℕ → UInt8}
    {tag : Option ℕ} {nic : Sys} (h : step t.nic (.put p mem tag) = some nic) :
    WakeInv relid cell { t with nic, line := owes t } := by
  obtain ⟨hctl, hb, -⟩ := put_moves hi.base h
  have hrung : (unread t.nic.dev.log ≠ [] → Sint.Rung relid t.line) → Sint.Rung relid (owes t) := by
    intro hold
    by_cases hempty : unread t.nic.dev.log = []
    · exact owes_of_empty hi.base hempty
    · exact owes_rung (hold hempty)
  refine ⟨hb, owes_alert hi.alert, fun hno _ => hrung fun hne => hi.frame hno (.inl hne),
    fun hno hstop _ => hrung fun hne => hi.room hno hstop (.inl hne), ?_, ?_, ?_⟩
  · intro hwaits
    simp only [owes_cell]
    exact hi.registered hwaits
  · rw [hctl]
    exact hi.asksRx
  · rw [hctl]
    exact hi.asksTx

theorem WakeInv.line (hi : WakeInv relid cell t) {a : Sint.Act} {line : Sint.Line ω}
    (hg : WakeHost relid cell t (.line a)) (h : Sint.step relid cell t.line a = some line) :
    WakeInv relid cell { t with line } := by
  have hrung : t.waits = true → Sint.Rung relid t.line → Sint.Rung relid line :=
    fun hwaits hr => hr.step hi.alert (hg.2 hwaits) h
  refine ⟨hi.base, hi.alert.step hg.1 h, fun hno hw => hrung ?_ (hi.frame hno hw),
    fun hno hstop hw => hrung ?_ (hi.room hno hstop hw), ?_, hi.asksRx, hi.asksTx⟩
  · rw [WakeSys.waits, hno, Bool.true_or]
  · rw [WakeSys.waits, hno, Bool.or_true]
  · intro hwaits
    exact (hi.registered hwaits).imp_left fun hreg => Sint.registered_step hreg h

theorem wakeInv_step (hcell : cell.Sound) {a : WakeAct} (hi : WakeInv relid cell t)
    (hg : WakeHost relid cell t a) (h : wakeStep relid cell t a = some v) :
    WakeInv relid cell v := by
  cases a with
  | put p mem tag =>
    obtain ⟨nic, hstep, rfl⟩ := Option.map_eq_some_iff.mp h
    exact hi.put hstep
  | take =>
    rw [wakeStep, Option.map_eq_some_iff] at h
    obtain ⟨nic, hstep, rfl⟩ := h
    obtain ⟨hctl, hb, hview⟩ := take_moves hi.base hstep
    refine hi.of_noMore hb (hview ▸ .refl _) ?_ ?_
    · rw [hctl]
      exact hi.asksRx
    · rw [hctl]
      exact hi.asksTx
  | line a =>
    obtain ⟨line, hstep, rfl⟩ := Option.map_eq_some_iff.mp h
    exact hi.line hg hstep
  | _ =>
    simp only [wakeStep, Option.ite_none_right_eq_some] at h
    exact hi.taskStep hcell h.2

theorem wakeInv_init {nic : Sys} (hb : Base nic.dev) {line : Sint.Line ω}
    (hline : Sint.Alert relid line) : WakeInv relid cell (wakeInit nic line) :=
  ⟨hb, hline, by simp [wakeInit], by simp [wakeInit],
    by simp [wakeInit, WakeSys.waits], by simp [wakeInit], by simp [wakeInit]⟩

/-- Without an interrupt and without a signal that is owed, the task is not woken. -/
theorem not_wakes_of_quiet (hidle : Sint.idle t.line.isr.pc = true) (hirq : t.line.irq = false)
    (howed : t.line.owed = false) (hwoken : t.line.woken = false) : ¬ Wakes relid cell t := by
  rintro ⟨l, u, hrun, hu⟩
  -- there is no step to take
  have hsame : u.line = t.line := by
    refine hrun.invariant (I := fun u => u.line = t.line) rfl ?_
    rintro s u a hline ⟨b, rfl, rfl | ⟨rfl, howed', -⟩⟩ hstep
    · rw [wakeStep, Sint.step, hline, if_pos (by simp [hidle, hirq])] at hstep
      simp at hstep
    · rw [hline, howed] at howed'
      exact absurd howed' Bool.false_ne_true
  rw [hsame, hwoken] at hu
  exact absurd hu Bool.false_ne_true

end

/-- The receive buffer, with a frame at its start. -/
def frameBuf : ℕ → UInt8 := Memory.write (fun _ => 0) 0 (packetMsg [1, 2, 3])

def putsFrame (transactionId : UInt64) : WakeAct :=
  .put (xferPagePacket transactionId (UInt32.ofNat (packetMsg [1, 2, 3]).length) 0) frameBuf none

/-- The completion of a frame that was sent. -/
def putsCompletion : WakeAct :=
  .put (nvspCompletion (le32 NvspMessageType.sendRndisPktComplete.asU32 ++ le32 nvspStatSuccess))
    frameBuf none

/-- The page of flags is published and empty, and the handler does not run. -/
def quietLine : Sint.Line Bool := ⟨Isr.init Isr.quietPages, false, false, false, false⟩

theorem alert_quietLine : Sint.Alert 5 quietLine where
  siefp := rfl
  flag := fun h => absurd h.2 (by decide)
  seen := fun _ h => absurd h (by simp [quietLine, Isr.init])

/-- The task finds nothing and waits; then a frame comes. -/
def frameForWaiting : List WakeAct :=
  [.poll, .receive, .pump, .register, .park, putsFrame 11]

/-- The host signals channel 5, and the handler runs to its end: it takes the interrupt,
reads, clears and walks the first word, and finds the others empty. -/
def signalled : List WakeAct :=
  .line .signal :: List.replicate 38 (.line .isr)

/-- A frame is sent and one comes in, whose signal wakes the task.  Before the task looks
at the ring, two more frames and the completion come. -/
def completionBehindFrames : List WakeAct :=
  [.poll, .transmit, .pump, .consumeTx 3 id, .receive, .pump, .register, .park, putsFrame 11] ++
    signalled ++ [.poll, putsFrame 12, putsFrame 13, putsCompletion,
    .receive, .pump, .pump, .pump, .register, .park]

/-- The completion is on the ring, and nothing is going to wake the task. -/
theorem stalls_after_drop : ∃ s, Exec (wakeStep 5 .taking) (WakeHost 5 .taking)
    (wakeInit (readySys { }) quietLine) completionBehindFrames s ∧
      (s.task, s.noRoom, s.stopped) = (.parked, true, true) ∧
      (unread s.nic.dev.log).map (fun x => x.packet.desc.packetType) = [vmPktComp] ∧
      ¬ Wakes 5 .taking s := by
  obtain ⟨s, hrun, hs⟩ : ∃ s, Exec (wakeStep 5 .taking) (WakeHost 5 .taking)
      (wakeInit (readySys { }) quietLine) completionBehindFrames s ∧
      ((s.task, s.noRoom, s.stopped),
        (unread s.nic.dev.log).map (fun x => x.packet.desc.packetType),
        (Sint.idle s.line.isr.pc, s.line.irq, s.line.owed, s.line.woken)) =
        ((.parked, true, true), [vmPktComp], (true, false, false, false)) :=
    Exec.exists_of_map (by decide +kernel)
  obtain ⟨htask, hs⟩ := Prod.mk.inj hs
  obtain ⟨hring, hs⟩ := Prod.mk.inj hs
  obtain ⟨hidle, hirq, howed, hwoken⟩ : Sint.idle s.line.isr.pc = true ∧ s.line.irq = false ∧
      s.line.owed = false ∧ s.line.woken = false := by simpa using hs
  exact ⟨s, hrun, htask, hring, not_wakes_of_quiet hidle hirq howed hwoken⟩

end Netvsc
