/-
Interrupts that are latched on an edge, and a task that waits for them.

A device drives an interrupt line from its registers.  The input of the interrupt
controller latches a rising edge of the line, and only while it is routed: an earlier
edge is not seen, and a line that stays high has no further one.  The handler makes its
accesses to the registers one at a time, wakes the cell of the task and ends.  The task
looks for an item, and if there is none it registers in the cell and returns.  It can be
polled at any time; of the cell nothing is known but what `Async.Cell.Sound` says.

* `Alert` — a line that is high is latched, or the handler has not touched it yet;
* `alert_or_deaf` — it holds along a run if the input is routed while the line is low,
  for every handler whose first access lowers the line; otherwise no edge comes again;
* `Noticed`, `inv_of_run` — no item waits for a task that found none and that nothing is
  going to wake;
* `Inv.wakes` — the handler then wakes the task without a further item.
-/
import Embclox.Async
import Embclox.Exec

open Async Run

namespace Irq

/-- What a step of a device is. -/
inductive Kind
  /-- A call of its driver. -/
  | call
  /-- A new item, whose cause the device raises. -/
  | arrival
  /-- Work of the device that raises no cause. -/
  | silent
  deriving DecidableEq

/-- A device, with what a task asks before it takes an item: whether there is one, and
whether there is room for the answer. -/
structure Device (δ α : Type) where
  step : δ → α → Option δ
  kind : α → Kind
  ready : δ → Bool
  room : δ → Bool

/-- The registers of an interrupt source: the line that they drive, the causes that the
device raises, what the driver writes to enable them, and the accesses of the handler. -/
structure Source (ρ κ : Type) where
  line : ρ → Bool
  raise : κ → ρ → ρ
  /-- The cause of a new item. -/
  item : κ
  enable : ρ → ρ
  first : ρ → ρ
  rest : List (ρ → ρ)

section

variable {ρ κ δ α ω : Type}

namespace Source

variable (src : Source ρ κ)

/-- The number of accesses that the handler makes. -/
def accesses : ℕ := src.rest.length + 1

/-- The access after the first `k`. -/
def access (k : ℕ) (r : ρ) : ρ := (src.first :: src.rest)[k]?.elim r fun f => f r

/-- A new item raises the line. -/
def Live (r : ρ) : Prop := src.line (src.raise src.item r) = true

/-- A source that can be used with edges.  `I` is what is known about its registers. -/
structure Sound (I : ρ → Prop) : Prop where
  lowers : ∀ r, src.line (src.first r) = false
  stays : ∀ c r, src.line r = true → src.line (src.raise c r) = true
  raises : ∀ c r, src.Live r → src.Live (src.raise c r)
  enables : ∀ r, I r → src.Live (src.enable r)
  /-- The last access leaves the causes enabled. -/
  ends : ∀ r, I r → src.Live (src.access src.rest.length r)
  keeps_raise : ∀ c r, I r → I (src.raise c r)
  keeps_enable : ∀ r, I r → I (src.enable r)
  keeps_access : ∀ k r, I r → I (src.access k r)

end Source

/-- Where the waiting task stands. -/
inductive Waiter
  /-- It is being polled. -/
  | running
  /-- It has found no item and registers next. -/
  | unready
  /-- It found no item, has registered and returned. -/
  | parked
  /-- There was an item and no room, or it has not run yet. -/
  | blocked
  deriving DecidableEq

/-- The registers and the input they drive, the handler with the number of its accesses
so far, the rest of the device, the waker cell and the task. -/
structure Sys (ρ δ ω : Type) where
  regs : ρ
  routed : Bool
  enabled : Bool
  latched : Bool
  handler : Option ℕ
  dev : δ
  cell : ω
  /-- The waker of the task was called since it was polled last. -/
  woken : Bool
  waiter : Waiter

/-- New values of the registers; a rising edge is latched. -/
def Sys.drive (src : Source ρ κ) (s : Sys ρ δ ω) (r : ρ) : Sys ρ δ ω :=
  { s with
    regs := r
    latched := s.latched || (s.routed && !src.line s.regs && src.line r) }

inductive Act (α κ : Type)
  | device (a : α)
  /-- The device raises a cause without a new item. -/
  | cause (c : κ)
  /-- The driver routes the input. -/
  | route
  /-- The driver enables the causes. -/
  | enable
  /-- The CPU takes the interrupt. -/
  | deliver
  /-- The next access of the handler, its wake or its end. -/
  | handler
  /-- Something else wakes the task. -/
  | other
  /-- The executor polls the task. -/
  | poll
  /-- The task asks for an item. -/
  | check
  /-- The task registers and returns. -/
  | register

/-- The handler: its accesses, the wake, the end. -/
def handlerStep (src : Source ρ κ) (cell : Cell ω) (s : Sys ρ δ ω) (k : ℕ) : Sys ρ δ ω :=
  if k < src.accesses then { s with handler := some (k + 1) }.drive src (src.access k s.regs)
  else if k = src.accesses then
    { s with
      handler := some (k + 1)
      cell := cell.wake s.cell
      woken := s.woken || cell.holds s.cell }
  else { s with handler := none }

/-- The task and its calls have to wait for the handler to end. -/
def step (src : Source ρ κ) (cell : Cell ω) (d : Device δ α) (s : Sys ρ δ ω) :
    Act α κ → Option (Sys ρ δ ω)
  | .device a =>
      match d.kind a with
      | .call =>
          if s.handler = none ∧ s.waiter = .running then
            (d.step s.dev a).map fun dev => { s with dev }
          else none
      | .arrival =>
          (d.step s.dev a).map fun dev => { s with dev }.drive src (src.raise src.item s.regs)
      | .silent => (d.step s.dev a).map fun dev => { s with dev }
  | .cause c => some (s.drive src (src.raise c s.regs))
  | .route =>
      if s.routed = false then some { s with routed := true } else none
  | .enable =>
      if s.routed = true ∧ s.enabled = false ∧ s.handler = none then
        some ({ s with enabled := true }.drive src (src.enable s.regs))
      else none
  | .deliver =>
      if s.latched = true ∧ s.handler = none then
        some { s with latched := false, handler := some 0 }
      else none
  | .handler => s.handler.map (handlerStep src cell s)
  | .other => some { s with woken := true }
  | .poll =>
      if s.enabled = true ∧ s.handler = none ∧ (s.waiter = .parked ∨ s.waiter = .blocked) then
        some { s with woken := false, waiter := .running }
      else none
  | .check =>
      if s.handler = none ∧ s.waiter = .running then
        some (if d.ready s.dev then s else { s with waiter := .unready })
      else none
  | .register =>
      if s.handler = none then
        match s.waiter with
        | .unready => some { s with cell := cell.register s.cell, waiter := .parked }
        | .running => if d.room s.dev then none
            else some { s with cell := cell.register s.cell, waiter := .blocked }
        | _ => none
      else none

/-- Nothing is routed or enabled, and the task has not run yet. -/
def init (r : ρ) (dev : δ) (w : ω) : Sys ρ δ ω :=
  ⟨r, false, false, false, none, dev, w, false, .blocked⟩

/-- A line that is high is latched, or the handler has not touched it yet. -/
def Alert (src : Source ρ κ) (s : Sys ρ δ ω) : Prop :=
  s.routed = true → src.line s.regs = true → s.latched = true ∨ s.handler = some 0

/-- No step routes the input while the line is high. -/
def RoutesLow (src : Source ρ κ) (s : Sys ρ δ ω) : Act α κ → Prop
  | .route => src.line s.regs = false
  | _ => True

/-- The handler has not woken the task yet. -/
def Handling (src : Source ρ κ) (s : Sys ρ δ ω) : Prop :=
  ∃ k ≤ src.accesses, s.handler = some k

/-- An item that waits for a task that found none has been, or is going to be, noticed. -/
def Noticed (src : Source ρ κ) (d : Device δ α) (s : Sys ρ δ ω) : Prop :=
  s.waiter = .unready ∨ s.waiter = .parked → d.ready s.dev = true →
    s.woken = true ∨ s.latched = true ∨ Handling src s

/-- The handler does not come to its wake between the task's look and its registration,
unless the cell still holds an earlier one. -/
def RegistersFirst (src : Source ρ κ) (cell : Cell ω) (s : Sys ρ δ ω) : Act α κ → Prop
  | .handler => s.handler = some src.accesses → s.waiter = .unready → cell.holds s.cell = true
  | _ => True

instance (src : Source ρ κ) (s : Sys ρ δ ω) (a : Act α κ) : Decidable (RoutesLow src s a) := by
  cases a <;> unfold RoutesLow <;> infer_instance

instance (src : Source ρ κ) (cell : Cell ω) (s : Sys ρ δ ω) (a : Act α κ) :
    Decidable (RegistersFirst src cell s a) := by
  cases a <;> unfold RegistersFirst <;> infer_instance

/-! ### What a step does -/

variable {src : Source ρ κ} {cell : Cell ω} {d : Device δ α} {s u : Sys ρ δ ω}

@[simp] theorem drive_regs (r : ρ) : (s.drive src r).regs = r := rfl
@[simp] theorem drive_routed (r : ρ) : (s.drive src r).routed = s.routed := rfl
@[simp] theorem drive_enabled (r : ρ) : (s.drive src r).enabled = s.enabled := rfl
@[simp] theorem drive_handler (r : ρ) : (s.drive src r).handler = s.handler := rfl
@[simp] theorem drive_dev (r : ρ) : (s.drive src r).dev = s.dev := rfl
@[simp] theorem drive_cell (r : ρ) : (s.drive src r).cell = s.cell := rfl
@[simp] theorem drive_woken (r : ρ) : (s.drive src r).woken = s.woken := rfl
@[simp] theorem drive_waiter (r : ρ) : (s.drive src r).waiter = s.waiter := rfl

theorem latched_drive {r : ρ} (h : s.latched = true) : (s.drive src r).latched = true := by
  simp [Sys.drive, h]

/-- A line that goes up is latched. -/
theorem latched_drive_of_edge {r : ρ} (hr : s.routed = true) (hlow : src.line s.regs = false)
    (hhigh : src.line r = true) : (s.drive src r).latched = true := by
  simp [Sys.drive, hr, hlow, hhigh]

/-- Without an edge nothing new is latched. -/
theorem latched_drive_of_high {r : ρ} (h : src.line s.regs = true) :
    (s.drive src r).latched = s.latched := by
  simp [Sys.drive, h]

theorem latched_drive_of_not_routed {r : ρ} (h : s.routed = false) :
    (s.drive src r).latched = s.latched := by
  simp [Sys.drive, h]

/-- Everything that a step can do to the input and the handler. -/
inductive Moves (src : Source ρ κ) (cell : Cell ω) (d : Device δ α) (s : Sys ρ δ ω) :
    Act α κ → Sys ρ δ ω → Prop
  /-- A call of the driver, by the task. -/
  | call {a : α} {dev : δ} : d.kind a = .call → s.handler = none → s.waiter = .running →
      d.step s.dev a = some dev → Moves src cell d s (.device a) { s with dev }
  | arrival {a : α} {dev : δ} : d.kind a = .arrival → d.step s.dev a = some dev →
      Moves src cell d s (.device a) ({ s with dev }.drive src (src.raise src.item s.regs))
  | silent {a : α} {dev : δ} : d.kind a = .silent → d.step s.dev a = some dev →
      Moves src cell d s (.device a) { s with dev }
  | cause (c : κ) : Moves src cell d s (.cause c) (s.drive src (src.raise c s.regs))
  | route : s.routed = false → Moves src cell d s .route { s with routed := true }
  | enable : s.routed = true → s.handler = none →
      Moves src cell d s .enable ({ s with enabled := true }.drive src (src.enable s.regs))
  | deliver : s.latched = true → s.handler = none →
      Moves src cell d s .deliver { s with latched := false, handler := some 0 }
  | access {k : ℕ} : s.handler = some k → k < src.accesses →
      Moves src cell d s .handler
        ({ s with handler := some (k + 1) }.drive src (src.access k s.regs))
  | wake : s.handler = some src.accesses →
      Moves src cell d s .handler
        { s with
          handler := some (src.accesses + 1)
          cell := cell.wake s.cell
          woken := s.woken || cell.holds s.cell }
  | ends {k : ℕ} : s.handler = some k → src.accesses < k →
      Moves src cell d s .handler { s with handler := none }
  | other : Moves src cell d s .other { s with woken := true }
  | poll : s.enabled = true → s.handler = none →
      Moves src cell d s .poll { s with woken := false, waiter := .running }
  | found : s.waiter = .running → Moves src cell d s .check s
  | missing : s.waiter = .running → d.ready s.dev = false →
      Moves src cell d s .check { s with waiter := .unready }
  | parks : s.waiter = .unready →
      Moves src cell d s .register { s with cell := cell.register s.cell, waiter := .parked }
  | blocks : s.waiter = .running →
      Moves src cell d s .register { s with cell := cell.register s.cell, waiter := .blocked }

theorem moves_of_handler (h : (step src cell d s .handler : Option (Sys ρ δ ω)) = some u) :
    Moves src cell d s .handler u := by
  cases hk : s.handler with
  | none => simp [step, hk] at h
  | some k =>
    simp only [step, hk, Option.map_some, Option.some.injEq] at h
    subst h
    unfold handlerStep
    by_cases hlt : k < src.accesses
    · rw [if_pos hlt]
      exact .access hk hlt
    · rw [if_neg hlt]
      by_cases heq : k = src.accesses
      · rw [if_pos heq]
        subst heq
        exact .wake hk
      · rw [if_neg heq]
        exact .ends hk (by omega)

theorem moves_of_device {a : α} (h : step src cell d s (.device a) = some u) :
    Moves src cell d s (.device a) u := by
  cases hkind : d.kind a with
  | call =>
    by_cases hc : s.handler = none ∧ s.waiter = .running
    · simp only [step, hkind, if_pos hc, Option.map_eq_some_iff] at h
      obtain ⟨dev, hdev, rfl⟩ := h
      exact .call hkind hc.1 hc.2 hdev
    · simp [step, hkind, hc] at h
  | arrival =>
    simp only [step, hkind, Option.map_eq_some_iff] at h
    obtain ⟨dev, hdev, rfl⟩ := h
    exact .arrival hkind hdev
  | silent =>
    simp only [step, hkind, Option.map_eq_some_iff] at h
    obtain ⟨dev, hdev, rfl⟩ := h
    exact .silent hkind hdev

theorem moves_of_step {a : Act α κ} (h : step src cell d s a = some u) :
    Moves src cell d s a u := by
  cases a with
  | device a => exact moves_of_device h
  | cause c =>
    obtain rfl := Option.some.inj h
    exact .cause c
  | route =>
    by_cases hr : s.routed = false
    · simp only [step, if_pos hr, Option.some.injEq] at h
      subst h
      exact .route hr
    · simp [step, hr] at h
  | enable =>
    by_cases hc : s.routed = true ∧ s.enabled = false ∧ s.handler = none
    · simp only [step, if_pos hc, Option.some.injEq] at h
      subst h
      exact .enable hc.1 hc.2.2
    · simp [step, hc] at h
  | deliver =>
    by_cases hc : s.latched = true ∧ s.handler = none
    · simp only [step, if_pos hc, Option.some.injEq] at h
      subst h
      exact .deliver hc.1 hc.2
    · simp [step, hc] at h
  | handler => exact moves_of_handler h
  | other =>
    obtain rfl := Option.some.inj h
    exact .other
  | poll =>
    by_cases hc : s.enabled = true ∧ s.handler = none ∧
        (s.waiter = .parked ∨ s.waiter = .blocked)
    · simp only [step, if_pos hc, Option.some.injEq] at h
      subst h
      exact .poll hc.1 hc.2.1
    · simp [step, hc] at h
  | check =>
    by_cases hc : s.handler = none ∧ s.waiter = .running
    · simp only [step, if_pos hc, Option.some.injEq] at h
      subst h
      cases hready : d.ready s.dev with
      | true => exact .found hc.2
      | false => exact .missing hc.2 hready
    · simp [step, hc] at h
  | register =>
    by_cases hh : s.handler = none
    · cases hw : s.waiter with
      | unready =>
        simp only [step, if_pos hh, hw, Option.some.injEq] at h
        subst h
        exact .parks hw
      | running =>
        by_cases hroom : d.room s.dev = true
        · simp [step, hh, hw, hroom] at h
        · simp only [step, if_pos hh, hw, if_neg hroom, Option.some.injEq] at h
          subst h
          exact .blocks hw
      | parked => simp [step, hh, hw] at h
      | blocked => simp [step, hh, hw] at h
    · simp [step, hh] at h

/-! ### The line and its edges -/

/-- An input that is not routed has latched nothing. -/
def Quiet (s : Sys ρ δ ω) : Prop := s.routed = false → s.latched = false ∧ s.handler = none

/-- Whatever is written, an edge is latched and what is owed stays owed. -/
theorem Alert.drive {r : ρ} (h : Alert src s) : Alert src (s.drive src r) := by
  intro hr hline
  cases hlow : src.line s.regs with
  | false => exact .inl (latched_drive_of_edge hr hlow hline)
  | true =>
    rcases h hr hlow with hl | h0
    · exact .inl (latched_drive hl)
    · exact .inr h0

variable {I : ρ → Prop}

/-- **One step keeps the input alert**, unless it routes it while the line is high. -/
theorem Alert.moves {a : Act α κ} (hs : src.Sound I) (h : Alert src s) (hroute : RoutesLow src s a)
    (hm : Moves src cell d s a u) : Alert src u := by
  cases hm with
  | call => exact h
  | silent => exact h
  | arrival => exact Alert.drive (s := { s with dev := _ }) h
  | cause c => exact h.drive
  | route _ => exact fun _ hline => absurd hline (by simpa [RoutesLow] using hroute)
  | enable _ _ => exact Alert.drive (s := { s with enabled := true }) h
  | deliver _ _ => exact fun _ _ => .inr rfl
  | @access k hk _ =>
    -- the first access lowers the line; before a later one the edge is latched
    cases k with
    | zero => exact fun _ hline => absurd hline (by simp [Source.access, hs.lowers])
    | succ k =>
      have hk' : Alert src { s with handler := some (k + 1 + 1) } := by
        intro hr hline
        exact .inl ((h hr hline).resolve_right (by simp [hk]))
      exact hk'.drive
  | wake hk =>
    intro hr hline
    exact .inl ((h hr hline).resolve_right (by simp [hk, Source.accesses]))
  | ends hk hlt =>
    intro hr hline
    refine .inl ((h hr hline).resolve_right ?_)
    rw [hk, Option.some.injEq]
    omega
  | other => exact h
  | poll => exact h
  | found => exact h
  | missing => exact h
  | parks => exact h
  | blocks => exact h

theorem Quiet.drive {r : ρ} (h : Quiet s) : Quiet (s.drive src r) := by
  intro hr
  rw [latched_drive_of_not_routed (s := s) hr]
  exact h hr

theorem Quiet.moves {a : Act α κ} (h : Quiet s) (hm : Moves src cell d s a u) : Quiet u := by
  cases hm with
  | call => exact h
  | silent => exact h
  | arrival => exact Quiet.drive (s := { s with dev := _ }) h
  | cause c => exact h.drive
  | route _ => exact fun hr => absurd hr (by simp)
  | enable hr _ => exact fun hr' => absurd (hr.symm.trans hr') (by simp)
  | deliver hl _ => exact fun hr => absurd (hl.symm.trans (h hr).1) (by simp)
  | access hk _ => exact fun hr => absurd (hk.symm.trans (h hr).2) (by simp)
  | wake hk => exact fun hr => absurd (hk.symm.trans (h hr).2) (by simp)
  | ends hk _ => exact fun hr => absurd (hk.symm.trans (h hr).2) (by simp)
  | other => exact h
  | poll => exact h
  | found => exact h
  | missing => exact h
  | parks => exact h
  | blocks => exact h

/-! ### A line that is never lowered -/

/-- The line is high and nothing is latched, so that the handler never runs. -/
def Deaf (src : Source ρ κ) (s : Sys ρ δ ω) : Prop :=
  s.routed = true ∧ src.line s.regs = true ∧ s.latched = false ∧ s.handler = none

theorem Deaf.drive {r : ρ} (h : Deaf src s) (hr : src.line r = true) :
    Deaf src (s.drive src r) := by
  refine ⟨h.1, hr, ?_, h.2.2.2⟩
  rw [latched_drive_of_high h.2.1]
  exact h.2.2.1

theorem Deaf.moves {a : Act α κ} (hs : src.Sound I)
    (henable : ∀ r, src.line r = true → src.line (src.enable r) = true) (h : Deaf src s)
    (hm : Moves src cell d s a u) : Deaf src u := by
  cases hm with
  | call => exact h
  | silent => exact h
  | arrival => exact Deaf.drive (s := { s with dev := _ }) h (hs.stays _ _ h.2.1)
  | cause c => exact h.drive (hs.stays _ _ h.2.1)
  | route hr => exact absurd (h.1.symm.trans hr) (by simp)
  | enable _ _ => exact Deaf.drive (s := { s with enabled := true }) h (henable _ h.2.1)
  | deliver hl _ => exact absurd (hl.symm.trans h.2.2.1) (by simp)
  | access hk _ => exact absurd (hk.symm.trans h.2.2.2) (by simp)
  | wake hk => exact absurd (hk.symm.trans h.2.2.2) (by simp)
  | ends hk _ => exact absurd (hk.symm.trans h.2.2.2) (by simp)
  | other => exact h
  | poll => exact h
  | found => exact h
  | missing => exact h
  | parks => exact h
  | blocks => exact h

/-- An input that is routed while the line is high is deaf. -/
theorem Quiet.deaf_of_route (hquiet : Quiet s) (hroute : ¬ RoutesLow src s (.route : Act α κ))
    (hstep : step src cell d s .route = some u) : Deaf src u := by
  cases moves_of_step hstep with
  | route hr =>
    obtain ⟨hlatched, hhandler⟩ := hquiet hr
    exact ⟨rfl, by simpa [RoutesLow] using hroute, hlatched, hhandler⟩

/-- **Routed in time, or deaf for ever**: if the line is low whenever the input is
routed, no edge is owed in the last state of a run; otherwise the handler does not run,
then or later. -/
theorem alert_or_deaf (hs : src.Sound I)
    (henable : ∀ r, src.line r = true → src.line (src.enable r) = true) (r : ρ) (dev : δ)
    (w : ω) {l : List (Act α κ)}
    (h : Exec (step src cell d) (fun _ _ => True) (init r dev w) l s) :
    Exec (step src cell d) (RoutesLow src) (init r dev w) l s ∧ Alert src s ∨
      ¬ Exec (step src cell d) (RoutesLow src) (init r dev w) l s ∧ Deaf src s := by
  have hquiet : ∀ {l s}, Exec (step src cell d) (fun _ _ => True) (init r dev w) l s → Quiet s :=
    fun h => h.invariant (I := Quiet) (fun _ => ⟨rfl, rfl⟩) fun hq _ hstep =>
      hq.moves (moves_of_step hstep)
  induction h with
  | nil => exact .inl ⟨.nil, fun hr => absurd hr (by simp [init])⟩
  | @snoc l t u a hr _ hstep ih =>
    rcases ih with ⟨hlow, halert⟩ | ⟨hlate, hdeaf⟩
    · by_cases hroute : RoutesLow src t a
      · exact .inl ⟨.snoc hlow hroute hstep, halert.moves hs hroute (moves_of_step hstep)⟩
      · -- this step routes the input too late
        have ha : a = .route := by
          cases a with
          | route => rfl
          | _ => exact absurd trivial hroute
        subst ha
        have hdeaf := (hquiet hr).deaf_of_route hroute hstep
        refine .inr ⟨fun hlow' => ?_, hdeaf⟩
        obtain ⟨t', ht', hroute', -⟩ := hlow'.snoc_inv
        obtain rfl := hr.unique ht'
        exact hroute hroute'
    · refine .inr ⟨fun hlow => ?_, hdeaf.moves hs henable (moves_of_step hstep)⟩
      obtain ⟨t', ht', -, -⟩ := hlow.snoc_inv
      obtain rfl := hr.unique ht'
      exact hlate ht'

/-! ### Items that are noticed -/

/-- The handler makes none of its accesses. -/
def Outside (src : Source ρ κ) (s : Sys ρ δ ω) : Prop := ∀ k, s.handler = some k → src.accesses ≤ k

theorem handling_or_outside (src : Source ρ κ) (s : Sys ρ δ ω) :
    Handling src s ∨ Outside src s := by
  by_cases h : Handling src s
  · exact .inl h
  · refine .inr fun k hk => ?_
    by_contra hlt
    exact h ⟨k, by omega, hk⟩

structure Inv (src : Source ρ κ) (cell : Cell ω) (d : Device δ α) (I : ρ → Prop)
    (s : Sys ρ δ ω) : Prop where
  regs : I s.regs
  alert : Alert src s
  routed : s.enabled = true → s.routed = true
  live : s.enabled = true → Outside src s → src.Live s.regs
  fresh : s.enabled = false → s.waiter = .blocked
  /-- A parked task has been woken, or it is in the cell. -/
  parked : s.waiter = .parked → s.woken = true ∨ cell.holds s.cell = true
  noticed : Noticed src d s

theorem init_inv {r : ρ} (hr : I r) (dev : δ) (w : ω) : Inv src cell d I (init r dev w) where
  regs := hr
  alert := fun h => absurd h (by simp [init])
  routed := fun h => absurd h (by simp [init])
  live := fun h => absurd h (by simp [init])
  fresh := fun _ => rfl
  parked := fun h => absurd h (by simp [init])
  noticed := fun h => absurd h (by simp [init])

theorem Inv.enabled_of_found (hi : Inv src cell d I s) (h : s.waiter ≠ .blocked) :
    s.enabled = true := by
  cases he : s.enabled with
  | true => rfl
  | false => exact absurd (hi.fresh he) h

/-- **A new item is noticed**: its cause makes an edge, or an older one is still owed. -/
theorem Inv.arrival (hs : src.Sound I) (hi : Inv src cell d I s) (dev : δ) :
    Inv src cell d I ({ s with dev }.drive src (src.raise src.item s.regs)) where
  regs := hs.keeps_raise _ _ hi.regs
  alert := Alert.drive (s := { s with dev }) hi.alert
  routed := hi.routed
  live := fun he hout => hs.raises _ _ (hi.live he hout)
  fresh := hi.fresh
  parked := hi.parked
  noticed := by
    intro hw _
    have he : s.enabled = true := hi.enabled_of_found (by rcases hw with hw | hw <;> simp_all)
    rcases handling_or_outside src s with hh | hout
    · exact .inr (.inr hh)
    · have hline : src.line (src.raise src.item s.regs) = true := hi.live he hout
      refine .inr (.inl ?_)
      cases hlow : src.line s.regs with
      | false => exact latched_drive_of_edge (s := { s with dev }) (hi.routed he) hlow hline
      | true =>
        rcases hi.alert (hi.routed he) hlow with hl | h0
        · exact latched_drive (s := { s with dev }) hl
        · -- the handler is about to make its first access
          exact absurd (hout 0 h0) (by simp [Source.accesses])

theorem Noticed.drive {r : ρ} (h : Noticed src d s) : Noticed src d (s.drive src r) := by
  intro hw hready
  rcases h hw hready with hwoken | hl | hh
  · exact .inl hwoken
  · exact .inr (.inl (latched_drive hl))
  · exact .inr (.inr hh)

/-- An access of the handler. -/
theorem Inv.access (hs : src.Sound I) (hi : Inv src cell d I s) {k : ℕ} (hk : s.handler = some k)
    (hlt : k < src.accesses) :
    Inv src cell d I ({ s with handler := some (k + 1) }.drive src (src.access k s.regs)) where
  regs := hs.keeps_access _ _ hi.regs
  alert := by
    have hm : Moves src cell d s .handler _ := .access hk hlt
    exact hi.alert.moves (a := .handler) hs trivial hm
  routed := hi.routed
  live := by
    intro _ hout
    -- after the last access the causes are enabled
    have hle : src.accesses ≤ k + 1 := hout (k + 1) rfl
    obtain rfl : k = src.rest.length := by
      unfold Source.accesses at hle hlt
      omega
    exact hs.ends _ hi.regs
  fresh := hi.fresh
  parked := hi.parked
  noticed := fun _ _ => .inr (.inr ⟨k + 1, hlt, rfl⟩)

theorem Inv.moves {a : Act α κ} (hs : src.Sound I) (hcell : cell.Sound)
    (hsilent : ∀ a dev dev', d.kind a = .silent → d.step dev a = some dev' →
      d.ready dev' = true → d.ready dev = true)
    (hi : Inv src cell d I s) (hroute : RoutesLow src s a) (hreg : RegistersFirst src cell s a)
    (hm : Moves src cell d s a u) : Inv src cell d I u := by
  have halert := hi.alert.moves hs hroute hm
  cases hm with
  | call _ _ hw =>
    refine ⟨hi.regs, halert, hi.routed, hi.live, hi.fresh, hi.parked, fun hw' => ?_⟩
    rcases hw' with h | h <;> exact absurd (hw.symm.trans h) (by simp)
  | @silent a _ hkind hdev =>
    exact ⟨hi.regs, halert, hi.routed, hi.live, hi.fresh, hi.parked,
      fun hw hready => hi.noticed hw (hsilent a _ _ hkind hdev hready)⟩
  | arrival _ _ => exact hi.arrival hs _
  | cause c =>
    exact ⟨hs.keeps_raise _ _ hi.regs, halert, hi.routed,
      fun he hout => hs.raises _ _ (hi.live he hout), hi.fresh, hi.parked, hi.noticed.drive⟩
  | route _ => exact ⟨hi.regs, halert, fun _ => rfl, hi.live, hi.fresh, hi.parked, hi.noticed⟩
  | enable hr hh =>
    refine ⟨hs.keeps_enable _ hi.regs, halert, fun _ => hr, fun _ _ => hs.enables _ hi.regs,
      fun he => absurd he (by simp), hi.parked, ?_⟩
    exact Noticed.drive (s := { s with enabled := true }) hi.noticed
  | deliver _ hh =>
    refine ⟨hi.regs, halert, hi.routed, fun _ hout => ?_, hi.fresh, hi.parked,
      fun _ _ => .inr (.inr ⟨0, Nat.zero_le _, rfl⟩)⟩
    exact absurd (hout 0 rfl) (by simp [Source.accesses])
  | access hk hlt => exact hi.access hs hk hlt
  | wake hk =>
    -- who waits is in the cell, or was woken before
    have hwoken : s.waiter = .unready ∨ s.waiter = .parked →
        (s.woken || cell.holds s.cell) = true := by
      rw [Bool.or_eq_true]
      rintro (hw | hw)
      · exact .inr (hreg hk hw)
      · exact hi.parked hw
    refine ⟨hi.regs, halert, hi.routed, fun he _ => hi.live he ?_, hi.fresh,
      fun hw => .inl (hwoken (.inr hw)), fun hw _ => .inl (hwoken hw)⟩
    intro k hk'
    obtain rfl := Option.some.inj (hk.symm.trans hk')
    exact Nat.le_refl _
  | @ends k hk hlt =>
    refine ⟨hi.regs, halert, hi.routed, fun he _ => hi.live he ?_, hi.fresh, hi.parked,
      fun hw hready => ?_⟩
    · intro k' hk'
      obtain rfl := Option.some.inj (hk.symm.trans hk')
      exact Nat.le_of_lt hlt
    · rcases hi.noticed hw hready with h | h | ⟨k', hle, hk'⟩
      · exact .inl h
      · exact .inr (.inl h)
      · obtain rfl := Option.some.inj (hk.symm.trans hk')
        omega
  | other =>
    exact ⟨hi.regs, halert, hi.routed, hi.live, hi.fresh, fun _ => .inl rfl, fun _ _ => .inl rfl⟩
  | poll he _ =>
    refine ⟨hi.regs, halert, hi.routed, hi.live, fun he' => absurd (he.symm.trans he') (by simp),
      fun h => absurd h (by simp), fun h => absurd h (by simp)⟩
  | found _ => exact hi
  | missing hw hready =>
    refine ⟨hi.regs, halert, hi.routed, hi.live, fun he => absurd (hi.fresh he) (by simp [hw]),
      fun h => absurd h (by simp), fun _ h => absurd (hready.symm.trans h) (by simp)⟩
  | parks hw =>
    exact ⟨hi.regs, halert, hi.routed, hi.live, fun he => absurd (hi.fresh he) (by simp [hw]),
      fun _ => .inr (hcell.registered _), fun _ hready => hi.noticed (.inl hw) hready⟩
  | blocks hw =>
    exact ⟨hi.regs, halert, hi.routed, hi.live, fun he => absurd (hi.fresh he) (by simp [hw]),
      fun h => absurd h (by simp), fun h => absurd h (by simp)⟩

/-- **No item is missed** in a run in which the input is routed while the line is low and
the handler does not come between the look and the first registration. -/
theorem inv_of_run (hs : src.Sound I) (hcell : cell.Sound)
    (hsilent : ∀ a dev dev', d.kind a = .silent → d.step dev a = some dev' →
      d.ready dev' = true → d.ready dev = true)
    {r : ρ} (hr : I r) (dev : δ) (w : ω) {l : List (Act α κ)}
    (h : Exec (step src cell d) (fun t a => RoutesLow src t a ∧ RegistersFirst src cell t a)
      (init r dev w) l s) : Inv src cell d I s :=
  h.invariant (init_inv hr dev w) fun hi hg hstep =>
    hi.moves hs hcell hsilent hg.1 hg.2 (moves_of_step hstep)

/-- A handler that runs on comes to its wake. -/
theorem wakes_of_handler (n : ℕ) : ∀ {k : ℕ} {s : Sys ρ δ ω}, k + n = src.accesses →
    s.handler = some k → s.woken = true ∨ cell.holds s.cell = true →
    ∃ t, Exec (step src cell d) (fun _ _ => True) s (List.replicate (n + 1) .handler) t ∧
      t.woken = true ∧ t.waiter = s.waiter := by
  induction n with
  | zero =>
    intro k s hk hh hreg
    obtain rfl : k = src.accesses := hk
    refine ⟨handlerStep src cell s src.accesses, Exec.cons (l := []) trivial ?_ .nil, ?_, ?_⟩
    · simp [step, hh]
    · simpa [handlerStep] using hreg
    · simp [handlerStep]
  | succ n ih =>
    intro k s hk hh hreg
    have hlt : k < src.accesses := by omega
    obtain ⟨t, ht, hwoken, hwaiter⟩ := ih (k := k + 1)
      (s := { s with handler := some (k + 1) }.drive src (src.access k s.regs)) (by omega) rfl hreg
    refine ⟨t, ?_, hwoken, hwaiter⟩
    rw [List.replicate_succ]
    exact Exec.cons trivial (by simp [step, hh, handlerStep, hlt]) ht

/-- An interrupt that is latched while the CPU is free wakes the task. -/
theorem wakes_of_latched (hh : s.handler = none) (hl : s.latched = true)
    (hreg : s.woken = true ∨ cell.holds s.cell = true) :
    ∃ t, Exec (step src cell d) (fun _ _ => True) s
        (.deliver :: List.replicate (src.accesses + 1) .handler) t ∧
      t.woken = true ∧ t.waiter = s.waiter := by
  obtain ⟨t, ht, hwoken, hwaiter⟩ := wakes_of_handler (d := d) src.accesses (k := 0)
    (s := { s with latched := false, handler := some 0 }) (Nat.zero_add _) rfl hreg
  exact ⟨t, Exec.cons trivial (by simp [step, hh, hl]) ht, hwoken, hwaiter⟩

/-- A step of the CPU that takes an interrupt or runs its handler. -/
def ByHandler : Act α κ → Prop
  | .deliver | .handler => True
  | _ => False

/-- **A noticed item wakes its task**, by the interrupt alone. -/
theorem Inv.wakes (hi : Inv src cell d I s) (hw : s.waiter = .parked)
    (hready : d.ready s.dev = true) :
    ∃ l t, (∀ a ∈ l, ByHandler a) ∧ Exec (step src cell d) (fun _ _ => True) s l t ∧
      t.woken = true ∧ t.waiter = .parked := by
  have hreg := hi.parked hw
  have hby : ∀ n, ∀ a ∈ List.replicate n (.handler : Act α κ), ByHandler a := by
    intro n a ha
    rw [List.eq_of_mem_replicate ha]
    exact trivial
  rcases hi.noticed (.inr hw) hready with hwoken | hl | ⟨k, hk, hh⟩
  · exact ⟨[], s, by simp, .nil, hwoken, hw⟩
  · cases hh : s.handler with
    | none =>
      obtain ⟨t, ht, hwoken, hwaiter⟩ := wakes_of_latched (d := d) hh hl hreg
      exact ⟨.deliver :: _, t, List.forall_mem_cons.mpr ⟨trivial, hby _⟩, ht, hwoken,
        hwaiter.trans hw⟩
    | some k =>
      by_cases hk : k ≤ src.accesses
      · obtain ⟨t, ht, hwoken, hwaiter⟩ := wakes_of_handler (d := d)
          (src.accesses - k) (Nat.add_sub_of_le hk) hh hreg
        exact ⟨_, t, hby _, ht, hwoken, hwaiter.trans hw⟩
      · -- the handler has woken already and ends; then the interrupt is taken
        obtain ⟨t, ht, hwoken, hwaiter⟩ := wakes_of_latched (d := d)
          (s := { s with handler := none }) rfl hl hreg
        have hstep : step src cell d s .handler = some { s with handler := none } := by
          simp [step, hh, handlerStep, show ¬ k < src.accesses by omega,
            show k ≠ src.accesses by omega]
        refine ⟨.handler :: _, t, ?_, Exec.cons trivial hstep ht, hwoken, hwaiter.trans hw⟩
        exact List.forall_mem_cons.mpr ⟨trivial, List.forall_mem_cons.mpr ⟨trivial, hby _⟩⟩
  · obtain ⟨t, ht, hwoken, hwaiter⟩ := wakes_of_handler (d := d)
      (src.accesses - k) (Nat.add_sub_of_le hk) hh hreg
    exact ⟨_, t, hby _, ht, hwoken, hwaiter.trans hw⟩

end

end Irq
