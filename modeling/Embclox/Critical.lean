/-
Critical sections by masking interrupts.

A call reads whether interrupts are enabled, masks them, borrows the data of its CPU,
works on it, gives it back and restores the mask.  Calls are made by the thread of a CPU
and by the handlers that interrupt it; a handler runs with interrupts masked.  A second
borrow panics.

* `Cpu`, `step` — the thread and the handler of one CPU, one access at a time;
* `Inv` — no handler comes once the thread has masked interrupts;
* `not_panicked_of_run` — so no borrow fails;
* `atomic_of_run` — the data changes as if each call were one step;
* `enabled_of_run` — outside the calls the mask is as it was at first.
-/
import Embclox.Exec

open Run

namespace Critical

variable {σ β : Type}

/-- Where a call of `body` stands; `wasEnabled` is what it read at its start. -/
inductive Pc (β : Type)
  /-- The mask is read, and interrupts may still come. -/
  | read (body : β) (wasEnabled : Bool)
  /-- Interrupts are masked. -/
  | acquired (body : β) (wasEnabled : Bool)
  /-- The data is borrowed. -/
  | holding (body : β) (wasEnabled : Bool)
  /-- The work is done. -/
  | applied (wasEnabled : Bool)
  /-- The data is given back. -/
  | dropped (wasEnabled : Bool)

/-- The call has borrowed the data. -/
def Pc.holds : Pc β → Bool
  | .holding _ _ | .applied _ => true
  | .read _ _ | .acquired _ _ | .dropped _ => false

/-- The call has masked interrupts. -/
def Pc.masks : Pc β → Bool
  | .read _ _ => false
  | .acquired _ _ | .holding _ _ | .applied _ | .dropped _ => true

def Pc.wasEnabled : Pc β → Bool
  | .read _ w | .acquired _ w | .holding _ w | .applied w | .dropped w => w

/-- The work that comes next. -/
def Pc.work : Pc β → Option β
  | .holding b _ => some b
  | .read _ _ | .acquired _ _ | .applied _ | .dropped _ => none

/-- One CPU with its data; `none` is a thread, or a handler, that is in no call. -/
structure Cpu (σ β : Type) where
  data : σ
  borrowed : Bool
  enabled : Bool
  thread : Option (Pc β)
  handler : Option (Pc β)
  panicked : Bool

inductive Act (β : Type)
  | call (body : β)
  /-- An interrupt, whose handler makes a call. -/
  | irq (body : β)
  /-- The next access of the call that is going on. -/
  | go

/-- The next access of a call: what it does to the CPU, and where it stands then. -/
def advance (apply : σ → β → Option σ) (c : Cpu σ β) : Pc β → Option (Cpu σ β × Option (Pc β))
  | .read b w => some ({ c with enabled := false }, some (.acquired b w))
  | .acquired b w =>
      if c.borrowed then some ({ c with panicked := true }, some (.acquired b w))
      else some ({ c with borrowed := true }, some (.holding b w))
  | .holding b w => (apply c.data b).map fun d => ({ c with data := d }, some (.applied w))
  | .applied w => some ({ c with borrowed := false }, some (.dropped w))
  | .dropped w => some ({ c with enabled := c.enabled || w }, none)

def step (apply : σ → β → Option σ) (c : Cpu σ β) : Act β → Option (Cpu σ β)
  | .call b =>
      if c.thread.isNone ∧ c.handler.isNone then
        some { c with thread := some (.read b c.enabled) }
      else none
  | .irq b =>
      if c.enabled = true ∧ c.handler.isNone then
        some { c with handler := some (.read b false), enabled := false }
      else none
  | .go =>
      match c.handler, c.thread with
      -- a handler that returns enables interrupts again
      | some pc, _ => (advance apply c pc).map fun r =>
          { r.1 with handler := r.2, enabled := r.1.enabled || r.2.isNone }
      | none, some pc => (advance apply c pc).map fun r => { r.1 with thread := r.2 }
      | none, none => none

def init (d : σ) (enabled : Bool) : Cpu σ β := ⟨d, false, enabled, none, none, false⟩

/-- The call that is going on. -/
def Cpu.active (c : Cpu σ β) : Option (Pc β) := c.handler <|> c.thread

/-- The work that the action does on the data. -/
def Act.work (c : Cpu σ β) : Act β → Option β
  | .go => c.active.bind Pc.work
  | .call _ | .irq _ => none

/-- `e` says whether interrupts are enabled outside the calls. -/
structure Inv (e : Bool) (c : Cpu σ β) : Prop where
  alone : c.handler = none ∨ c.thread.any Pc.masks = false
  enabled : c.enabled = (e && c.handler.isNone && !c.thread.any Pc.masks)
  /-- Handlers come only where interrupts are enabled. -/
  interrupted : c.handler.isSome = true → e = true
  thread : ∀ pc, c.thread = some pc → pc.wasEnabled = e
  handler : ∀ pc, c.handler = some pc → pc.wasEnabled = false
  borrowed : c.borrowed = c.active.any Pc.holds
  safe : c.panicked = false

variable {apply : σ → β → Option σ} {c u : Cpu σ β} {e : Bool}

theorem init_inv (d : σ) (e : Bool) : Inv e (init d e : Cpu σ β) where
  alone := .inl rfl
  enabled := by simp [init]
  interrupted := fun h => absurd h (by simp [init])
  thread := fun _ h => absurd h (by simp [init])
  handler := fun _ h => absurd h (by simp [init])
  borrowed := rfl
  safe := rfl

theorem Pc.masks_of_holds {pc : Pc β} (h : pc.masks = false) : pc.holds = false := by
  cases pc <;> first | rfl | exact absurd h (by simp [Pc.masks])

/-- A thread that has not masked interrupts holds nothing. -/
theorem any_holds_of_masks {pc : Option (Pc β)} (h : pc.any Pc.masks = false) :
    pc.any Pc.holds = false := by
  cases pc with
  | none => rfl
  | some pc => exact Pc.masks_of_holds h

/-! ### One access -/

/-- What an access does while the call at `pc` is the only one that holds the data. -/
structure Advances (apply : σ → β → Option σ) (c : Cpu σ β) (pc : Pc β) (c' : Cpu σ β)
    (pc' : Option (Pc β)) : Prop where
  /-- The data changes as the body says, or not at all. -/
  data : (∃ b, pc.work = some b ∧ apply c.data b = some c'.data) ∨
    pc.work = none ∧ c'.data = c.data
  borrowed : c'.borrowed = pc'.any Pc.holds
  enabled : c'.enabled = (pc'.isNone && pc.wasEnabled)
  masks : pc'.any Pc.masks = pc'.isSome
  wasEnabled : ∀ p, pc' = some p → p.wasEnabled = pc.wasEnabled
  thread : c'.thread = c.thread
  handler : c'.handler = c.handler
  safe : c'.panicked = false

theorem advances_of_advance {pc : Pc β} {r : Cpu σ β × Option (Pc β)}
    (hborrowed : c.borrowed = pc.holds) (hmasks : pc.masks = true → c.enabled = false)
    (hsafe : c.panicked = false) (h : advance apply c pc = some r) :
    Advances apply c pc r.1 r.2 := by
  cases pc with
  | read b w =>
    simp only [advance, Option.some.injEq] at h
    subst h
    exact ⟨.inr ⟨rfl, rfl⟩, hborrowed, rfl, rfl, by simp [Pc.wasEnabled], rfl, rfl, hsafe⟩
  | acquired b w =>
    -- nobody else holds the data
    have hfree : c.borrowed = false := hborrowed
    simp only [advance, hfree, Bool.false_eq_true, if_false, Option.some.injEq] at h
    subst h
    exact ⟨.inr ⟨rfl, rfl⟩, rfl, hmasks rfl, rfl, by simp [Pc.wasEnabled], rfl, rfl, hsafe⟩
  | holding b w =>
    simp only [advance, Option.map_eq_some_iff] at h
    obtain ⟨d, hd, rfl⟩ := h
    exact ⟨.inl ⟨b, rfl, hd⟩, hborrowed, hmasks rfl, rfl, by simp [Pc.wasEnabled], rfl, rfl,
      hsafe⟩
  | applied w =>
    simp only [advance, Option.some.injEq] at h
    subst h
    exact ⟨.inr ⟨rfl, rfl⟩, rfl, hmasks rfl, rfl, by simp [Pc.wasEnabled], rfl, rfl, hsafe⟩
  | dropped w =>
    simp only [advance, Option.some.injEq] at h
    subst h
    exact ⟨.inr ⟨rfl, rfl⟩, hborrowed, by simp [hmasks rfl, Pc.wasEnabled], rfl, by simp, rfl,
      rfl, hsafe⟩

/-- A call from the thread starts outside every other call. -/
theorem call_inv {b : β} (h : step apply c (.call b) = some u) :
    c.thread = none ∧ c.handler = none ∧ u = { c with thread := some (.read b c.enabled) } := by
  simp only [step, Option.ite_none_right_eq_some, Option.isNone_iff_eq_none,
    Option.some.injEq] at h
  exact ⟨h.1.1, h.1.2, h.2.symm⟩

/-- A handler starts with interrupts enabled. -/
theorem irq_inv {b : β} (h : step apply c (.irq b) = some u) :
    c.enabled = true ∧ c.handler = none ∧
      u = { c with handler := some (.read b false), enabled := false } := by
  simp only [step, Option.ite_none_right_eq_some, Option.isNone_iff_eq_none,
    Option.some.injEq] at h
  exact ⟨h.1.1, h.1.2, h.2.symm⟩

/-- The next access is the handler's, if one is running, and the thread's otherwise. -/
theorem Inv.go (hi : Inv e c) (h : step apply c .go = some u) :
    (∃ pc c' pc', c.handler = some pc ∧ Advances apply c pc c' pc' ∧
      u = { c' with handler := pc', enabled := c'.enabled || pc'.isNone }) ∨
    (∃ pc c' pc', c.handler = none ∧ c.thread = some pc ∧ Advances apply c pc c' pc' ∧
      u = { c' with thread := pc' }) := by
  have hborrowed := hi.borrowed
  have henabled := hi.enabled
  cases hh : c.handler with
  | some pc =>
    simp only [Cpu.active, hh] at hborrowed henabled
    simp only [step, hh, Option.map_eq_some_iff] at h
    obtain ⟨r, hr, rfl⟩ := h
    exact .inl ⟨pc, r.1, r.2, rfl,
      advances_of_advance hborrowed (fun _ => by simpa using henabled) hi.safe hr, rfl⟩
  | none =>
    cases ht : c.thread with
    | some pc =>
      simp only [Cpu.active, hh, ht] at hborrowed henabled
      simp only [step, hh, ht, Option.map_eq_some_iff] at h
      obtain ⟨r, hr, rfl⟩ := h
      exact .inr ⟨pc, r.1, r.2, rfl, rfl,
        advances_of_advance hborrowed (fun hm => by simpa [hm] using henabled) hi.safe hr, rfl⟩
    | none => simp [step, hh, ht] at h

/-! ### Runs -/

/-- **One step keeps the calls apart.** -/
theorem Inv.step {a : Act β} (hi : Inv e c) (h : step apply c a = some u) : Inv e u := by
  cases a with
  | call b =>
    obtain ⟨ht, hh, rfl⟩ := call_inv h
    have hborrowed := hi.borrowed
    have henabled := hi.enabled
    simp only [Cpu.active, hh, ht] at hborrowed
    simp only [hh, ht, Option.isNone_none, Bool.and_true, Option.any_none, Bool.not_false]
      at henabled
    refine ⟨.inl hh, by simp [hh, henabled, Pc.masks], hi.interrupted, ?_, hi.handler,
      by simpa [Cpu.active, hh, Pc.holds] using hborrowed, hi.safe⟩
    rintro _ ⟨rfl⟩
    exact henabled
  | irq b =>
    obtain ⟨hon, hh, rfl⟩ := irq_inv h
    -- with interrupts enabled the thread has not masked them
    have hboth : e = true ∧ c.thread.any Pc.masks = false := by
      simpa [hh, hon] using hi.enabled
    have hfree : c.borrowed = false := by
      simpa [Cpu.active, hh, any_holds_of_masks hboth.2] using hi.borrowed
    refine ⟨.inr hboth.2, by simp, fun _ => hboth.1, hi.thread, ?_,
      by simpa [Cpu.active, Pc.holds] using hfree, hi.safe⟩
    rintro _ ⟨rfl⟩
    rfl
  | go =>
    rcases hi.go h with ⟨pc, c', pc', hh, ha, rfl⟩ | ⟨pc, c', pc', hh, ht, ha, rfl⟩
    · have hthread : c.thread.any Pc.masks = false := hi.alone.resolve_left (by simp [hh])
      have he : e = true := hi.interrupted (by simp [hh])
      refine ⟨.inr (by rw [ha.thread, hthread]), ?_, fun _ => he, ?_, ?_, ?_, ha.safe⟩
      · simp [ha.enabled, ha.thread, hthread, he, hi.handler pc hh]
      · simpa [ha.thread] using hi.thread
      · exact fun p hp => (ha.wasEnabled p hp).trans (hi.handler pc hh)
      · rw [ha.borrowed]
        cases pc' with
        | some p => rfl
        | none => simp [Cpu.active, ha.thread, any_holds_of_masks hthread]
    · have hwas := hi.thread pc ht
      refine ⟨.inl (ha.handler.trans hh), ?_, ?_, ?_, ?_, ?_, ha.safe⟩
      · simp [ha.enabled, ha.handler, hh, ha.masks, hwas, Bool.and_comm]
      · simpa [ha.handler] using hi.interrupted
      · exact fun p hp => (ha.wasEnabled p hp).trans hwas
      · simpa [ha.handler] using hi.handler
      · simpa [Cpu.active, ha.handler, hh] using ha.borrowed

/-- The data changes only when a body is applied, and then as the body says. -/
theorem Inv.data {a : Act β} (hi : Inv e c) (h : Critical.step apply c a = some u) :
    (∃ b, a.work c = some b ∧ apply c.data b = some u.data) ∨
      a.work c = none ∧ u.data = c.data := by
  cases a with
  | call b =>
    obtain ⟨-, -, rfl⟩ := call_inv h
    exact .inr ⟨rfl, rfl⟩
  | irq b =>
    obtain ⟨-, -, rfl⟩ := irq_inv h
    exact .inr ⟨rfl, rfl⟩
  | go =>
    rcases hi.go h with ⟨pc, c', pc', hh, ha, rfl⟩ | ⟨pc, c', pc', hh, ht, ha, rfl⟩
    · simpa [Act.work, Cpu.active, hh] using ha.data
    · simpa [Act.work, Cpu.active, hh, ht] using ha.data

variable {G : Cpu σ β → Act β → Prop} {d : σ} {l : List (Act β)}

theorem inv_of_run (h : Exec (Critical.step apply) G (init d e) l c) : Inv e c :=
  h.invariant (init_inv d e) fun hi _ hstep => hi.step hstep

/-- **No borrow fails**, whenever interrupts come. -/
theorem not_panicked_of_run (h : Exec (Critical.step apply) G (init d e) l c) :
    c.panicked = false :=
  (inv_of_run h).safe

/-- **The mask is restored**: outside the calls it is as it was at first. -/
theorem enabled_of_run (h : Exec (Critical.step apply) G (init d e) l c) (hidle : c.active = none) :
    c.enabled = e := by
  obtain ⟨hh, ht⟩ : c.handler = none ∧ c.thread = none := by
    cases hh : c.handler <;> simp_all [Cpu.active]
  simpa [hh, ht] using (inv_of_run h).enabled

/-- **Each call is as one step**: the data is reached by applying the bodies one after the
other, under the conditions that hold when they are applied. -/
theorem atomic_of_run {H : σ → β → Prop}
    (hguard : ∀ c a b, a.work c = some b → G c a → H c.data b)
    (h : Exec (Critical.step apply) G (init d e) l c) : ∃ bodies, Exec apply H d bodies c.data := by
  have hboth : Inv e c ∧ ∃ bodies, Exec apply H d bodies c.data := by
    induction h with
    | nil => exact ⟨init_inv d e, [], .nil⟩
    | @snoc _ t u a _ hg hstep ih =>
      obtain ⟨hi, bodies, hex⟩ := ih
      refine ⟨hi.step hstep, ?_⟩
      rcases hi.data hstep with ⟨b, hb, happ⟩ | ⟨-, hsame⟩
      · exact ⟨bodies ++ [b], .snoc hex (hguard t a b hb hg) happ⟩
      · exact ⟨bodies, by rwa [hsame]⟩
  exact hboth.2

end Critical
