/-
The executor loop.

`run_executor` polls the executor, masks interrupts and executes `sti; hlt`.  The executor
is a parameter: it queues a task that is woken, and `poll` polls at least the tasks that are
queued when it is called.  An interrupt is handled at once while interrupts are enabled, and
its handler wakes tasks.  One that comes while they are masked waits, and then `sti; hlt`
does not sleep.

* `PolledInTime` — every wake is polled for, and only a late one, which comes after the call
  of `poll` and before the mask, waits for the CPU to sleep, once at most;
* `polledInTime_of_run` — it holds in every state of every run, with every executor that is
  sound;
* `sleeps_with_woken_task` — the mask does not keep a late wake from waiting.
-/
import Embclox.Async
import Embclox.Exec
import Mathlib.Data.List.Nodup
import Mathlib.Data.List.Perm.Basic

open Async Run

namespace Runtime

variable {σ τ : Type}

/-- Where the loop stands. -/
inductive Pc
  /-- About to poll the executor. -/
  | top
  /-- Inside `poll`. -/
  | polling
  /-- `poll` has returned; interrupts are still enabled. -/
  | polled
  /-- Before `sti; hlt`. -/
  | masked
  | asleep
  deriving DecidableEq

/-- A task was woken after that many sleeps of the CPU. -/
structure Wake (τ : Type) where
  task : τ
  sleeps : ℕ
  /-- After the call of `poll`. -/
  late : Bool
  deriving DecidableEq

structure Sys (σ τ : Type) where
  pc : Pc
  executor : σ
  /-- The interrupts that wait, each with the tasks that its handler wakes. -/
  pending : List (List τ)
  sleeps : ℕ
  /-- History: the wakes, those that have not been polled for, and the others with the
  sleeps by then. -/
  woken : List (Wake τ)
  waiting : List (Wake τ)
  polled : List (Wake τ × ℕ)

inductive Act (τ : Type)
  /-- The call of `poll`. -/
  | enter
  /-- `poll` polls its next task, which wakes the tasks `xs`. -/
  | poll (xs : List τ)
  /-- `poll` returns. -/
  | finish
  | disable
  | enableAndHlt
  /-- An interrupt, whose handler wakes the tasks `xs`. -/
  | irq (xs : List τ)

section

variable [DecidableEq τ] (ex : Executor σ τ)

/-- A further wake of a task that waits already counts as the same. -/
def wake (s : Sys σ τ) (x : τ) : Sys σ τ :=
  if x ∈ s.waiting.map Wake.task then { s with executor := ex.wake s.executor x }
  else
    let w : Wake τ := ⟨x, s.sleeps, s.pc = .polling || s.pc = .polled⟩
    { s with
      executor := ex.wake s.executor x
      woken := s.woken ++ [w]
      waiting := s.waiting ++ [w] }

def wakeAll (s : Sys σ τ) (xs : List τ) : Sys σ τ := xs.foldl (wake ex) s

/-- The task `x` is polled; `e` is the executor after that. -/
def pollTask (s : Sys σ τ) (x : τ) (e : σ) : Sys σ τ :=
  { s with
    executor := e
    waiting := s.waiting.filter fun w => w.task != x
    polled := s.polled ++ (s.waiting.filter fun w => w.task == x).map fun w => (w, s.sleeps) }

def step (s : Sys σ τ) : Act τ → Option (Sys σ τ)
  | .enter =>
      if s.pc = .top then some { s with pc := .polling, executor := ex.enter s.executor }
      else none
  | .poll xs =>
      if s.pc = .polling then
        (ex.next s.executor).map fun next => wakeAll ex (pollTask s next.1 next.2) xs
      else none
  | .finish =>
      if s.pc = .polling ∧ (ex.next s.executor).isNone then some { s with pc := .polled }
      else none
  | .disable => if s.pc = .polled then some { s with pc := .masked } else none
  | .enableAndHlt =>
      if s.pc = .masked then
        if s.pending = [] then some { s with pc := .asleep, sleeps := s.sleeps + 1 }
        else some (wakeAll ex { s with pc := .top, pending := [] } s.pending.flatten)
      else none
  | .irq xs =>
      match s.pc with
      | .masked => some { s with pending := s.pending ++ [xs] }
      | .asleep => some (wakeAll ex { s with pc := .top } xs)
      | _ => some (wakeAll ex s xs)

/-- The loop starts with the tasks that were spawned in the queue of the executor `e`. -/
def start (e : σ) (spawned : List τ) : Sys σ τ :=
  wakeAll ex ⟨.top, e, [], 0, [], [], []⟩ spawned

end

/-- By the time of `m` sleeps the CPU has not slept since the wake; once, if the wake was
late. -/
def InTime (w : Wake τ) (m : ℕ) : Prop := m = w.sleeps ∨ w.late = true ∧ m = w.sleeps + 1

structure PolledInTime (ex : Executor σ τ) (s : Sys σ τ) : Prop where
  /-- No wake is lost, and none is answered twice. -/
  kept : s.woken.Perm (s.polled.map Prod.fst ++ s.waiting)
  once : (s.waiting.map Wake.task).Nodup
  /-- Who waits is in the queue of the executor, and nobody else. -/
  queued : ∀ x, ex.queued s.executor x ↔ x ∈ s.waiting.map Wake.task
  polled : ∀ p ∈ s.polled, InTime p.1 p.2
  waiting : ∀ w ∈ s.waiting, InTime w s.sleeps
  /-- Who waits while the CPU sleeps was woken late. -/
  asleep : s.pc = .asleep → ∀ w ∈ s.waiting, w.late = true

/-! ### The queue along the loop -/

/-- The wake came during the current pass. -/
def Late (sleeps : ℕ) (w : Wake τ) : Prop := w.late = true ∧ sleeps = w.sleeps

/-- What holds of those that wait at each point of the loop. -/
def WaitsOk (ex : Executor σ τ) (pc : Pc) (e : σ) (sleeps : ℕ) (w : Wake τ) : Prop :=
  match pc with
  | .top => InTime w sleeps
  | .polling => ex.due e w.task ∧ InTime w sleeps ∨ Late sleeps w
  | .polled | .masked => Late sleeps w
  | .asleep => w.late = true ∧ sleeps = w.sleeps + 1

structure Inv (ex : Executor σ τ) (s : Sys σ τ) : Prop where
  kept : s.woken.Perm (s.polled.map Prod.fst ++ s.waiting)
  once : (s.waiting.map Wake.task).Nodup
  queued : ∀ x, ex.queued s.executor x ↔ x ∈ s.waiting.map Wake.task
  polled : ∀ p ∈ s.polled, InTime p.1 p.2
  waiting : ∀ w ∈ s.waiting, WaitsOk ex s.pc s.executor s.sleeps w

variable {ex : Executor σ τ} {s u : Sys σ τ}

theorem Late.inTime {sleeps : ℕ} {w : Wake τ} (h : Late sleeps w) : InTime w sleeps := .inl h.2

theorem WaitsOk.inTime {pc : Pc} {e : σ} {sleeps : ℕ} {w : Wake τ}
    (h : WaitsOk ex pc e sleeps w) : InTime w sleeps := by
  cases pc with
  | top => exact h
  | polling => exact h.elim And.right Late.inTime
  | polled => exact Late.inTime h
  | masked => exact Late.inTime h
  | asleep => exact .inr h

theorem Inv.polledInTime (hi : Inv ex s) : PolledInTime ex s where
  kept := hi.kept
  once := hi.once
  queued := hi.queued
  polled := hi.polled
  waiting := fun w hw => (hi.waiting w hw).inTime
  asleep := by
    intro hpc w hw
    have hq := hi.waiting w hw
    rw [hpc] at hq
    exact hq.1

/-- **The call of `poll`** makes everyone due that waits. -/
theorem Inv.enter (hex : ex.Sound) (hi : Inv ex s) :
    Inv ex { s with pc := .polling, executor := ex.enter s.executor } where
  kept := hi.kept
  once := hi.once
  queued := fun x => (hex.queued_enter _ x).trans (hi.queued x)
  polled := hi.polled
  waiting := by
    intro w hw
    have hqueued := (hi.queued w.task).mpr (List.mem_map_of_mem hw)
    exact .inl ⟨hex.due_enter _ _ hqueued, (hi.waiting w hw).inTime⟩

/-- **`poll` returns** when nobody is due, so that only the late ones wait. -/
theorem Inv.finish (hex : ex.Sound) (hi : Inv ex s) (hpc : s.pc = .polling)
    (hnext : ex.next s.executor = none) : Inv ex { s with pc := .polled } where
  kept := hi.kept
  once := hi.once
  queued := hi.queued
  polled := hi.polled
  waiting := by
    intro w hw
    have hq := hi.waiting w hw
    rw [hpc] at hq
    exact hq.resolve_left fun h => hex.returns hnext _ h.1

/-- Going on to a point of the loop where the same is known about those that wait. -/
theorem Inv.move (hi : Inv ex s) {pc : Pc} {pending : List (List τ)}
    (hq : ∀ w ∈ s.waiting, WaitsOk ex pc s.executor s.sleeps w) : Inv ex { s with pc, pending } :=
  ⟨hi.kept, hi.once, hi.queued, hi.polled, hq⟩

/-- **The CPU goes to sleep** with late wakes only. -/
theorem Inv.sleep (hi : Inv ex s) (hpc : s.pc = .masked) :
    Inv ex { s with pc := .asleep, sleeps := s.sleeps + 1 } := by
  refine ⟨hi.kept, hi.once, hi.queued, hi.polled, fun w hw => ?_⟩
  have hq := hi.waiting w hw
  rw [hpc] at hq
  exact ⟨hq.1, by rw [hq.2]⟩

/-! ### Polling and waking -/

/-- Others that are woken do not matter to who waits. -/
theorem WaitsOk.wake (hex : ex.Sound) {pc : Pc} {e : σ} {sleeps : ℕ} {w : Wake τ}
    (h : WaitsOk ex pc e sleeps w) (x : τ) : WaitsOk ex pc (ex.wake e x) sleeps w := by
  cases pc with
  | polling => exact h.imp_left fun h => ⟨hex.due_wake _ _ _ h.1, h.2⟩
  | _ => exact h

section

variable [DecidableEq τ]

/-- A task is polled and waits no more. -/
theorem Inv.pollTask (hex : ex.Sound) (hi : Inv ex s) (hpc : s.pc = .polling) {x : τ} {e : σ}
    (hnext : ex.next s.executor = some (x, e)) : Inv ex (pollTask s x e) := by
  have hsub : (s.waiting.filter fun w => w.task != x).Sublist s.waiting := List.filter_sublist
  constructor
  · -- the wakes of the task go from those that wait to those that were polled for
    have hsplit := (List.filter_append_perm (fun w => w.task == x) s.waiting).symm
    have hall := hi.kept.trans (hsplit.append_left _)
    simpa [Runtime.pollTask, bne, Function.comp_def] using hall
  · exact hi.once.sublist (hsub.map Wake.task)
  · intro y
    refine (hex.queued_next hnext y).trans ?_
    rw [hi.queued]
    simp only [Runtime.pollTask, List.mem_map, List.mem_filter, bne_iff_ne]
    constructor
    · rintro ⟨hne, w, hw, rfl⟩
      exact ⟨w, ⟨hw, hne⟩, rfl⟩
    · rintro ⟨w, ⟨hw, hne⟩, rfl⟩
      exact ⟨hne, w, hw, rfl⟩
  · intro p hp
    rcases List.mem_append.mp hp with hp | hp
    · exact hi.polled p hp
    · obtain ⟨w, hw, rfl⟩ := List.mem_map.mp hp
      exact (hi.waiting w (List.mem_of_mem_filter hw)).inTime
  · intro w hw
    obtain ⟨hmem, hne⟩ := List.mem_filter.mp hw
    have hq := hi.waiting w hmem
    show WaitsOk ex s.pc e s.sleeps w
    rw [hpc] at hq ⊢
    exact hq.imp_left fun h => ⟨hex.due_next hnext _ (bne_iff_ne.mp hne) h.1, h.2⟩

/-- A wake while interrupts are enabled and the CPU is awake. -/
theorem Inv.wake (hex : ex.Sound) (hi : Inv ex s)
    (hpc : s.pc = .top ∨ s.pc = .polling ∨ s.pc = .polled) (x : τ) : Inv ex (wake ex s x) := by
  unfold Runtime.wake
  by_cases hx : x ∈ s.waiting.map Wake.task
  · -- the task waits already
    rw [if_pos hx]
    refine ⟨hi.kept, hi.once, fun y => ?_, hi.polled, fun w hw => (hi.waiting w hw).wake hex x⟩
    rw [hex.queued_wake, hi.queued]
    exact or_iff_right_of_imp fun h => h ▸ hx
  · rw [if_neg hx]
    constructor
    · simpa using hi.kept.append_right _
    · rw [List.map_append, List.nodup_append]
      refine ⟨hi.once, List.nodup_singleton x, fun y hy z hz => ?_⟩
      obtain rfl := List.mem_singleton.mp hz
      rintro rfl
      exact hx hy
    · intro y
      rw [hex.queued_wake, hi.queued, List.map_append, List.mem_append, Or.comm]
      exact or_congr_right List.mem_singleton.symm
    · exact hi.polled
    · intro w hw
      rcases List.mem_append.mp hw with hw | hw
      · exact (hi.waiting w hw).wake hex x
      · obtain rfl := List.mem_singleton.mp hw
        rcases hpc with h | h | h <;> simp [h, WaitsOk, InTime, Late]

@[simp] theorem wake_pc (x : τ) : (wake ex s x).pc = s.pc := by
  unfold wake
  split <;> rfl

theorem Inv.wakeAll (hex : ex.Sound) (hi : Inv ex s)
    (hpc : s.pc = .top ∨ s.pc = .polling ∨ s.pc = .polled) (xs : List τ) :
    Inv ex (wakeAll ex s xs) := by
  induction xs generalizing s with
  | nil => exact hi
  | cons x xs ih => exact ih (hi.wake hex hpc x) (by rwa [wake_pc])

theorem start_inv (hex : ex.Sound) {e : σ} (he : ∀ x, ¬ ex.queued e x) (spawned : List τ) :
    Inv ex (start ex e spawned) := by
  refine Inv.wakeAll hex ⟨?_, ?_, ?_, ?_, ?_⟩ (.inl rfl) spawned <;> simp [he]

/-! ### Runs -/

theorem Inv.irq (hex : ex.Sound) (hi : Inv ex s) (xs : List τ)
    (h : step ex s (.irq xs) = some u) : Inv ex u := by
  cases hpc : s.pc with
  | masked =>
    -- it is kept until interrupts are enabled
    simp only [step, hpc, Option.some.injEq] at h
    subst h
    have hq := hi.waiting
    rw [hpc] at hq
    exact hi.move hq
  | asleep =>
    -- it ends the sleep, and who waited before is in time for the next `poll`
    simp only [step, hpc, Option.some.injEq] at h
    subst h
    refine Inv.wakeAll hex (s := { s with pc := .top }) ?_ (.inl rfl) xs
    exact hi.move fun w hw => (hi.waiting w hw).inTime
  | top =>
    simp only [step, hpc, Option.some.injEq] at h
    subst h
    exact hi.wakeAll hex (.inl hpc) xs
  | polling =>
    simp only [step, hpc, Option.some.injEq] at h
    subst h
    exact hi.wakeAll hex (.inr (.inl hpc)) xs
  | polled =>
    simp only [step, hpc, Option.some.injEq] at h
    subst h
    exact hi.wakeAll hex (.inr (.inr hpc)) xs

theorem Inv.enableAndHlt (hex : ex.Sound) (hi : Inv ex s) (h : step ex s .enableAndHlt = some u) :
    Inv ex u := by
  by_cases hpc : s.pc = .masked
  · by_cases hpending : s.pending = []
    · simp only [step, if_pos hpc, if_pos hpending, Option.some.injEq] at h
      subst h
      exact hi.sleep hpc
    · simp only [step, if_pos hpc, if_neg hpending, Option.some.injEq] at h
      subst h
      -- the interrupts that waited are handled before the CPU can sleep
      refine Inv.wakeAll hex (s := { s with pc := .top, pending := [] }) ?_ (.inl rfl) _
      exact hi.move fun w hw => (hi.waiting w hw).inTime
  · simp [step, hpc] at h

theorem Inv.step (hex : ex.Sound) {a : Act τ} (hi : Inv ex s) (h : step ex s a = some u) :
    Inv ex u := by
  cases a with
  | enter =>
    by_cases hpc : s.pc = .top
    · simp only [Runtime.step, if_pos hpc, Option.some.injEq] at h
      subst h
      exact hi.enter hex
    · simp [Runtime.step, hpc] at h
  | poll xs =>
    by_cases hpc : s.pc = .polling
    · simp only [Runtime.step, if_pos hpc, Option.map_eq_some_iff] at h
      obtain ⟨⟨x, e⟩, hnext, rfl⟩ := h
      exact (hi.pollTask hex hpc hnext).wakeAll hex (.inr (.inl hpc)) xs
    · simp [Runtime.step, hpc] at h
  | finish =>
    by_cases hc : s.pc = .polling ∧ (ex.next s.executor).isNone = true
    · simp only [Runtime.step, if_pos hc, Option.some.injEq] at h
      subst h
      exact hi.finish hex hc.1 (Option.isNone_iff_eq_none.mp hc.2)
    · simp only [Runtime.step, if_neg hc, reduceCtorEq] at h
  | disable =>
    by_cases hpc : s.pc = .polled
    · simp only [Runtime.step, if_pos hpc, Option.some.injEq] at h
      subst h
      have hq := hi.waiting
      rw [hpc] at hq
      exact hi.move hq
    · simp [Runtime.step, hpc] at h
  | enableAndHlt => exact hi.enableAndHlt hex h
  | irq xs => exact hi.irq hex xs h

/-- **Every wake is polled for before the CPU sleeps twice**, and before it sleeps once
unless the wake came after the call of `poll`; whatever the interrupts and the tasks do,
and whatever else the executor does. -/
theorem polledInTime_of_run (hex : ex.Sound) {e : σ} (he : ∀ x, ¬ ex.queued e x)
    {spawned : List τ} {l : List (Act τ)}
    (h : Exec (step ex) (fun _ _ => True) (start ex e spawned) l s) : PolledInTime ex s :=
  (h.invariant (start_inv hex he spawned) fun hi _ hstep => hi.step hex hstep).polledInTime

/-- **The CPU sleeps while a task is woken**: the interrupt comes between `poll` and the
mask, and the task runs after the next interrupt. -/
theorem sleeps_with_woken_task : ∃ s : Sys (List ℕ × List ℕ) ℕ,
    Exec (step (.runQueue ℕ)) (fun _ _ => True) (start (.runQueue ℕ) ([], []) [3])
      [.enter, .poll [], .finish, .irq [7], .disable, .enableAndHlt] s ∧
    s.pc = .asleep ∧ s.polled = [(⟨3, 0, false⟩, 0)] ∧ s.waiting = [⟨7, 0, true⟩] ∧
      PolledInTime (.runQueue ℕ) s := by
  obtain ⟨s, hs, hpc, hp, hw⟩ : ∃ s : Sys (List ℕ × List ℕ) ℕ,
      Exec (step (.runQueue ℕ)) (fun _ _ => True) (start (.runQueue ℕ) ([], []) [3])
        [.enter, .poll [], .finish, .irq [7], .disable, .enableAndHlt] s ∧
      s.pc = .asleep ∧ s.polled = [(⟨3, 0, false⟩, 0)] ∧ s.waiting = [⟨7, 0, true⟩] :=
    Exec.exists_of_run (by decide +kernel)
  have hempty : ∀ x, ¬ (Executor.runQueue ℕ).queued ([], []) x := by simp [Executor.runQueue]
  exact ⟨s, hs, hpc, hp, hw, polledInTime_of_run Executor.runQueue_sound hempty hs⟩

end

end Runtime
