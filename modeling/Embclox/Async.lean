/-
What is assumed of an asynchronous runtime.

Tasks wait for interrupt handlers through waker cells, and an executor polls the tasks
that were woken.  Both come from libraries outside of the code that uses them, so that
neither is defined here: a cell and an executor are parameters, and what a proof may use
about them is stated.

* `Cell`, `Cell.Sound` — a waker that is registered is called by the next wake;
* `Executor`, `Executor.Sound` — a wake queues its task, a task leaves the queue only to be
  polled, and a call of `poll` polls every task that is queued when it begins;
* `Cell.taking`, `Executor.runQueue` — a cell and an executor that do so.
-/
import Mathlib.Data.List.Nodup

namespace Async

/-- A waker cell that one task registers in. -/
structure Cell (ω : Type) where
  register : ω → ω
  wake : ω → ω
  /-- A wake would call the waker of the task. -/
  holds : ω → Bool

structure Cell.Sound {ω : Type} (cell : Cell ω) : Prop where
  registered : ∀ w, cell.holds (cell.register w) = true

/-- A cell that gives its waker away with the wake. -/
def Cell.taking : Cell Bool := ⟨fun _ => true, fun _ => false, id⟩

theorem Cell.taking_sound : Cell.taking.Sound := ⟨fun _ => rfl⟩

/-- An executor with states `σ` and tasks `τ`. -/
structure Executor (σ τ : Type) where
  /-- The task is woken, or spawned. -/
  wake : σ → τ → σ
  /-- `poll` is called. -/
  enter : σ → σ
  /-- The next task that this call of `poll` polls; `none` if it returns. -/
  next : σ → Option (τ × σ)
  /-- The task waits to be polled. -/
  queued : σ → τ → Prop
  /-- The current call of `poll` is going to poll it. -/
  due : σ → τ → Prop

variable {σ τ : Type}

structure Executor.Sound (ex : Executor σ τ) : Prop where
  queued_wake : ∀ e x y, ex.queued (ex.wake e x) y ↔ y = x ∨ ex.queued e y
  due_wake : ∀ e x y, ex.due e y → ex.due (ex.wake e x) y
  queued_enter : ∀ e x, ex.queued (ex.enter e) x ↔ ex.queued e x
  due_enter : ∀ e x, ex.queued e x → ex.due (ex.enter e) x
  /-- A task that is polled leaves the queue, and no other does. -/
  queued_next : ∀ {e x e'}, ex.next e = some (x, e') →
    ∀ y, ex.queued e' y ↔ y ≠ x ∧ ex.queued e y
  due_next : ∀ {e x e'}, ex.next e = some (x, e') → ∀ y, y ≠ x → ex.due e y → ex.due e' y
  returns : ∀ {e}, ex.next e = none → ∀ x, ¬ ex.due e x

/-- `poll` takes the whole queue; who is woken meanwhile waits for the next call. -/
def Executor.runQueue (τ : Type) [DecidableEq τ] : Executor (List τ × List τ) τ where
  wake e x := if x ∈ e.1 ++ e.2 then e else (e.1, e.2 ++ [x])
  enter e := (e.1 ++ e.2, [])
  next
    | ([], _) => none
    | (x :: taken, queue) => some (x, (taken.filter (· ≠ x), queue.filter (· ≠ x)))
  queued e x := x ∈ e.1 ++ e.2
  due e x := x ∈ e.1

theorem Executor.runQueue_sound [DecidableEq τ] : (Executor.runQueue τ).Sound where
  queued_wake := by
    intro e x y
    simp only [runQueue]
    split
    · rename_i hx
      exact ⟨.inr, fun h => h.elim (fun h => h ▸ hx) id⟩
    · rw [← List.append_assoc, List.mem_append, List.mem_singleton]
      exact Or.comm
  due_wake := by
    intro e x y hy
    simp only [runQueue]
    split
    · exact hy
    · exact hy
  queued_enter := by simp [runQueue]
  due_enter := fun _ _ h => h
  queued_next := by
    rintro ⟨_ | ⟨a, taken⟩, queue⟩ x e' h y
    · simp [runQueue] at h
    · obtain ⟨rfl, rfl⟩ : a = x ∧ (taken.filter (· ≠ a), queue.filter (· ≠ a)) = e' := by
        simpa [runQueue] using h
      simp only [runQueue, List.mem_append, List.mem_filter, List.mem_cons]
      grind
  due_next := by
    rintro ⟨_ | ⟨a, taken⟩, queue⟩ x e' h y hne hy
    · simp [runQueue] at h
    · obtain ⟨rfl, rfl⟩ : a = x ∧ (taken.filter (· ≠ a), queue.filter (· ≠ a)) = e' := by
        simpa [runQueue] using h
      exact List.mem_filter.mpr ⟨(List.mem_cons.mp hy).resolve_left hne, by simpa using hne⟩
  returns := by
    rintro ⟨_ | ⟨a, taken⟩, queue⟩ h x
    · simp [runQueue]
    · simp [runQueue] at h

end Async
