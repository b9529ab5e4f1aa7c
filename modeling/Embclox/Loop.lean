/-
Loops of programs.

The body of a loop is a program that says whether to go on.  `loop body n` makes at
most `n` rounds and returns `true` if the loop is not over by then, so that loops that
do not end can be spoken about.

* `Ends body s` — the loop is left after finitely many rounds, because its body says
  so, fails or panics;
* `Exits body s` — it is left without a panic;
* `ends_of_rank`, `exits_of_rank` — it is if every round that goes on lowers a rank;
* `not_ends` — it is not if an invariant makes every round go on;
* `loop_safe` — a round that keeps an invariant and returns makes a loop that does.
-/
import Embclox.Effect

namespace Effect

namespace Prog

variable {σ ε : Type}

/-- At most `n` rounds; `true` if the loop is not over by then. -/
def loop (body : Prog σ ε Bool) : ℕ → Prog σ ε Bool
  | 0 => pure true
  | n + 1 => do
      if ← body then loop body n else return false

/-- The loop is left after finitely many rounds. -/
def Ends (body : Prog σ ε Bool) (s : σ) : Prop := ∃ n, (loop body n s).1 ≠ .ok true

/-- The loop is left after finitely many rounds, because its body says so or fails. -/
def Exits (body : Prog σ ε Bool) (s : σ) : Prop :=
  ∃ n, (loop body n s).1 ≠ .ok true ∧ (loop body n s).1 ≠ .panic

section

variable {body : Prog σ ε Bool} {s t : σ}

theorem loop_next (h : body s = (.ok true, t)) (n : ℕ) : loop body (n + 1) s = loop body n t := by
  rw [loop, bind_apply, h]
  rfl

/-- A round that does not go on is the last one. -/
theorem loop_last (h : (body s).1 ≠ .ok true) (n : ℕ) : loop body (n + 1) s = body s := by
  rw [loop, bind_apply]
  rcases hb : body s with ⟨b | e | _, t⟩
  · cases b with
    | true => exact absurd (congrArg Prod.fst hb) h
    | false => rfl
  · rfl
  · rfl

/-- A round goes on, or it does not. -/
theorem round_cases (body : Prog σ ε Bool) (s : σ) :
    (∃ t, body s = (.ok true, t)) ∨ (body s).1 ≠ .ok true := by
  rcases hb : body s with ⟨b | e | _, t⟩
  · cases b with
    | true => exact .inl ⟨t, rfl⟩
    | false => exact .inr (by simp)
  · exact .inr (by simp)
  · exact .inr (by simp)

theorem Ends.last (h : (body s).1 ≠ .ok true) : Ends body s :=
  ⟨1, by rw [loop_last h]; exact h⟩

theorem Ends.next (h : body s = (.ok true, t)) (ht : Ends body t) : Ends body s := by
  obtain ⟨n, hn⟩ := ht
  exact ⟨n + 1, by rw [loop_next h]; exact hn⟩

/-- **A loop ends** if every round that goes on lowers the rank of its state, and no
round goes on from rank 0. -/
theorem ends_of_rank {P : ℕ → σ → Prop} (hzero : ∀ s, P 0 s → (body s).1 ≠ .ok true)
    (hsucc : ∀ n s t, P (n + 1) s → body s = (.ok true, t) → P n t) {n : ℕ} (h : P n s) :
    Ends body s := by
  induction n generalizing s with
  | zero => exact Ends.last (hzero s h)
  | succ n ih =>
    rcases round_cases body s with ⟨t, ht⟩ | hlast
    · exact Ends.next ht (ih (hsucc n s t h ht))
    · exact Ends.last hlast

theorem Exits.ends (h : Exits body s) : Ends body s := by
  obtain ⟨n, hn, -⟩ := h
  exact ⟨n, hn⟩

/-- The rounds of a loop that exits do not panic. -/
theorem Exits.safe (h : Exits body s) : (body s).1 ≠ .panic := by
  obtain ⟨n, hn, hsafe⟩ := h
  cases n with
  | zero => exact absurd rfl hn
  | succ n =>
    rcases round_cases body s with ⟨t, ht⟩ | hlast
    · rw [ht]
      simp
    · rwa [loop_last hlast] at hsafe

/-- After a round that goes on, there is still an exit. -/
theorem Exits.next (h : Exits body s) (ht : body s = (.ok true, t)) : Exits body t := by
  obtain ⟨n, hn, hsafe⟩ := h
  cases n with
  | zero => exact absurd rfl hn
  | succ n =>
    rw [loop_next ht] at hn hsafe
    exact ⟨n, hn, hsafe⟩

/-- **A loop exits** if no round panics and every round that goes on lowers the rank. -/
theorem exits_of_rank {P : ℕ → σ → Prop} (hsafe : ∀ n s, P n s → (body s).1 ≠ .panic)
    (hzero : ∀ s, P 0 s → (body s).1 ≠ .ok true)
    (hsucc : ∀ n s t, P (n + 1) s → body s = (.ok true, t) → P n t) {n : ℕ} (h : P n s) :
    Exits body s := by
  have hlast : ∀ {n s}, P n s → (body s).1 ≠ .ok true → Exits body s := by
    intro n s h hend
    exact ⟨1, by rwa [loop_last hend], by rw [loop_last hend]; exact hsafe n s h⟩
  induction n generalizing s with
  | zero => exact hlast h (hzero s h)
  | succ n ih =>
    rcases round_cases body s with ⟨t, ht⟩ | hend
    · obtain ⟨m, hm, hms⟩ := ih (hsucc n s t h ht)
      exact ⟨m + 1, by rwa [loop_next ht], by rwa [loop_next ht]⟩
    · exact hlast h hend

/-- **A loop does not end** if some invariant makes every round go on. -/
theorem not_ends {J : σ → Prop} (hnext : ∀ s, J s → ∃ t, body s = (.ok true, t) ∧ J t)
    (hs : J s) : ¬ Ends body s := by
  rintro ⟨n, hn⟩
  induction n generalizing s with
  | zero => exact hn rfl
  | succ n ih =>
    obtain ⟨t, ht, hJ⟩ := hnext s hs
    rw [loop_next ht] at hn
    exact ih hJ hn

/-- A loop keeps what its rounds keep, and returns if they do. -/
theorem loop_safe {I : σ → Prop} (hround : ∀ s, I s → I (body s).2 ∧ ∃ b, (body s).1 = .ok b)
    (n : ℕ) (hs : I s) : I (loop body n s).2 ∧ ∃ b, (loop body n s).1 = .ok b := by
  induction n generalizing s with
  | zero => exact ⟨hs, true, rfl⟩
  | succ n ih =>
    have hone := hround s hs
    rcases round_cases body s with ⟨t, ht⟩ | hlast
    · rw [ht] at hone
      rw [loop_next ht]
      exact ih hone.1
    · rw [loop_last hlast]
      exact hone

/-- A loop that ends and whose rounds return ends with `false`. -/
theorem Ends.safe {I : σ → Prop} (hround : ∀ s, I s → I (body s).2 ∧ ∃ b, (body s).1 = .ok b)
    (hs : I s) (h : Ends body s) : ∃ n t, loop body n s = (.ok false, t) ∧ I t := by
  obtain ⟨n, hn⟩ := h
  obtain ⟨hI, b, hb⟩ := loop_safe hround n hs
  refine ⟨n, (loop body n s).2, ?_, hI⟩
  cases b with
  | true => exact absurd hb hn
  | false => exact Prod.ext hb rfl

end

end Prog

end Effect
