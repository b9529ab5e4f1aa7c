/-
Guarded runs of a labelled step function.

A system is given by a partial step function `step : σ → α → Option σ`: the
label carries every choice the system makes, so a run is a list of labels.
`Exec step G s l t` says that the labels `l` lead from `s` to `t` and that each
of them meets the guard `G` in the state it is taken in.  Assumptions about the
environment and conditions on the steps of a run are both guards.

* `Exec.invariant` — what one guarded step preserves holds in every state
  reached;
* `Exec.append_inv` — the states on the way of a run;
* `Exec.of_run` — a run computed by `run` is a guarded run, which is how concrete
  runs are checked;
* `Exec.component` — a run of independent components is a run of each of them;
* `Exec.guarded_iff` — if a step that breaks the condition `C` also breaks the
  property `P`, then `P` holds all along a run exactly when every step of the
  run meets `C`.
-/
import Mathlib.Data.List.Infix
import Mathlib.Logic.Function.Basic
import Mathlib.Tactic.Common

namespace Run

variable {σ α : Type*} {step : σ → α → Option σ} {G H C : σ → α → Prop} {s t u : σ}

/-- The labels `l`, taken in order from `s`, lead to the last state, and each of
them meets the guard in the state it is taken in. -/
inductive Exec (step : σ → α → Option σ) (G : σ → α → Prop) (s : σ) : List α → σ → Prop
  | nil : Exec step G s [] s
  | snoc {l : List α} {t u : σ} {a : α} :
      Exec step G s l t → G t a → step t a = some u → Exec step G s (l ++ [a]) u

/-- **The invariant rule.**  A property of the first state that every guarded
step preserves holds in every state a guarded run reaches. -/
theorem Exec.invariant {I : σ → Prop} {l : List α} (h : Exec step G s l t) (h0 : I s)
    (hstep : ∀ {t u : σ} {a : α}, I t → G t a → step t a = some u → I u) : I t := by
  induction h with
  | nil => exact h0
  | snoc _ hg hs ih => exact hstep ih hg hs

theorem Exec.mono {l : List α} (hGH : ∀ t a, G t a → H t a) (h : Exec step G s l t) :
    Exec step H s l t := by
  induction h with
  | nil => exact .nil
  | snoc _ hg hs ih => exact .snoc ih (hGH _ _ hg) hs

/-- A guard that follows from an invariant holds along the whole run. -/
theorem Exec.with_invariant {I : σ → Prop} {l : List α} (h : Exec step G s l t) (h0 : I s)
    (hstep : ∀ {t u : σ} {a : α}, I t → G t a → step t a = some u → I u)
    (hguard : ∀ {t u : σ} {a : α}, I t → G t a → step t a = some u → H t a) :
    Exec step H s l t := by
  induction h with
  | nil => exact .nil
  | snoc hr hg hs ih => exact .snoc ih (hguard (hr.invariant h0 hstep) hg hs) hs

/-- The last step of a run that is not empty. -/
theorem Exec.snoc_inv {l : List α} {a : α} (h : Exec step G s (l ++ [a]) u) :
    ∃ t, Exec step G s l t ∧ G t a ∧ step t a = some u := by
  generalize hl : l ++ [a] = l' at h
  cases h with
  | nil => exact absurd hl (by simp)
  | snoc hr hg hs =>
    obtain ⟨rfl, hab⟩ := List.append_inj' hl rfl
    obtain rfl := List.singleton_inj.mp hab
    exact ⟨_, hr, hg, hs⟩

theorem Exec.nil_inv (h : Exec step G s [] t) : t = s := by
  generalize hl : ([] : List α) = l at h
  cases h with
  | nil => rfl
  | snoc _ _ _ => exact absurd hl (by simp)

/-- The labels determine the run: the step function is deterministic. -/
theorem Exec.unique {l : List α} (h : Exec step G s l t) :
    ∀ {t' : σ}, Exec step H s l t' → t' = t := by
  induction h with
  | nil => exact fun h' => h'.nil_inv
  | snoc _ _ hs ih =>
    intro t' h'
    obtain ⟨v, hv, -, hs'⟩ := h'.snoc_inv
    obtain rfl := ih hv
    exact Option.some_inj.mp (hs'.symm.trans hs)

/-- A run of two parts passes through a state between them. -/
theorem Exec.append_inv {l l' : List α} (h : Exec step G s (l ++ l') u) :
    ∃ t, Exec step G s l t ∧ Exec step G t l' u := by
  induction l' using List.reverseRecOn generalizing u with
  | nil => exact ⟨u, by rwa [List.append_nil] at h, .nil⟩
  | append_singleton l' a ih =>
    rw [← List.append_assoc] at h
    obtain ⟨v, hv, hg, hs⟩ := h.snoc_inv
    obtain ⟨t, ht, ht'⟩ := ih hv
    exact ⟨t, ht, .snoc ht' hg hs⟩

/-! ### Computed runs -/

/-- Take the labels in order, stopping at the first that breaks the guard or that
the step function refuses. -/
def run (step : σ → α → Option σ) (G : σ → α → Prop) [∀ s a, Decidable (G s a)] :
    σ → List α → Option σ
  | s, [] => some s
  | s, a :: l => if G s a then (step s a).bind fun t => run step G t l else none

theorem Exec.cons {a : α} {l : List α} (hg : G s a) (hs : step s a = some t)
    (h : Exec step G t l u) : Exec step G s (a :: l) u := by
  induction h with
  | nil => exact Exec.snoc (l := []) .nil hg hs
  | snoc _ hg' hs' ih => exact Exec.snoc ih hg' hs'

theorem Exec.trans {l l' : List α} (h : Exec step G s l t) (h' : Exec step G t l' u) :
    Exec step G s (l ++ l') u := by
  induction h' with
  | nil => rwa [List.append_nil]
  | snoc _ hg hs ih =>
    rw [← List.append_assoc]
    exact .snoc ih hg hs

section

variable [∀ s a, Decidable (G s a)]

/-- A run that `run` computes is a guarded run. -/
theorem Exec.of_run : ∀ {l : List α} {s t : σ}, run step G s l = some t → Exec step G s l t := by
  intro l
  induction l with
  | nil =>
    intro s t h
    obtain rfl := Option.some_inj.mp h
    exact .nil
  | cons a l ih =>
    intro s t h
    rw [run] at h
    by_cases hga : G s a
    · rw [if_pos hga, Option.bind_eq_some_iff] at h
      obtain ⟨v, hv, hrest⟩ := h
      exact Exec.cons hga hv (ih hrest)
    · rw [if_neg hga] at h
      exact absurd h (by simp)

/-- A computed run reaches what its last state shows. -/
theorem Exec.exists_of_run {p : σ → Prop} {l : List α} (h : ∃ t ∈ run step G s l, p t) :
    ∃ t, Exec step G s l t ∧ p t := by
  obtain ⟨t, ht, hp⟩ := h
  exact ⟨t, Exec.of_run ht, hp⟩

theorem Exec.exists_of_map {τ : Type*} {f : σ → τ} {x : τ} {l : List α}
    (h : (run step G s l).map f = some x) : ∃ t, Exec step G s l t ∧ f t = x := by
  obtain ⟨t, ht, hx⟩ := Option.map_eq_some_iff.mp h
  exact ⟨t, Exec.of_run ht, hx⟩

end

/-! ### Parts of a system -/

/-- A run of a part, with the rest of the system fixed, is a run of the system. -/
theorem Exec.lift {τ β : Type*} {step' : τ → β → Option τ} {G' : τ → β → Prop} (e : σ → τ)
    (f : α → β) (hstep : ∀ {s t a}, G s a → step s a = some t →
      G' (e s) (f a) ∧ step' (e s) (f a) = some (e t)) {l : List α} (h : Exec step G s l t) :
    Exec step' G' (e s) (l.map f) (e t) := by
  induction h with
  | nil => exact .nil
  | @snoc l t u a _ hg hs ih =>
    rw [List.map_append]
    exact .snoc ih (hstep hg hs).1 (hstep hg hs).2

/-! ### Independent components -/

/-- A step of component `i`, which leaves the others alone. -/
def onComponent {ι : Type*} [DecidableEq ι] (step : σ → α → Option σ) (s : ι → σ) (a : ι × α) :
    Option (ι → σ) :=
  (step (s a.1) a.2).map (Function.update s a.1)

/-- A run of all components is a run of each of them. -/
theorem Exec.component {ι : Type*} [DecidableEq ι] {G : (ι → σ) → ι × α → Prop} {i : ι}
    {s t : ι → σ} {l : List (ι × α)} (h : Exec (onComponent step) G s l t)
    (hguard : ∀ s a, G s (i, a) → H (s i) a) : ∃ l', Exec step H (s i) l' (t i) := by
  induction h with
  | nil => exact ⟨[], .nil⟩
  | @snoc _ t u a _ hg hs ih =>
    obtain ⟨l', hl'⟩ := ih
    obtain ⟨c, hc, rfl⟩ := Option.map_eq_some_iff.mp hs
    by_cases hi : a.1 = i
    · subst hi
      refine ⟨l' ++ [a.2], .snoc hl' (hguard t a.2 hg) ?_⟩
      rw [Function.update_self]
      exact hc
    · exact ⟨l', by rwa [Function.update_of_ne (Ne.symm hi)]⟩

/-! ### Conditions that are exact -/

/-- **Exact conditions.**  Let `P` hold all along every run whose steps meet `C`,
and let every step that breaks `C` lead to a state without `P`.  Then `P` holds
in every state of a run exactly when each of its steps meets `C`. -/
theorem Exec.guarded_iff {P : σ → Prop} {l : List α}
    (hkeep : ∀ {l t}, Exec step (fun t a => H t a ∧ C t a) s l t → P t)
    (hbreak : ∀ {l t u a}, Exec step (fun t a => H t a ∧ C t a) s l t → H t a → ¬ C t a →
      step t a = some u → ¬ P u)
    (h : Exec step H s l t) :
    (∀ l' t', l' <+: l → Exec step H s l' t' → P t') ↔
      Exec step (fun t a => H t a ∧ C t a) s l t := by
  constructor
  · induction h with
    | nil => exact fun _ => .nil
    | @snoc l t u a hr hh hs ih =>
      intro hP
      have hr' := ih fun l' t' hl' => hP l' t' (hl'.trans (List.prefix_append l [a]))
      by_cases hc : C t a
      · exact .snoc hr' ⟨hh, hc⟩ hs
      · exact absurd (hP (l ++ [a]) u List.prefix_rfl (.snoc hr hh hs)) (hbreak hr' hh hc hs)
  · intro hr l' t' hl' h'
    -- a shorter run of a guarded run is guarded: cut its last steps off one by one
    clear h
    induction hr with
    | nil =>
      obtain rfl := List.prefix_nil.mp hl'
      obtain rfl := h'.nil_inv
      exact hkeep .nil
    | @snoc l t u a hr hg hs ih =>
      rcases List.prefix_concat_iff.mp hl' with rfl | hlt
      · have hfull := Exec.snoc hr hg hs
        obtain rfl := hfull.unique h'
        exact hkeep hfull
      · exact ih hlt

end Run
