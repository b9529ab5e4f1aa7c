/-
Feeding a stateful matcher until it matches.

A matcher takes a letter and may change its own state; it returns a result for a
letter that it accepts.  `feed m c l` runs it over `l` up to the first match and
`upTo m c l` is the part of `l` that it has seen then, the match included.

* `feed_append_of_none`, `feed_append_of_some` — feeding a word in two parts;
* `prefix_upTo` — letters that have all been seen are seen first, whatever follows;
* `feed_snoc`, `upTo_snoc` — one more letter after a part without a match.
-/
import Mathlib.Data.List.Infix
import Mathlib.Tactic.Common

namespace Matching

variable {σ α ρ : Type*} {m : σ → α → σ × Option ρ} {c c' : σ} {l : List α} {r : ρ}

/-- The state of the matcher after it has seen `l` up to the first match, and the
result. -/
def feed (m : σ → α → σ × Option ρ) : σ → List α → σ × Option ρ
  | c, [] => (c, none)
  | c, a :: l =>
      match m c a with
      | (c', some r) => (c', some r)
      | (c', none) => feed m c' l

/-- The letters up to and including the first match. -/
def upTo (m : σ → α → σ × Option ρ) : σ → List α → List α
  | _, [] => []
  | c, a :: l =>
      match m c a with
      | (_, some _) => [a]
      | (c', none) => a :: upTo m c' l

theorem feed_cons_of_some {a : α} (h : m c a = (c', some r)) (l : List α) :
    feed m c (a :: l) = (c', some r) := by
  rw [feed, h]

theorem feed_cons_of_none {a : α} (h : m c a = (c', none)) (l : List α) :
    feed m c (a :: l) = feed m c' l := by
  rw [feed, h]

theorem upTo_cons_of_some {a : α} (h : m c a = (c', some r)) (l : List α) :
    upTo m c (a :: l) = [a] := by
  rw [upTo, h]

theorem upTo_cons_of_none {a : α} (h : m c a = (c', none)) (l : List α) :
    upTo m c (a :: l) = a :: upTo m c' l := by
  rw [upTo, h]

/-- Without a match the matcher goes on with the second part, and has seen all of
the first. -/
theorem feed_append_of_none (h : feed m c l = (c', none)) (l' : List α) :
    feed m c (l ++ l') = feed m c' l' ∧ upTo m c (l ++ l') = l ++ upTo m c' l' := by
  induction l generalizing c with
  | nil =>
    obtain ⟨rfl, -⟩ := Prod.mk.inj h
    exact ⟨rfl, rfl⟩
  | cons a l ih =>
    rcases hm : m c a with ⟨d, _ | r⟩
    · rw [feed_cons_of_none hm] at h
      obtain ⟨hfeed, hupTo⟩ := ih h
      rw [List.cons_append, feed_cons_of_none hm, upTo_cons_of_none hm, hupTo]
      exact ⟨hfeed, rfl⟩
    · rw [feed_cons_of_some hm] at h
      exact absurd (Prod.mk.inj h).2 (by simp)

/-- After a match the second part does not matter. -/
theorem feed_append_of_some (h : feed m c l = (c', some r)) (l' : List α) :
    feed m c (l ++ l') = (c', some r) ∧ upTo m c (l ++ l') = upTo m c l := by
  induction l generalizing c with
  | nil => exact absurd (Prod.mk.inj h).2 (by simp)
  | cons a l ih =>
    rcases hm : m c a with ⟨d, _ | r'⟩
    · rw [feed_cons_of_none hm] at h
      obtain ⟨hfeed, hupTo⟩ := ih h
      rw [List.cons_append, feed_cons_of_none hm, upTo_cons_of_none hm, upTo_cons_of_none hm, hupTo]
      exact ⟨hfeed, rfl⟩
    · rw [feed_cons_of_some hm] at h
      rw [List.cons_append, feed_cons_of_some hm, upTo_cons_of_some hm, upTo_cons_of_some hm]
      exact ⟨h, rfl⟩

/-- One more letter, after letters without a match. -/
theorem feed_snoc (h : feed m c l = (c', none)) (a : α) : feed m c (l ++ [a]) = m c' a := by
  rw [(feed_append_of_none h [a]).1]
  rcases hm : m c' a with ⟨d, _ | r⟩
  · exact feed_cons_of_none hm []
  · exact feed_cons_of_some hm []

theorem upTo_snoc (h : feed m c l = (c', none)) (a : α) : upTo m c (l ++ [a]) = l ++ [a] := by
  rw [(feed_append_of_none h [a]).2]
  rcases hm : m c' a with ⟨d, _ | r⟩
  · rw [upTo_cons_of_none hm, upTo]
  · rw [upTo_cons_of_some hm]

/-- Letters that have all been seen are seen first, whatever follows. -/
theorem prefix_upTo (h : upTo m c l = l) (l' : List α) : l <+: upTo m c (l ++ l') := by
  rcases hf : feed m c l with ⟨c', _ | r⟩
  · exact ⟨upTo m c' l', (feed_append_of_none hf l').2.symm⟩
  · rw [(feed_append_of_some hf l').2, h]

end Matching
