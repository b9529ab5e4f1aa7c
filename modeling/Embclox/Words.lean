/-
Words of a text, and which of them counts.

A text is cut into words at separators; empty words are dropped.  Options are often read
off such a list so that the last word of a kind counts (a loop that overwrites a variable)
or the first one (a search).

* `words_append_cons` — a separator cuts a text into two whose words are independent;
* `foldl_or` — a loop that overwrites a variable keeps the last match;
* `lastMatch_filter`, `findSome?_filter` — words of another kind do not matter.
-/
import Mathlib.Data.List.Basic
import Mathlib.Data.List.Induction
import Mathlib.Tactic.Common

namespace Words

variable {α β : Type*}

/-! ### Words -/

/-- The words of a text: what stands between separators, without the empty words. -/
def words (sep : α → Bool) (text : List α) : List (List α) :=
  (text.splitOnP sep).filter fun word => !word.isEmpty

variable {sep : α → Bool} {c : α} {a b word : List α}

/-- A separator stands between words. -/
theorem words_append_cons (h : sep c = true) :
    words sep (a ++ c :: b) = words sep a ++ words sep b := by
  rw [words, List.splitOnP_append_cons _ _ h, List.filter_append]
  rfl

theorem words_singleton (hword : ∀ x ∈ word, sep x = false) (hne : word ≠ []) :
    words sep word = [word] := by
  rw [words, List.splitOnP_eq_singleton hword]
  simp [hne]

/-- A word set off by separators is one word more. -/
theorem words_insert {c' : α} (hc : sep c = true) (hc' : sep c' = true)
    (hword : ∀ x ∈ word, sep x = false) (hne : word ≠ []) :
    words sep (a ++ c :: (word ++ c' :: b)) = words sep a ++ word :: words sep b := by
  rw [words_append_cons hc, words_append_cons hc', words_singleton hword hne]
  rfl

/-! ### The last match -/

/-- What `f` finds in the last element in which it finds something. -/
def lastMatch (f : α → Option β) (l : List α) : Option β := (l.filterMap f).getLast?

variable {f : α → Option β} {l : List α} {x : β}

theorem lastMatch_eq_some_iff :
    lastMatch f l = some x ↔
      ∃ before e after, l = before ++ e :: after ∧ f e = some x ∧ ∀ e' ∈ after, f e' = none := by
  rw [lastMatch, List.getLast?_filterMap, List.findSome?_eq_some_iff]
  constructor
  · rintro ⟨after, e, before, hl, he, hafter⟩
    refine ⟨before.reverse, e, after.reverse, ?_, he, ?_⟩
    · rw [← l.reverse_reverse, hl]
      simp
    · intro e' he'
      exact hafter e' (List.mem_reverse.mp he')
  · rintro ⟨before, e, after, rfl, he, hafter⟩
    refine ⟨after.reverse, e, before.reverse, by simp, he, ?_⟩
    intro e' he'
    exact hafter e' (List.mem_reverse.mp he')

theorem lastMatch_concat {e : α} :
    lastMatch f (l ++ [e]) = (f e).or (lastMatch f l) := by
  rw [lastMatch, List.filterMap_append, List.getLast?_append]
  cases h : f e <;> simp [h, lastMatch]

/-- **A loop that overwrites a variable** leaves the last match in it. -/
theorem foldl_or (l : List α) (x : Option β) :
    l.foldl (fun x e => (f e).or x) x = (lastMatch f l).or x := by
  induction l using List.reverseRecOn with
  | nil => rfl
  | append_singleton l e ih =>
    rw [List.foldl_concat, ih, lastMatch_concat]
    cases f e <;> rfl

theorem foldl_getD (l : List α) (x : β) :
    l.foldl (fun x e => (f e).getD x) x = (lastMatch f l).getD x := by
  have hsome : l.foldl (fun x e => (f e).or x) (some x) =
      some (l.foldl (fun x e => (f e).getD x) x) := by
    refine List.foldl_hom some fun x e => ?_
    cases f e <;> rfl
  rw [foldl_or] at hsome
  refine Option.some_inj.mp (hsome.symm.trans ?_)
  cases lastMatch f l <;> rfl

/-! ### Elements in which nothing is found -/

theorem filterMap_filter_of_none {p : α → Bool} (h : ∀ e, p e = false → f e = none)
    (l : List α) : (l.filter p).filterMap f = l.filterMap f := by
  rw [List.filterMap_filter]
  refine List.filterMap_congr fun e _ => ?_
  cases hp : p e with
  | true => rfl
  | false => exact (h e hp).symm

theorem lastMatch_filter {p : α → Bool} (h : ∀ e, p e = false → f e = none) (l : List α) :
    lastMatch f (l.filter p) = lastMatch f l := by
  rw [lastMatch, filterMap_filter_of_none h, lastMatch]

theorem findSome?_filter {p : α → Bool} (h : ∀ e, p e = false → f e = none) (l : List α) :
    (l.filter p).findSome? f = l.findSome? f := by
  rw [← List.head?_filterMap, filterMap_filter_of_none h, List.head?_filterMap]

end Words
