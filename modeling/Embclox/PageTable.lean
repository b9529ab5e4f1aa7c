/-
Page tables as maps from page numbers to entries.

Mapping a page that is mapped fails, and so does unmapping one that is not.  A region
is mapped and unmapped page by page.

* `mapEach`, `unmapEach` — a loop of such operations, each on a page that may fail to
  exist;
* `mapEach_eq`, `unmapEach_eq` — over consecutive pages that are free, or mapped, the
  loop succeeds and changes these pages only (`setRange`);
* `exists_of_mapEach`, `mapped_of_unmapEach` — what the loops need to succeed.
-/
import Mathlib.Logic.Function.Basic
import Mathlib.Tactic.Common

namespace PageTable

variable {φ : Type}

abbrev Table (φ : Type) : Type := ℕ → Option φ

def mapTo (t : Table φ) (page : ℕ) (entry : φ) : Option (Table φ) :=
  match t page with
  | some _ => none
  | none => some (Function.update t page (some entry))

def unmap (t : Table φ) (page : ℕ) : Option (Table φ) :=
  match t page with
  | some _ => some (Function.update t page none)
  | none => none

/-- Map the page and the entry that `f` names, for each number below `n` in order. -/
def mapEach (f : ℕ → Option (ℕ × φ)) : ℕ → Table φ → Option (Table φ)
  | 0, t => some t
  | n + 1, t => (mapEach f n t).bind fun t => (f n).bind fun x => mapTo t x.1 x.2

/-- Unmap the page that `f` names, for each number below `n` in order. -/
def unmapEach (f : ℕ → Option ℕ) : ℕ → Table φ → Option (Table φ)
  | 0, t => some t
  | n + 1, t => (unmapEach f n t).bind fun t => (f n).bind fun page => unmap t page

/-- `n` pages from `page` on get these entries. -/
def setRange (t : Table φ) (page n : ℕ) (entry : ℕ → Option φ) : Table φ := fun p =>
  if page ≤ p ∧ p < page + n then entry (p - page) else t p

section

variable {t t' : Table φ} {page n i : ℕ} {entry : ℕ → Option φ}

theorem setRange_of_lt (h : i < n) : setRange t page n entry (page + i) = entry i := by
  rw [setRange, if_pos (by omega), Nat.add_sub_cancel_left]

theorem setRange_of_not {p : ℕ} (h : ¬ (page ≤ p ∧ p < page + n)) :
    setRange t page n entry p = t p :=
  if_neg h

theorem setRange_zero : setRange t page 0 entry = t :=
  funext fun _ => if_neg (by omega)

/-- One page more. -/
theorem update_setRange :
    Function.update (setRange t page n entry) (page + n) (entry n) =
      setRange t page (n + 1) entry := by
  funext p
  by_cases hp : p = page + n
  · subst hp
    rw [Function.update_self, setRange_of_lt (Nat.lt_succ_self n)]
  · rw [Function.update_of_ne hp]
    unfold setRange
    by_cases hr : page ≤ p ∧ p < page + n
    · rw [if_pos hr, if_pos (by omega)]
    · rw [if_neg hr, if_neg (by omega)]

end

section

variable {t t' : Table φ} {page n : ℕ} {f : ℕ → Option (ℕ × φ)} {g : ℕ → Option ℕ} {e : ℕ → φ}

/-- **Free pages are mapped**, and no others change. -/
theorem mapEach_eq (hf : ∀ i < n, f i = some (page + i, e i))
    (hfree : ∀ i < n, t (page + i) = none) :
    mapEach f n t = some (setRange t page n fun i => some (e i)) := by
  induction n with
  | zero => rw [mapEach, setRange_zero]
  | succ n ih =>
    have hpage : setRange t page n (fun i => some (e i)) (page + n) = none := by
      rw [setRange_of_not (by omega)]
      exact hfree n (Nat.lt_succ_self n)
    rw [mapEach, ih (fun i hi => hf i (by omega)) fun i hi => hfree i (by omega),
      Option.bind_some, hf n (Nat.lt_succ_self n), Option.bind_some, mapTo]
    dsimp only
    rw [hpage, ← update_setRange]

/-- A loop that succeeds has found all its pages. -/
theorem exists_of_mapEach (h : mapEach f n t = some t') : ∀ i < n, ∃ x, f i = some x := by
  induction n generalizing t' with
  | zero =>
    intro i hi
    omega
  | succ n ih =>
    rw [mapEach] at h
    obtain ⟨t₁, ht₁, h⟩ := Option.bind_eq_some_iff.mp h
    obtain ⟨x, hx, -⟩ := Option.bind_eq_some_iff.mp h
    intro i hi
    rcases Nat.lt_succ_iff_lt_or_eq.mp hi with hlt | rfl
    · exact ih ht₁ i hlt
    · exact ⟨x, hx⟩

/-- **Mapped pages are unmapped**, and no others change. -/
theorem unmapEach_eq (hg : ∀ i < n, g i = some (page + i))
    (hmapped : ∀ i < n, t (page + i) ≠ none) :
    unmapEach g n t = some (setRange t page n fun _ => none) := by
  induction n with
  | zero => rw [unmapEach, setRange_zero]
  | succ n ih =>
    obtain ⟨x, hx⟩ := Option.ne_none_iff_exists'.mp (hmapped n (Nat.lt_succ_self n))
    have hpage : setRange t page n (fun _ => none) (page + n) = some x := by
      rw [setRange_of_not (by omega)]
      exact hx
    rw [unmapEach, ih (fun i hi => hg i (by omega)) fun i hi => hmapped i (by omega),
      Option.bind_some, hg n (Nat.lt_succ_self n), Option.bind_some, unmap, hpage,
      ← update_setRange]

/-- A loop that succeeds has found all its pages mapped. -/
theorem mapped_of_unmapEach (hg : ∀ i < n, g i = some (page + i))
    (h : unmapEach g n t = some t') : ∀ i < n, t (page + i) ≠ none := by
  induction n generalizing t' with
  | zero =>
    intro i hi
    omega
  | succ n ih =>
    rw [unmapEach] at h
    obtain ⟨t₁, ht₁, h⟩ := Option.bind_eq_some_iff.mp h
    have hg' : ∀ i < n, g i = some (page + i) := fun i hi => hg i (by omega)
    have hall := ih hg' ht₁
    -- the pages before the last one are another part of the table
    obtain rfl := Option.some.inj (ht₁.symm.trans (unmapEach_eq hg' hall))
    intro i hi
    rcases Nat.lt_succ_iff_lt_or_eq.mp hi with hlt | rfl
    · exact hall i hlt
    · intro hnone
      rw [hg i (Nat.lt_succ_self i), Option.bind_some, unmap, setRange_of_not (by omega),
        hnone] at h
      exact absurd h (by simp)

end

end PageTable
