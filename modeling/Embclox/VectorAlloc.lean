/-
The allocator of IDT vectors for driver interrupts.

A bitmap over the vectors from `start` to `stop`: `new` marks the reserved ones, and
`allocate` takes the first that is free.

* `allocate_eq_some_iff` — the vector that `allocate` returns is the first free one;
* `taken_of_allocate` — what was taken stays taken;
* `taken_new` — the reserved vectors are taken from the start;
* `free_new`, `allocate_of_free_cons` — the vectors handed out are the others, in order.
-/
import Mathlib.Data.List.Basic
import Mathlib.Tactic.Common

namespace Boot

/-- Bit `i` of `used` stands for the vector `start + i`. -/
structure VectorAllocator where
  used : BitVec 32
  start : ℕ
  stop : ℕ
  /-- The assertions of `new`. -/
  exceptions : 32 ≤ start
  nonempty : start ≤ stop
  fits : stop - start < 32

namespace VectorAllocator

/-- Mark the vector `v`, if it is in range. -/
def reserve (a : VectorAllocator) (v : ℕ) : VectorAllocator :=
  if a.start ≤ v ∧ v ≤ a.stop then { a with used := a.used ||| 1#32 <<< (v - a.start) } else a

/-- `none` is a failed assertion. -/
def new (start stop : ℕ) (reserved : List ℕ) : Option VectorAllocator :=
  if h : 32 ≤ start ∧ start ≤ stop ∧ stop - start < 32 then
    some (reserved.foldl reserve ⟨0#32, start, stop, h.1, h.2.1, h.2.2⟩)
  else none

/-- The number of vectors in range. -/
def span (a : VectorAllocator) : ℕ := a.stop - a.start + 1

def allocate (a : VectorAllocator) : Option (ℕ × VectorAllocator) :=
  ((List.range a.span).find? fun i => a.used &&& 1#32 <<< i == 0#32).map fun i =>
    (a.start + i, { a with used := a.used ||| 1#32 <<< i })

/-- The vector `v` has been reserved or handed out. -/
def taken (a : VectorAllocator) (v : ℕ) : Bool := a.used.getLsbD (v - a.start)

variable {a b : VectorAllocator} {v w i : ℕ}

theorem and_bit_eq_zero (used : BitVec 32) (hi : i < 32) :
    (used &&& 1#32 <<< i == 0#32) = !used.getLsbD i := by
  have h : used &&& 1#32 <<< i = if used.getLsbD i then 1#32 <<< i else 0#32 :=
    BitVec.and_twoPow used i
  cases hbit : used.getLsbD i with
  | false =>
    rw [h, hbit]
    rfl
  | true =>
    have hne : (1#32 <<< i : BitVec 32) ≠ 0#32 := by
      intro h0
      have := congrArg (fun x => x.getLsbD i) h0
      simp [hi] at this
    rw [h, hbit]
    simpa using hne

theorem getLsbD_or_bit (used : BitVec 32) (hi : i < 32) (j : ℕ) :
    (used ||| 1#32 <<< i).getLsbD j = (used.getLsbD j || decide (j = i)) := by
  rw [BitVec.getLsbD_or]
  congr 1
  have h : (1#32 <<< i : BitVec 32) = BitVec.twoPow 32 i := rfl
  rw [h, BitVec.getLsbD_twoPow]
  by_cases hji : i = j
  · simp [hji, hji ▸ hi]
  · simp [hji, Ne.symm hji]

theorem lt_of_lt_span (a : VectorAllocator) (hi : i < a.span) : i < 32 := by
  have := a.fits
  unfold span at hi
  omega

/-- `allocate` returns the first free vector and marks it. -/
theorem allocate_eq_some_iff : a.allocate = some (v, b) ↔ ∃ i < a.span,
    v = a.start + i ∧ a.taken v = false ∧ (∀ j < i, a.taken (a.start + j) = true) ∧
      b = { a with used := a.used ||| 1#32 <<< i } := by
  have htaken : ∀ j, a.taken (a.start + j) = a.used.getLsbD j := fun j => by
    rw [taken, Nat.add_sub_cancel_left]
  unfold allocate
  rw [Option.map_eq_some_iff]
  constructor
  · rintro ⟨i, hfind, heq⟩
    rw [List.find?_range_eq_some] at hfind
    obtain ⟨hfree, hmem, hbefore⟩ := hfind
    have hlt := List.mem_range.mp hmem
    obtain ⟨rfl, rfl⟩ := Prod.mk.inj heq
    refine ⟨i, hlt, rfl, ?_, fun j hj => ?_, rfl⟩
    · rw [and_bit_eq_zero _ (a.lt_of_lt_span hlt)] at hfree
      rw [htaken]
      simpa using hfree
    · have := hbefore j hj
      rw [and_bit_eq_zero _ (a.lt_of_lt_span (by omega))] at this
      rw [htaken]
      simpa using this
  · rintro ⟨i, hlt, rfl, hfree, hbefore, rfl⟩
    refine ⟨i, ?_, rfl⟩
    rw [List.find?_range_eq_some]
    refine ⟨?_, List.mem_range.mpr hlt, fun j hj => ?_⟩
    · rw [htaken] at hfree
      rw [and_bit_eq_zero _ (a.lt_of_lt_span hlt), hfree]
      rfl
    · have := hbefore j hj
      rw [htaken] at this
      rw [and_bit_eq_zero _ (a.lt_of_lt_span (by omega)), this]
      rfl

/-- A vector that is handed out was free. -/
theorem not_taken_of_allocate (h : a.allocate = some (v, b)) : a.taken v = false := by
  obtain ⟨i, -, -, hfree, -⟩ := allocate_eq_some_iff.mp h
  exact hfree

/-- What is taken stays taken. -/
theorem taken_of_allocate (h : a.allocate = some (v, b)) (hw : a.taken w = true) :
    b.taken w = true := by
  obtain ⟨i, hlt, -, -, -, rfl⟩ := allocate_eq_some_iff.mp h
  unfold taken at *
  rw [getLsbD_or_bit _ (a.lt_of_lt_span hlt), hw, Bool.true_or]

/-! ### Reservations -/

theorem taken_reserve (a : VectorAllocator) (h : a.start ≤ v ∧ v ≤ a.stop) :
    (a.reserve v).taken v = true := by
  have hlt : v - a.start < 32 := by
    have := a.fits
    omega
  unfold reserve taken
  rw [if_pos h, getLsbD_or_bit _ hlt, decide_eq_true rfl, Bool.or_true]

theorem taken_reserve_of_taken (a : VectorAllocator) (v : ℕ) (hw : a.taken w = true) :
    (a.reserve v).taken w = true := by
  unfold reserve
  by_cases h : a.start ≤ v ∧ v ≤ a.stop
  · have hlt : v - a.start < 32 := by
      have := a.fits
      omega
    unfold taken at *
    rw [if_pos h, getLsbD_or_bit _ hlt, hw, Bool.true_or]
  · rw [if_neg h]
    exact hw

theorem range_reserve (a : VectorAllocator) (v : ℕ) :
    (a.reserve v).start = a.start ∧ (a.reserve v).stop = a.stop := by
  unfold reserve
  split
  · exact ⟨rfl, rfl⟩
  · exact ⟨rfl, rfl⟩

theorem taken_foldl_reserve {reserved : List ℕ} (hw : a.taken w = true) :
    (reserved.foldl reserve a).taken w = true := by
  induction reserved generalizing a with
  | nil => exact hw
  | cons v reserved ih => exact ih (taken_reserve_of_taken a v hw)

theorem taken_foldl_of_mem {reserved : List ℕ} (hv : v ∈ reserved)
    (hrange : a.start ≤ v ∧ v ≤ a.stop) : (reserved.foldl reserve a).taken v = true := by
  induction reserved generalizing a with
  | nil => exact absurd hv List.not_mem_nil
  | cons w reserved ih =>
    rcases List.mem_cons.mp hv with rfl | hmem
    · rw [List.foldl_cons]
      exact taken_foldl_reserve (taken_reserve a hrange)
    · refine ih hmem ?_
      rw [(range_reserve a w).1, (range_reserve a w).2]
      exact hrange

/-- Every reserved vector in range is taken from the start. -/
theorem taken_new {start stop : ℕ} {reserved : List ℕ} (h : new start stop reserved = some a)
    (hv : v ∈ reserved) (hrange : start ≤ v ∧ v ≤ stop) : a.taken v = true := by
  unfold new at h
  split at h
  · obtain rfl := Option.some.inj h
    exact taken_foldl_of_mem hv hrange
  · exact absurd h (by simp)

/-! ### The free vectors -/

/-- The offsets of the free vectors, in order. -/
def free (a : VectorAllocator) : List ℕ := (List.range a.span).filter fun i => !a.used.getLsbD i

theorem nodup_free (a : VectorAllocator) : a.free.Nodup := List.nodup_range.filter _

theorem head?_free (a : VectorAllocator) :
    a.free.head? = (List.range a.span).find? fun i => a.used &&& 1#32 <<< i == 0#32 := by
  rw [← List.head?_filter, free]
  refine congrArg List.head? (List.filter_congr fun i hi => ?_)
  rw [and_bit_eq_zero _ (a.lt_of_lt_span (List.mem_range.mp hi))]

theorem allocate_of_free_nil (h : a.free = []) : a.allocate = none := by
  rw [allocate, ← head?_free, h]
  rfl

/-- `allocate` takes the first of the free vectors. -/
theorem allocate_of_free_cons {rest : List ℕ} (h : a.free = i :: rest) :
    ∃ b, a.allocate = some (a.start + i, b) ∧ b.used = a.used ||| 1#32 <<< i ∧
      b.start = a.start ∧ b.stop = a.stop ∧ b.free = rest := by
  refine ⟨{ a with used := a.used ||| 1#32 <<< i }, ?_, rfl, rfl, rfl, ?_⟩
  · rw [allocate, ← head?_free, h]
    rfl
  · have hi : i < a.span := by
      have hmem : i ∈ a.free := h ▸ List.mem_cons_self
      exact List.mem_range.mp (List.mem_filter.mp hmem).1
    have hnodup := a.nodup_free
    rw [h, List.nodup_cons] at hnodup
    calc (List.range a.span).filter (fun j => !(a.used ||| 1#32 <<< i).getLsbD j)
        = (List.range a.span).filter (fun j => decide (j ≠ i) && !a.used.getLsbD j) := by
          refine List.filter_congr fun j _ => ?_
          rw [getLsbD_or_bit _ (a.lt_of_lt_span hi)]
          by_cases hji : j = i
          · simp [hji]
          · simp [hji]
      _ = a.free.filter (fun j => decide (j ≠ i)) := by rw [free, List.filter_filter]
      _ = rest := by
          rw [h, List.filter_cons_of_neg (by simp)]
          refine List.filter_eq_self.mpr fun j hj => ?_
          exact decide_eq_true fun hji => hnodup.1 (hji ▸ hj)

/-- A bit is set exactly if it was or its vector is reserved. -/
theorem getLsbD_reserve (a : VectorAllocator) (v : ℕ) (hi : i < a.span) :
    (a.reserve v).used.getLsbD i = (a.used.getLsbD i || decide (v = a.start + i)) := by
  have hspan : a.start + i ≤ a.stop := by
    have := a.nonempty
    unfold span at hi
    omega
  unfold reserve
  by_cases h : a.start ≤ v ∧ v ≤ a.stop
  · have hlt : v - a.start < 32 := by
      have := a.fits
      omega
    have heq : i = v - a.start ↔ v = a.start + i := by omega
    rw [if_pos h, getLsbD_or_bit _ hlt, decide_eq_decide.mpr heq]
  · rw [if_neg h, decide_eq_false (by omega), Bool.or_false]

theorem getLsbD_foldl_reserve {reserved : List ℕ} (hi : i < a.span) :
    (reserved.foldl reserve a).used.getLsbD i =
      (a.used.getLsbD i || decide (a.start + i ∈ reserved)) := by
  induction reserved generalizing a with
  | nil => simp
  | cons v reserved ih =>
    obtain ⟨hstart, hstop⟩ := range_reserve a v
    have hspan : i < (a.reserve v).span := by
      rw [span, hstart, hstop]
      exact hi
    rw [List.foldl_cons, ih hspan, getLsbD_reserve a v hi, hstart, Bool.or_assoc]
    congr 1
    by_cases hv : v = a.start + i
    · simp [hv]
    · simp [hv, Ne.symm hv]

theorem range_foldl_reserve {reserved : List ℕ} :
    (reserved.foldl reserve a).start = a.start ∧ (reserved.foldl reserve a).stop = a.stop := by
  induction reserved generalizing a with
  | nil => exact ⟨rfl, rfl⟩
  | cons v reserved ih =>
    rw [List.foldl_cons, ih.1, ih.2]
    exact range_reserve a v

/-- Free from the start are the vectors in range that are not reserved. -/
theorem free_new {start stop : ℕ} {reserved : List ℕ} (h : new start stop reserved = some a) :
    a.start = start ∧ a.stop = stop ∧
      a.free = (List.range (stop - start + 1)).filter fun i => decide (start + i ∉ reserved) := by
  unfold new at h
  split at h
  · rename_i hrange
    obtain rfl := Option.some.inj h
    refine ⟨range_foldl_reserve.1, range_foldl_reserve.2, ?_⟩
    rw [free, span, range_foldl_reserve.1, range_foldl_reserve.2]
    refine List.filter_congr fun i hi => ?_
    rw [getLsbD_foldl_reserve (List.mem_range.mp hi)]
    simp
  · exact absurd h (by simp)

end VectorAllocator

end Boot
