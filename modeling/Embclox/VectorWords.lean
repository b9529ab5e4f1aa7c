/-
The vector allocator in machine words.

`VectorAllocator` keeps the ends of its range in a `u8` each and its bitmap in a `u32`.
Here every sum, difference and shift is checked and a result that does not fit is a
fault, as in a build with overflow checks.

* `Refines` — the words stand for the allocator of `VectorAlloc`;
* `new_refines`, `Refines.allocate_simulates`, `Refines.freeCount_eq` — the operations
  agree with it and never overflow;
* `allocations_exact` — the vectors handed out are those of the range that are not
  reserved, in order, and then none; `free_count` is the number still to come.
-/
import Embclox.Bits
import Embclox.VectorAlloc

namespace VectorWords

open Boot

inductive Fault
  | assertion
  | overflow
  deriving DecidableEq

/-! ### Checked arithmetic -/

def addU8 (a b : UInt8) : Except Fault UInt8 :=
  if a.toNat + b.toNat < 256 then .ok (a + b) else .error .overflow

def subU8 (a b : UInt8) : Except Fault UInt8 :=
  if b ≤ a then .ok (a - b) else .error .overflow

/-- `1 << i` in a `u32`. -/
def bit (i : ℕ) : Except Fault (BitVec 32) :=
  if i < 32 then .ok (1#32 <<< i) else .error .overflow

def subU32 (a b : BitVec 32) : Except Fault (BitVec 32) :=
  if b ≤ a then .ok (a - b) else .error .overflow

/-! ### The allocator -/

structure VectorAllocator where
  used : BitVec 32
  start : UInt8
  stop : UInt8

namespace VectorAllocator

/-- Mark a reserved vector. -/
def reserve (start stop : UInt8) (used : BitVec 32) (v : UInt8) : Except Fault (BitVec 32) :=
  if start ≤ v ∧ v ≤ stop then do
    let i ← subU8 v start
    let b ← bit i.toNat
    .ok (used ||| b)
  else .ok used

def new (start stop : UInt8) (reserved : List UInt8) : Except Fault VectorAllocator :=
  if start < 32 then .error .assertion
  else if stop < start then .error .assertion
  else do
    let width ← subU8 stop start
    if width < 32 then
      let used ← reserved.foldlM (reserve start stop) 0#32
      .ok ⟨used, start, stop⟩
    else .error .assertion

/-- `end - start + 1` in a `u8`. -/
def span (m : VectorAllocator) : Except Fault ℕ := do
  let width ← subU8 m.stop m.start
  let span ← addU8 width 1
  .ok span.toNat

/-- The loop of `allocate` from bit `i` on, with `n` bits left. -/
def allocateFrom (m : VectorAllocator) : ℕ → ℕ → Except Fault (Option UInt8 × VectorAllocator)
  | 0, _ => .ok (none, m)
  | n + 1, i => do
      let b ← bit i
      if m.used &&& b == 0#32 then
        let v ← addU8 m.start (UInt8.ofNat i)
        .ok (some v, { m with used := m.used ||| b })
      else m.allocateFrom n (i + 1)

def allocate (m : VectorAllocator) : Except Fault (Option UInt8 × VectorAllocator) := do
  let span ← m.span
  m.allocateFrom span 0

/-- The mask of `free_count`. -/
def spanMask (span : ℕ) : Except Fault (BitVec 32) :=
  if span = 32 then .ok (BitVec.allOnes 32) else do
    let top ← bit span
    subU32 top 1#32

def freeCount (m : VectorAllocator) : Except Fault ℕ := do
  let span ← m.span
  let mask ← spanMask span
  .ok (~~~m.used &&& mask).cpop.toNat

/-- The results of `n` calls of `allocate`. -/
def allocations (m : VectorAllocator) : ℕ → Except Fault (List (Option UInt8) × VectorAllocator)
  | 0 => .ok ([], m)
  | n + 1 => do
      let (v, m) ← m.allocate
      let (vs, m) ← m.allocations n
      .ok (v :: vs, m)

end VectorAllocator

/-! ### The words stand for the allocator -/

structure Refines (m : VectorAllocator) (a : Boot.VectorAllocator) : Prop where
  used : m.used = a.used
  start : m.start.toNat = a.start
  stop : m.stop.toNat = a.stop

section

variable {m : VectorAllocator} {a : Boot.VectorAllocator} {start stop : UInt8}

theorem subU8_of_le {x y : UInt8} (h : y.toNat ≤ x.toNat) :
    ∃ d, subU8 x y = .ok d ∧ d.toNat = x.toNat - y.toNat := by
  have hle : y ≤ x := UInt8.le_iff_toNat_le.mpr h
  exact ⟨x - y, if_pos hle, UInt8.toNat_sub_of_le _ _ hle⟩

theorem addU8_of_lt {x y : UInt8} (h : x.toNat + y.toNat < 256) :
    ∃ s, addU8 x y = .ok s ∧ s.toNat = x.toNat + y.toNat := by
  refine ⟨x + y, if_pos h, ?_⟩
  rw [UInt8.toNat_add, Nat.mod_eq_of_lt h]

theorem bit_of_lt {i : ℕ} (h : i < 32) : bit i = .ok (1#32 <<< i) := if_pos h

theorem Refines.span_eq (h : Refines m a) : m.span = .ok a.span := by
  have hle := a.nonempty
  have hfits := a.fits
  have hone : (1 : UInt8).toNat = 1 := rfl
  obtain ⟨d, hd, hdval⟩ : ∃ d, subU8 m.stop m.start = .ok d ∧ d.toNat = a.stop - a.start := by
    rw [← h.start, ← h.stop]
    exact subU8_of_le (by rw [h.start, h.stop]; exact hle)
  obtain ⟨s, hs, hsval⟩ : ∃ s, addU8 d 1 = .ok s ∧ s.toNat = d.toNat + 1 :=
    addU8_of_lt (by omega)
  unfold VectorAllocator.span
  rw [hd]
  show (addU8 d 1 >>= _) = _
  rw [hs]
  show Except.ok s.toNat = _
  rw [hsval, hdval, Boot.VectorAllocator.span]

/-! ### `allocate` -/

/-- The first free bit from `i` on decides the result. -/
theorem Refines.allocateFrom_eq (h : Refines m a) {n i : ℕ} (hn : i + n = a.span) :
    m.allocateFrom n i = .ok (((List.range' i n).find? fun j => a.used &&& 1#32 <<< j == 0#32).elim
      (none, m) fun j => (some (UInt8.ofNat (a.start + j)),
        { m with used := m.used ||| 1#32 <<< j })) := by
  induction n generalizing i with
  | zero => rfl
  | succ n ih =>
    have hi : i < 32 := a.lt_of_lt_span (by omega)
    rw [VectorAllocator.allocateFrom, bit_of_lt hi, List.range'_succ, List.find?_cons, h.used]
    show (if _ then _ else _) = _
    cases hfree : (a.used &&& 1#32 <<< i == 0#32) with
    | true =>
      -- the vector is at most `stop`
      have hle := a.nonempty
      have hstop : m.stop.toNat < 256 := m.stop.toNat_lt
      have hcast : (UInt8.ofNat i).toNat = i := by
        rw [UInt8.toNat_ofNat', Nat.mod_eq_of_lt (by omega)]
      have hstart := h.start
      rw [h.stop] at hstop
      unfold Boot.VectorAllocator.span at hn
      obtain ⟨v, hv, hval⟩ : ∃ v, addU8 m.start (UInt8.ofNat i) = .ok v ∧
          v.toNat = m.start.toNat + (UInt8.ofNat i).toNat := addU8_of_lt (by omega)
      rw [if_pos rfl, hv]
      have hv' : v = UInt8.ofNat (a.start + i) := by
        rw [← hstart, ← hcast, ← hval, UInt8.ofNat_toNat]
      rw [hv']
      rfl
    | false =>
      rw [if_neg Bool.false_ne_true]
      exact h.used ▸ ih (show i + 1 + n = a.span by omega)

theorem Refines.allocate_eq (h : Refines m a) :
    m.allocate = .ok (a.free.head?.elim (none, m) fun j => (some (UInt8.ofNat (a.start + j)),
      { m with used := m.used ||| 1#32 <<< j })) := by
  unfold VectorAllocator.allocate
  rw [h.span_eq, Boot.VectorAllocator.head?_free, List.range_eq_range']
  exact h.allocateFrom_eq (Nat.zero_add _)

theorem Refines.allocate_of_free_nil (h : Refines m a) (hfree : a.free = []) :
    m.allocate = .ok (none, m) := by
  rw [h.allocate_eq, hfree]
  rfl

/-- `allocate` returns the first of the free vectors. -/
theorem Refines.allocate_of_free_cons (h : Refines m a) {i : ℕ} {rest : List ℕ}
    (hfree : a.free = i :: rest) :
    ∃ m' a', m.allocate = .ok (some (UInt8.ofNat (a.start + i)), m') ∧
      a.allocate = some (a.start + i, a') ∧ Refines m' a' ∧ a'.start = a.start ∧
      a'.free = rest := by
  obtain ⟨a', hcall, hused, hstart, hstop, hrest⟩ :=
    Boot.VectorAllocator.allocate_of_free_cons hfree
  refine ⟨{ m with used := m.used ||| 1#32 <<< i }, a', ?_, hcall, ⟨?_, ?_, ?_⟩, hstart, hrest⟩
  · rw [h.allocate_eq, hfree]
    rfl
  · rw [hused, h.used]
  · rw [hstart]
    exact h.start
  · rw [hstop]
    exact h.stop

/-- **The words simulate the allocator**: both refuse, or both hand out the same vector and
stand for each other again. -/
theorem Refines.allocate_simulates (h : Refines m a) :
    m.allocate = .ok (none, m) ∧ a.allocate = none ∨
      ∃ v m' a', m.allocate = .ok (some (UInt8.ofNat v), m') ∧ a.allocate = some (v, a') ∧
        Refines m' a' := by
  cases hfree : a.free with
  | nil =>
    exact .inl ⟨h.allocate_of_free_nil hfree, Boot.VectorAllocator.allocate_of_free_nil hfree⟩
  | cons i rest =>
    obtain ⟨m', a', hm, ha, href, -, -⟩ := h.allocate_of_free_cons hfree
    exact .inr ⟨a.start + i, m', a', hm, ha, href⟩

/-- The results of `n` calls: the free vectors, and then none. -/
theorem Refines.allocations_eq (h : Refines m a) (n : ℕ) :
    ∃ m' a', m.allocations n = .ok
        ((a.free.take n).map (fun i => some (UInt8.ofNat (a.start + i))) ++
          List.replicate (n - a.free.length) none, m') ∧
      Refines m' a' ∧ a'.free = a.free.drop n := by
  induction n generalizing m a with
  | zero => exact ⟨m, a, by simp [VectorAllocator.allocations], h, rfl⟩
  | succ n ih =>
    rw [VectorAllocator.allocations]
    cases hfree : a.free with
    | nil =>
      obtain ⟨m', a', hcalls, href, hfree'⟩ := ih h
      rw [h.allocate_of_free_nil hfree]
      show ∃ m' a', (m.allocations n >>= _) = _ ∧ _
      rw [hcalls, hfree]
      refine ⟨m', a', ?_, href, by simp [hfree', hfree]⟩
      rw [List.take_nil, List.take_nil, List.length_nil, Nat.sub_zero, Nat.sub_zero,
        List.replicate_succ]
      rfl
    | cons i rest =>
      obtain ⟨m₁, a₁, hfirst, -, href₁, hstart, hrest⟩ := h.allocate_of_free_cons hfree
      obtain ⟨m', a', hcalls, href, hfree'⟩ := ih href₁
      rw [hfirst]
      show ∃ m' a', (m₁.allocations n >>= _) = _ ∧ _
      rw [hcalls, hstart, hrest]
      refine ⟨m', a', ?_, href, by simp [hfree', hrest]⟩
      rw [List.take_succ_cons, List.length_cons, Nat.add_sub_add_right]
      rfl

/-! ### `free_count` -/

/-- The mask has the bits of the range. -/
theorem spanMask_eq {k : ℕ} (hk : k ≤ 32) : ∃ mask, VectorAllocator.spanMask k = .ok mask ∧
    ∀ i < 32, mask.getLsbD i = decide (i < k) := by
  unfold VectorAllocator.spanMask
  by_cases h : k = 32
  · rw [if_pos h]
    refine ⟨_, rfl, fun i hi => ?_⟩
    rw [BitVec.getLsbD_allOnes, h]
  · have hlt : k < 32 := by omega
    have hle : 1#32 ≤ 1#32 <<< k := by
      have htop : (1#32 <<< k).toNat = 2 ^ k := BitVec.toNat_twoPow_of_lt hlt
      rw [BitVec.le_def, htop]
      exact Nat.one_le_two_pow
    rw [if_neg h, bit_of_lt hlt]
    exact ⟨_, if_pos hle, fun i _ => Bits.getLsbD_shiftLeft_sub_one hlt i⟩

theorem Refines.freeCount_eq (h : Refines m a) : m.freeCount = .ok a.free.length := by
  have hspan : a.span ≤ 32 := by
    have := a.fits
    unfold Boot.VectorAllocator.span
    omega
  obtain ⟨mask, hmask, hbits⟩ := spanMask_eq hspan
  unfold VectorAllocator.freeCount
  rw [h.span_eq]
  show (VectorAllocator.spanMask a.span >>= _) = _
  rw [hmask]
  show Except.ok (~~~m.used &&& mask).cpop.toNat = _
  rw [Bits.toNat_cpop, Boot.VectorAllocator.free, h.used]
  -- beyond the range the mask is clear
  have hsplit : List.range 32 = List.range a.span ++ List.range' a.span (32 - a.span) := by
    have happend : List.range' 0 a.span ++ List.range' (0 + a.span) (32 - a.span) =
        List.range' 0 (a.span + (32 - a.span)) := List.range'_append_1
    rw [List.range_eq_range', List.range_eq_range', ← Nat.add_sub_of_le hspan, ← happend,
      Nat.zero_add, Nat.add_sub_of_le hspan]
  have hin : (List.range a.span).filter (fun i => (~~~a.used &&& mask).getLsbD i) =
      (List.range a.span).filter fun i => !a.used.getLsbD i := by
    refine List.filter_congr fun i hi => ?_
    have hlt := List.mem_range.mp hi
    have h32 : i < 32 := by omega
    rw [BitVec.getLsbD_and, BitVec.getLsbD_not, hbits i h32, decide_eq_true h32,
      decide_eq_true hlt, Bool.true_and, Bool.and_true]
  have hout : (List.range' a.span (32 - a.span)).filter
      (fun i => (~~~a.used &&& mask).getLsbD i) = [] := by
    rw [List.filter_eq_nil_iff]
    intro i hi
    obtain ⟨hge, hlt⟩ := List.mem_range'_1.mp hi
    rw [BitVec.getLsbD_and, hbits i (by omega), decide_eq_false (by omega), Bool.and_false]
    exact Bool.false_ne_true
  rw [hsplit, List.filter_append, hin, hout, List.append_nil]

/-! ### `new` -/

/-- Marking the reserved vectors. -/
theorem foldlM_reserve {reserved : List UInt8} (hstart : start.toNat = a.start)
    (hstop : stop.toNat = a.stop) :
    reserved.foldlM (VectorAllocator.reserve start stop) a.used =
      .ok ((reserved.map UInt8.toNat).foldl Boot.VectorAllocator.reserve a).used := by
  induction reserved generalizing a with
  | nil => rfl
  | cons v reserved ih =>
    obtain ⟨hs, ht⟩ := Boot.VectorAllocator.range_reserve a v.toNat
    have hone : VectorAllocator.reserve start stop a.used v = .ok (a.reserve v.toNat).used := by
      unfold VectorAllocator.reserve Boot.VectorAllocator.reserve
      simp only [UInt8.le_iff_toNat_le, hstart, hstop]
      by_cases hrange : a.start ≤ v.toNat ∧ v.toNat ≤ a.stop
      · obtain ⟨d, hd, hval⟩ : ∃ d, subU8 v start = .ok d ∧ d.toNat = v.toNat - start.toNat :=
          subU8_of_le (by omega)
        have hfits := a.fits
        rw [if_pos hrange, if_pos hrange, hd]
        show (bit d.toNat >>= _) = _
        rw [bit_of_lt (by omega), hval, hstart]
        rfl
      · rw [if_neg hrange, if_neg hrange]
    rw [List.foldlM_cons, hone, List.map_cons, List.foldl_cons]
    exact ih (hstart.trans hs.symm) (hstop.trans ht.symm)

/-- On the ranges that the assertions accept, `new` returns an allocator. -/
theorem new_refines (reserved : List UInt8) (h32 : 32 ≤ start) (hle : start ≤ stop)
    (hfits : stop.toNat - start.toNat < 32) :
    ∃ m a, VectorAllocator.new start stop reserved = .ok m ∧ Refines m a ∧
      a.start = start.toNat ∧
      a.free = (List.range (stop.toNat - start.toNat + 1)).filter fun i =>
        decide (start.toNat + i ∉ reserved.map UInt8.toNat) := by
  have h32' : 32 ≤ start.toNat := UInt8.le_iff_toNat_le.mp h32
  have hle' : start.toNat ≤ stop.toNat := UInt8.le_iff_toNat_le.mp hle
  have hnew : Boot.VectorAllocator.new start.toNat stop.toNat (reserved.map UInt8.toNat) =
      some ((reserved.map UInt8.toNat).foldl Boot.VectorAllocator.reserve
        ⟨0#32, start.toNat, stop.toNat, h32', hle', hfits⟩) := dif_pos ⟨h32', hle', hfits⟩
  obtain ⟨hstart, hstop, hfree⟩ := Boot.VectorAllocator.free_new hnew
  obtain ⟨d, hd, hval⟩ := subU8_of_le hle'
  have hd32 : d < 32 := by
    rw [UInt8.lt_iff_toNat_lt, hval]
    exact hfits
  refine ⟨⟨_, start, stop⟩, _, ?_, ⟨rfl, hstart.symm, hstop.symm⟩, hstart, hfree⟩
  unfold VectorAllocator.new
  rw [if_neg (UInt8.not_lt.mpr h32), if_neg (UInt8.not_lt.mpr hle), hd]
  show (if d < 32 then _ else _) = _
  rw [if_pos hd32]
  have hfold : reserved.foldlM (VectorAllocator.reserve start stop) 0#32 =
      .ok ((reserved.map UInt8.toNat).foldl Boot.VectorAllocator.reserve
        ⟨0#32, start.toNat, stop.toNat, h32', hle', hfits⟩).used :=
    foldlM_reserve (a := ⟨0#32, start.toNat, stop.toNat, h32', hle', hfits⟩) rfl rfl
  rw [hfold]
  rfl

end

/-! ### The sequence of vectors -/

/-- The vectors from `start` to `stop` that are not reserved, in order. -/
def freeVectors (start stop : UInt8) (reserved : List UInt8) : List UInt8 :=
  ((List.range 256).map UInt8.ofNat).filter fun v =>
    decide (start ≤ v) && decide (v ≤ stop) && !reserved.contains v

/-- What is kept of a range lies between the bounds. -/
theorem filter_range_between (p : ℕ → Bool) {n lo hi : ℕ} (hle : lo ≤ hi) (hlt : hi < n) :
    (List.range n).filter (fun k => decide (lo ≤ k) && decide (k ≤ hi) && p k) =
      ((List.range (hi - lo + 1)).filter fun i => p (lo + i)).map (lo + ·) := by
  have hn : n = lo + ((hi - lo + 1) + (n - (hi + 1))) := by omega
  have hbelow : (List.range lo).filter
      (fun k => decide (lo ≤ k) && decide (k ≤ hi) && p k) = [] := by
    rw [List.filter_eq_nil_iff]
    intro k hk
    have := List.mem_range.mp hk
    simp [Nat.not_le.mpr this]
  have habove : (((List.range (n - (hi + 1))).map (hi - lo + 1 + ·)).map (lo + ·)).filter
      (fun k => decide (lo ≤ k) && decide (k ≤ hi) && p k) = [] := by
    rw [List.filter_eq_nil_iff]
    intro k hk
    rw [List.map_map] at hk
    obtain ⟨i, -, rfl⟩ := List.mem_map.mp hk
    have hgt : ¬ lo + (hi - lo + 1 + i) ≤ hi := by omega
    simp [hgt]
  rw [hn, List.range_add, List.range_add, List.map_append, List.filter_append,
    List.filter_append, hbelow, habove, List.append_nil, List.nil_append, List.filter_map]
  refine congrArg _ (List.filter_congr fun i hi' => ?_)
  have hi'' := List.mem_range.mp hi'
  simp only [Function.comp_apply]
  rw [decide_eq_true (by omega), decide_eq_true (by omega), Bool.true_and, Bool.true_and]

theorem freeVectors_eq {start stop : UInt8} (reserved : List UInt8) (hle : start ≤ stop) :
    freeVectors start stop reserved =
      ((List.range (stop.toNat - start.toNat + 1)).filter fun i =>
        decide (start.toNat + i ∉ reserved.map UInt8.toNat)).map fun i =>
          UInt8.ofNat (start.toNat + i) := by
  have hval : ∀ k < 256, (UInt8.ofNat k).toNat = k := fun k hk => by
    rw [UInt8.toNat_ofNat', Nat.mod_eq_of_lt hk]
  have hmem : ∀ k < 256, reserved.contains (UInt8.ofNat k) =
      decide (k ∈ reserved.map UInt8.toNat) := by
    intro k hk
    rw [List.contains_eq_mem]
    refine decide_eq_decide.mpr ⟨fun h => ?_, fun h => ?_⟩
    · exact List.mem_map.mpr ⟨_, h, hval k hk⟩
    · obtain ⟨v, hv, rfl⟩ := List.mem_map.mp h
      rwa [UInt8.ofNat_toNat]
  rw [freeVectors, List.filter_map]
  have hfilter : (List.range 256).filter ((fun v => decide (start ≤ v) && decide (v ≤ stop) &&
      !reserved.contains v) ∘ UInt8.ofNat) = (List.range 256).filter fun k =>
        decide (start.toNat ≤ k) && decide (k ≤ stop.toNat) &&
          decide (k ∉ reserved.map UInt8.toNat) := by
    refine List.filter_congr fun k hk => ?_
    have hk' := List.mem_range.mp hk
    simp only [Function.comp_apply, UInt8.le_iff_toNat_le, hval k hk', hmem k hk', decide_not]
  rw [hfilter, filter_range_between _ (UInt8.le_iff_toNat_le.mp hle) stop.toNat_lt, List.map_map]
  rfl

/-- **The vectors are handed out in order, each once, and then none.**  For every range
that `new` accepts and every list of reserved vectors nothing overflows, the results of
any number of calls are the vectors of the range that are not reserved, in order,
followed by `None`, and `free_count` is the number of vectors still to come. -/
theorem allocations_exact (start stop : UInt8) (reserved : List UInt8)
    (h : 32 ≤ start ∧ start ≤ stop ∧ stop.toNat - start.toNat < 32) :
    ∃ m, VectorAllocator.new start stop reserved = .ok m ∧ ∀ n, ∃ m',
      m.allocations n = .ok (((freeVectors start stop reserved).take n).map some ++
        List.replicate (n - (freeVectors start stop reserved).length) none, m') ∧
      m'.freeCount = .ok ((freeVectors start stop reserved).length - n) := by
  obtain ⟨h32, hle, hfits⟩ := h
  obtain ⟨m, a, hnew, href, hstart, hfree⟩ := new_refines reserved h32 hle hfits
  refine ⟨m, hnew, fun n => ?_⟩
  obtain ⟨m', a', hcalls, href', hrest⟩ := href.allocations_eq n
  refine ⟨m', ?_, ?_⟩
  · rw [hcalls, freeVectors_eq reserved hle, ← hfree, hstart, List.length_map, ← List.map_take,
      List.map_map]
    rfl
  · rw [href'.freeCount_eq, hrest, List.length_drop, freeVectors_eq reserved hle, ← hfree,
      List.length_map]

/-- The range of the kernel, with the spurious vector and one out of range reserved. -/
theorem allocations_exact_default : ∃ m, VectorAllocator.new 33 47 [39, 32, 39] = .ok m ∧
    ∃ m', m.allocations 16 = .ok (([33, 34, 35, 36, 37, 38, 40, 41, 42, 43, 44, 45, 46, 47].map
      some) ++ [none, none], m') ∧ m'.freeCount = .ok 0 := by
  obtain ⟨m, hm, hcalls⟩ := allocations_exact 33 47 [39, 32, 39] (by decide)
  obtain ⟨m', hm', hcount⟩ := hcalls 16
  exact ⟨m, hm, m', hm', hcount⟩

end VectorWords
