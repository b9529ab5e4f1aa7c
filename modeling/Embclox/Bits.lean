/-
Bits of machine words.

* `getLsbD_and_sub_one` — `w & (w - 1)` clears the lowest set bit of `w`, which is
  how a loop walks the set bits of a word;
* `and_sub_one_lt` — the loop terminates;
* `setBits_eq_cons` — it visits the set bits in increasing order;
* `toNat_cpop` — the population count is the number of set bits;
* `or_and_distrib`, `and_and_eq_zero` — what a mask sees of a word built from fields.
-/
import Mathlib.Data.Nat.Bitwise
import Mathlib.Tactic.Ring

namespace Bits

theorem testBit_and_sub_one {n k : ℕ} (hlow : ∀ i < k, n.testBit i = false)
    (hk : n.testBit k = true) (i : ℕ) :
    (n &&& (n - 1)).testBit i = (n.testBit i && decide (i ≠ k)) := by
  -- `n = 2 ^ k * (2 * m + 1)`, so `n - 1` has the bits above `k` and all those below
  obtain ⟨m, hm⟩ : ∃ m, n = 2 ^ k * (2 * m) + 2 ^ k := by
    have hmod : n % 2 ^ k = 0 := by
      apply Nat.eq_of_testBit_eq
      intro i
      rw [Nat.testBit_mod_two_pow, Nat.zero_testBit]
      by_cases hi : i < k
      · simp [hlow i hi]
      · simp [hi]
    rw [Nat.testBit_eq_decide_div_mod_eq, decide_eq_true_eq] at hk
    refine ⟨n / 2 ^ k / 2, ?_⟩
    have h1 := Nat.div_add_mod n (2 ^ k)
    have h2 := Nat.div_add_mod (n / 2 ^ k) 2
    rw [hk] at h2
    calc n = 2 ^ k * (n / 2 ^ k) := by omega
      _ = 2 ^ k * (2 * (n / 2 ^ k / 2) + 1) := by rw [h2]
      _ = _ := by rw [Nat.mul_add, Nat.mul_one]
  have hpos : 0 < 2 ^ k := Nat.two_pow_pos k
  have hpred : n - 1 = 2 ^ k * (2 * m) + (2 ^ k - 1) := by omega
  have hbits : n.testBit i = if i < k then false else (2 * m + 1).testBit (i - k) := by
    have : n = 2 ^ k * (2 * m + 1) + 0 := by rw [hm, Nat.mul_add, Nat.mul_one]; rfl
    rw [this, Nat.testBit_two_pow_mul_add _ hpos, Nat.zero_testBit]
  rw [Nat.testBit_and, hpred, Nat.testBit_two_pow_mul_add _ (by omega), hbits]
  by_cases hi : i < k
  · simp [hi]
  · rcases Nat.lt_or_ge k i with h | h
    · obtain ⟨d, rfl⟩ : ∃ d, i = k + (d + 1) := ⟨i - k - 1, by omega⟩
      have hsub : k + (d + 1) - k = d + 1 := by omega
      simp only [if_neg hi, hsub, Nat.testBit_succ]
      have : (2 * m + 1) / 2 = m ∧ 2 * m / 2 = m := by omega
      rw [this.1, this.2]
      simp
    · obtain rfl : i = k := by omega
      simp [Nat.testBit_zero]

/-- `w & (w - 1)` is `w` without its lowest set bit. -/
theorem getLsbD_and_sub_one {n : ℕ} (w : BitVec n) (i : ℕ) :
    (w &&& (w - 1#n)).getLsbD i = (w.getLsbD i && decide (i ≠ w.ctz.toNat)) := by
  by_cases hw : w = 0#n
  · subst hw
    simp
  · have hpos : 0 < w.toNat := by
      rcases Nat.eq_zero_or_pos w.toNat with h | h
      · exact absurd (BitVec.eq_of_toNat_eq (by simpa using h)) hw
      · exact h
    have hone : (1#n).toNat = 1 := by
      rw [BitVec.toNat_ofNat, Nat.mod_eq_of_lt (by have := w.isLt; omega)]
    have hsub : (w - 1#n).toNat = w.toNat - 1 := by
      rw [BitVec.toNat_sub_of_le (by rw [BitVec.le_def]; omega), hone]
    have hlow : ∀ i < w.ctz.toNat, w.toNat.testBit i = false :=
      fun i hi => BitVec.getLsbD_false_of_lt_ctz hi
    rw [← BitVec.testBit_toNat, BitVec.toNat_and, hsub,
      testBit_and_sub_one hlow (BitVec.getLsbD_true_ctz_of_ne_zero hw), BitVec.testBit_toNat]

theorem and_sub_one_lt {n : ℕ} {w : BitVec n} (hw : w ≠ 0#n) :
    (w &&& (w - 1#n)).toNat < w.toNat := by
  rcases Nat.lt_or_ge (w &&& (w - 1#n)).toNat w.toNat with h | h
  · exact h
  · have heq : (w &&& (w - 1#n)) = w := by
      apply BitVec.eq_of_toNat_eq
      have : (w &&& (w - 1#n)).toNat ≤ w.toNat := by
        rw [BitVec.toNat_and]
        exact Nat.and_le_left
      omega
    have hbit := getLsbD_and_sub_one w w.ctz.toNat
    rw [heq, BitVec.getLsbD_true_ctz_of_ne_zero hw] at hbit
    simp at hbit

/-! ### Listing bits -/

/-- The positions of the set bits, in increasing order. -/
def setBits {n : ℕ} (w : BitVec n) : List ℕ := (List.range n).filter fun i => w.getLsbD i

theorem setBits_zero (n : ℕ) : setBits 0#n = [] := by
  simp [setBits]

/-- The first of the positions that satisfy `p` comes first. -/
theorem filter_range_eq_cons {n k : ℕ} {p q : ℕ → Bool} (hk : k < n)
    (hlow : ∀ i < k, p i = false) (hpk : p k = true)
    (hq : ∀ i, q i = (p i && decide (i ≠ k))) :
    (List.range n).filter p = k :: (List.range n).filter q := by
  obtain ⟨m, rfl⟩ : ∃ m, n = k + (1 + m) := ⟨n - k - 1, by omega⟩
  have hsplit : List.range (k + (1 + m)) = List.range k ++ k :: List.range' (k + 1) m := by
    rw [List.range_add, Nat.add_comm 1 m, List.range_succ_eq_map]
    simp [List.range'_eq_map_range, Nat.add_assoc, Nat.add_comm 1]
  have hlow' : ∀ r : ℕ → Bool, (∀ i < k, r i = false) → (List.range k).filter r = [] := by
    intro r hr
    rw [List.filter_eq_nil_iff]
    intro i hi
    simp [hr i (List.mem_range.mp hi)]
  have hqk : q k = false := by simp [hq]
  have hhigh : (List.range' (k + 1) m).filter p = (List.range' (k + 1) m).filter q := by
    refine List.filter_congr fun i hi => ?_
    have hne : i ≠ k := by
      have := List.mem_range'_1.mp hi
      omega
    simp [hq, hne]
  rw [hsplit, List.filter_append, List.filter_append, hlow' p hlow,
    hlow' q fun i hi => by simp [hq, hlow i hi], List.filter_cons_of_pos hpk,
    List.filter_cons_of_neg (by simp [hqk]), hhigh]
  rfl

/-- **Walking the set bits.**  `trailing_zeros` finds the first of them, and the others
are those of `w & (w - 1)`. -/
theorem setBits_eq_cons {n : ℕ} {w : BitVec n} (hw : w ≠ 0#n) :
    setBits w = w.ctz.toNat :: setBits (w &&& (w - 1#n)) := by
  have hbit := BitVec.getLsbD_true_ctz_of_ne_zero hw
  refine filter_range_eq_cons (BitVec.lt_of_getLsbD hbit) ?_ hbit (getLsbD_and_sub_one w)
  intro i hi
  exact BitVec.getLsbD_false_of_lt_ctz hi

/-- The numbers below `m * k`, in blocks of `k`. -/
theorem range_mul (m k : ℕ) :
    List.range (m * k) = (List.range m).flatMap fun i => (List.range k).map (i * k + ·) := by
  induction m with
  | zero => simp
  | succ m ih =>
    rw [Nat.succ_mul, List.range_add, ih, List.range_succ, List.flatMap_append]
    simp

/-! ### Counting bits -/

/-- The population count of the bits below `k`. -/
theorem cpopNatRec_eq {n : ℕ} (x : BitVec n) (k : ℕ) :
    x.cpopNatRec k 0 = ((List.range k).filter fun i => x.getLsbD i).length := by
  induction k with
  | zero => rfl
  | succ k ih =>
    rw [BitVec.cpopNatRec_succ, BitVec.cpopNatRec_add, ih, List.range_succ, List.filter_append,
      List.length_append]
    cases hbit : x.getLsbD k with
    | false => simp [hbit]
    | true => simp [hbit]

theorem toNat_cpop {n : ℕ} (x : BitVec n) :
    x.cpop.toNat = ((List.range n).filter fun i => x.getLsbD i).length := by
  rw [BitVec.toNat_cpop, cpopNatRec_eq]

/-- `(1 << k) - 1` has the bits below `k`. -/
theorem getLsbD_shiftLeft_sub_one {n k : ℕ} (hk : k < n) (i : ℕ) :
    (1#n <<< k - 1#n).getLsbD i = decide (i < k) := by
  have htop : (1#n <<< k).toNat = 2 ^ k := BitVec.toNat_twoPow_of_lt hk
  have hone : (1#n).toNat = 1 := BitVec.toNat_one (by omega)
  have hsub : (1#n <<< k - 1#n).toNat = 2 ^ k - 1 := by
    rw [BitVec.toNat_sub_of_le (by rw [BitVec.le_def, htop, hone]; exact Nat.one_le_two_pow), htop,
      hone]
  rw [← BitVec.testBit_toNat, hsub, Nat.testBit_two_pow_sub_one]

/-- Masking off the bits below `k` rounds down to a multiple of `2 ^ k`. -/
theorem toNat_and_not_low {n k : ℕ} (hk : k < n) (x : BitVec n) :
    (x &&& ~~~(1#n <<< k - 1#n)).toNat = x.toNat / 2 ^ k * 2 ^ k := by
  apply Nat.eq_of_testBit_eq
  intro i
  rw [BitVec.testBit_toNat, BitVec.getLsbD_and, BitVec.getLsbD_not,
    getLsbD_shiftLeft_sub_one hk, Nat.testBit_mul_two_pow, Nat.testBit_div_two_pow,
    BitVec.testBit_toNat]
  by_cases hi : i < k
  · simp [hi, Nat.not_le.mpr hi]
  · have hle : k ≤ i := Nat.not_lt.mp hi
    simp only [hi, decide_false, Bool.not_false, Bool.and_true, hle, decide_true, Bool.true_and,
      Nat.sub_add_cancel hle, Bool.and_eq_left_iff_imp, decide_eq_true_eq]
    exact BitVec.lt_of_getLsbD

/-- Setting the bits of `b` sets the bits of `b`. -/
theorem or_and_self (x b : UInt8) : (x ||| b) &&& b = b := by
  rw [← UInt8.toBitVec_inj, UInt8.toBitVec_and, UInt8.toBitVec_or]
  ext i
  rw [BitVec.getElem_and, BitVec.getElem_or]
  cases (b.toBitVec)[i] <;> simp

/-- Masking distributes over joining. -/
theorem or_and_distrib (a b m : UInt32) : (a ||| b) &&& m = (a &&& m) ||| (b &&& m) := by
  apply UInt32.eq_of_toBitVec_eq
  apply BitVec.eq_of_getLsbD_eq
  intro i _
  simp only [UInt32.toBitVec_or, UInt32.toBitVec_and, BitVec.getLsbD_or, BitVec.getLsbD_and]
  exact Bool.and_or_distrib_right _ _ _

/-- More bits do not clear one. -/
theorem or_and_ne_zero (b : UInt32) {a m : UInt32} (h : a &&& m ≠ 0) : (a ||| b) &&& m ≠ 0 := by
  rw [or_and_distrib]
  exact fun hz => h (UInt32.or_eq_zero_iff.mp hz).1

/-- Masks without a common bit. -/
theorem and_and_eq_zero (a : UInt32) {m m' : UInt32} (h : m &&& m' = 0) : a &&& m &&& m' = 0 := by
  rw [UInt32.and_assoc, h, UInt32.and_zero]

end Bits
