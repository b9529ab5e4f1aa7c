/-
Little-endian numbers in byte strings.

* `ofLe_toLe` — what `toLe` writes, `ofLe` reads;
* `u16At_le16`, `u32At_le32`, `u64At_le64` — a field written after `a` is read back
  at offset `a.length`, whatever follows it;
* `u32At_flatMap_le32`, `u64s_flatMap_le64` — so is a list of words.
-/
import Mathlib.Algebra.Group.Nat.Defs
import Mathlib.Data.List.Basic
import Mathlib.Tactic.Common

namespace Bytes

/-- The `k` low bytes of a number, lowest first. -/
def toLe : ℕ → ℕ → List UInt8
  | 0, _ => []
  | k + 1, n => UInt8.ofNat n :: toLe k (n / 256)

/-- The number a byte string stands for, lowest byte first. -/
def ofLe : List UInt8 → ℕ
  | [] => 0
  | b :: bs => b.toNat + 256 * ofLe bs

@[simp] theorem length_toLe (k n : ℕ) : (toLe k n).length = k := by
  induction k generalizing n with
  | zero => rfl
  | succ k ih => rw [toLe, List.length_cons, ih]

theorem ofLe_toLe (k n : ℕ) : ofLe (toLe k n) = n % 256 ^ k := by
  induction k generalizing n with
  | zero => rw [toLe, ofLe, Nat.pow_zero, Nat.mod_one]
  | succ k ih =>
    have hlow : (UInt8.ofNat n).toNat = n % 256 := UInt8.toNat_ofNat'
    rw [toLe, ofLe, ih, hlow, Nat.pow_succ', Nat.mod_mul]

/-! ### Machine words -/

def le16 (x : UInt16) : List UInt8 := toLe 2 x.toNat
def le32 (x : UInt32) : List UInt8 := toLe 4 x.toNat
def le64 (x : UInt64) : List UInt8 := toLe 8 x.toNat

/-- The word at offset `off`; a byte string that ends before is continued with
zeros. -/
def u16At (bs : List UInt8) (off : ℕ) : UInt16 := UInt16.ofNat (ofLe ((bs.drop off).take 2))
def u32At (bs : List UInt8) (off : ℕ) : UInt32 := UInt32.ofNat (ofLe ((bs.drop off).take 4))
def u64At (bs : List UInt8) (off : ℕ) : UInt64 := UInt64.ofNat (ofLe ((bs.drop off).take 8))

@[simp] theorem length_le16 (x : UInt16) : (le16 x).length = 2 := length_toLe 2 _
@[simp] theorem length_le32 (x : UInt32) : (le32 x).length = 4 := length_toLe 4 _
@[simp] theorem length_le64 (x : UInt64) : (le64 x).length = 8 := length_toLe 8 _

theorem take_drop_append {a x : List UInt8} (b : List UInt8) {off k : ℕ} (ha : a.length = off)
    (hx : x.length = k) : ((a ++ (x ++ b)).drop off).take k = x := by
  rw [List.drop_left' ha, List.take_left' hx]

theorem u16At_le16 {a b : List UInt8} {x : UInt16} {off : ℕ} (ha : a.length = off) :
    u16At (a ++ (le16 x ++ b)) off = x := by
  have hlt : x.toNat < 256 ^ 2 := x.toNat_lt
  rw [u16At, take_drop_append b ha (length_le16 x), le16, ofLe_toLe, Nat.mod_eq_of_lt hlt]
  exact UInt16.ofNat_toNat

theorem u32At_le32 {a b : List UInt8} {x : UInt32} {off : ℕ} (ha : a.length = off) :
    u32At (a ++ (le32 x ++ b)) off = x := by
  have hlt : x.toNat < 256 ^ 4 := x.toNat_lt
  rw [u32At, take_drop_append b ha (length_le32 x), le32, ofLe_toLe, Nat.mod_eq_of_lt hlt]
  exact UInt32.ofNat_toNat

theorem u64At_le64 {a b : List UInt8} {x : UInt64} {off : ℕ} (ha : a.length = off) :
    u64At (a ++ (le64 x ++ b)) off = x := by
  have hlt : x.toNat < 256 ^ 8 := x.toNat_lt
  rw [u64At, take_drop_append b ha (length_le64 x), le64, ofLe_toLe, Nat.mod_eq_of_lt hlt]
  exact UInt64.ofNat_toNat

/-- A field lies in the part of the string that is kept. -/
theorem u32At_take {bs : List UInt8} {off n : ℕ} (h : off + 4 ≤ n) :
    u32At (bs.take n) off = u32At bs off := by
  rw [u32At, u32At, List.drop_take, List.take_take, Nat.min_eq_left (by omega)]

theorem u32At_drop (bs : List UInt8) (n off : ℕ) : u32At (bs.drop n) off = u32At bs (n + off) := by
  rw [u32At, u32At, List.drop_drop]

theorem u32At_append (a b : List UInt8) (off : ℕ) :
    u32At (a ++ b) (a.length + off) = u32At b off := by
  rw [← u32At_drop, List.drop_left]

/-- The words of a message, one after the other. -/
theorem u32At_skip (x : UInt32) (rest : List UInt8) (off : ℕ) :
    u32At (le32 x ++ rest) (4 + off) = u32At rest off := by
  rw [← u32At_append (le32 x) rest off, length_le32]

theorem u32At_head (x : UInt32) (rest : List UInt8) : u32At (le32 x ++ rest) 0 = x :=
  u32At_le32 (a := []) rfl

/-! ### Lists of words -/

/-- The fields of a message that is written word by word. -/
theorem u32At_flatMap_le32 {ws : List UInt32} {x : UInt32} {i : ℕ} (h : ws[i]? = some x)
    (rest : List UInt8) : u32At (ws.flatMap le32 ++ rest) (4 * i) = x := by
  induction ws generalizing i with
  | nil => exact absurd h (by simp)
  | cons w ws ih =>
    rw [List.flatMap_cons, List.append_assoc]
    cases i with
    | zero =>
      obtain rfl := Option.some.inj h
      exact u32At_head w _
    | succ i =>
      rw [show 4 * (i + 1) = 4 + 4 * i by omega, u32At_skip]
      exact ih h

/-- The 64-bit words of a byte string, as many as there are. -/
def u64s (bs : List UInt8) : List UInt64 :=
  (List.range (bs.length / 8)).map fun i => u64At bs (8 * i)

theorem u64s_cons (x : UInt64) (rest : List UInt8) : u64s (le64 x ++ rest) = x :: u64s rest := by
  have hlen : (le64 x ++ rest).length / 8 = rest.length / 8 + 1 := by
    rw [List.length_append, length_le64]
    omega
  have hskip : ∀ i, u64At (le64 x ++ rest) (8 * (i + 1)) = u64At rest (8 * i) := by
    intro i
    rw [u64At, u64At, show 8 * (i + 1) = 8 + 8 * i by omega, ← List.drop_drop,
      List.drop_left' (length_le64 x)]
  rw [u64s, hlen, List.range_succ_eq_map, List.map_cons, List.map_map]
  refine congrArg₂ List.cons (u64At_le64 (a := []) rfl) ?_
  exact List.map_congr_left fun i _ => hskip i

/-- What was written word by word is read back. -/
theorem u64s_flatMap_le64 (xs : List UInt64) : u64s (xs.flatMap le64) = xs := by
  induction xs with
  | nil => rfl
  | cons x xs ih => rw [List.flatMap_cons, u64s_cons, ih]

end Bytes
