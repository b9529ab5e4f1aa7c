/-
Flat memory: reading and writing runs of cells.

A region of memory is a function `m : ℕ → α` from offsets to cells.
`read m off n` is the list of the `n` cells from `off` on and `write m off xs`
stores `xs` from `off` on; every other cell stays as it is.

* `read_write` — what was written is read back;
* `read_write_of_disjoint` — a write elsewhere changes nothing; `read_write_block` is
  the same for the blocks of an array;
* `move m src dst n` — copy a run of cells downwards one by one; `read_move` says that
  all of it arrives even if the two runs overlap.
-/
import Mathlib.Data.List.Basic
import Mathlib.Tactic.Common

namespace Memory

variable {α : Type*}

/-- The `n` cells from `off` on. -/
def read (m : ℕ → α) (off n : ℕ) : List α := (List.range n).map fun k => m (off + k)

/-- Store `xs` from `off` on. -/
def write (m : ℕ → α) (off : ℕ) (xs : List α) : ℕ → α :=
  fun i => if off ≤ i then (xs[i - off]?).getD (m i) else m i

@[simp] theorem length_read (m : ℕ → α) (off n : ℕ) : (read m off n).length = n := by
  simp [read]

theorem getElem_read {m : ℕ → α} {off n k : ℕ} (hk : k < (read m off n).length) :
    (read m off n)[k] = m (off + k) := by
  simp [read]

theorem read_congr {m m' : ℕ → α} {off n : ℕ} (h : ∀ k < n, m (off + k) = m' (off + k)) :
    read m off n = read m' off n :=
  List.map_congr_left fun k hk => h k (List.mem_range.mp hk)

theorem eq_of_read {m m' : ℕ → α} {off n k : ℕ} (h : read m off n = read m' off n) (hk : k < n) :
    m (off + k) = m' (off + k) :=
  List.map_inj_left.mp h k (List.mem_range.mpr hk)

theorem take_read {m : ℕ → α} {off n k : ℕ} (h : k ≤ n) :
    (read m off n).take k = read m off k := by
  rw [read, ← List.map_take, List.take_range, Nat.min_eq_left h, read]

/-- A cell outside the run that is written keeps its value. -/
theorem write_of_outside (m : ℕ → α) {off i : ℕ} {xs : List α}
    (h : i < off ∨ off + xs.length ≤ i) : write m off xs i = m i := by
  unfold write
  by_cases hle : off ≤ i
  · rw [if_pos hle, List.getElem?_eq_none (by omega), Option.getD_none]
  · rw [if_neg hle]

/-- A cell of the run that is written. -/
theorem write_add (m : ℕ → α) (off : ℕ) {xs : List α} {k : ℕ} (hk : k < xs.length) :
    write m off xs (off + k) = xs[k] := by
  unfold write
  rw [if_pos (Nat.le_add_right off k), Nat.add_sub_cancel_left, List.getElem?_eq_getElem hk,
    Option.getD_some]

theorem write_nil (m : ℕ → α) (off : ℕ) : write m off [] = m :=
  funext fun _ => write_of_outside m (by simp only [List.length_nil]; omega)

theorem read_write (m : ℕ → α) (off : ℕ) (xs : List α) :
    read (write m off xs) off xs.length = xs := by
  apply List.ext_getElem
  · simp
  · intro k _ hk
    rw [getElem_read]
    simp [write, List.getElem?_eq_getElem hk]

theorem read_write_of_disjoint (m : ℕ → α) {off off' n : ℕ} {xs : List α}
    (h : off' + n ≤ off ∨ off + xs.length ≤ off') :
    read (write m off xs) off' n = read m off' n :=
  read_congr fun k hk => write_of_outside m (by omega)

/-- A write into the block `i` leaves the block `j` alone. -/
theorem read_write_block (m : ℕ → α) {size i j n : ℕ} {xs : List α} (hij : j ≠ i)
    (hn : n ≤ size) (hlen : xs.length ≤ size) :
    read (write m (i * size) xs) (j * size) n = read m (j * size) n := by
  refine read_write_of_disjoint m ?_
  rcases Nat.lt_or_gt_of_ne hij with h | h
  · have := Nat.mul_le_mul_right size (Nat.succ_le_of_lt h)
    rw [Nat.succ_mul] at this
    omega
  · have := Nat.mul_le_mul_right size (Nat.succ_le_of_lt h)
    rw [Nat.succ_mul] at this
    omega

/-! ### Moves -/

/-- Copy the `n` cells from `src` on to `dst`, one after the other, lowest first. -/
def move (m : ℕ → α) (src dst : ℕ) : ℕ → ℕ → α
  | 0 => m
  | n + 1 => fun i => if i = dst + n then move m src dst n (src + n) else move m src dst n i

/-- A move downwards never reads a cell that it has written. -/
theorem move_apply (m : ℕ → α) {src dst : ℕ} (h : dst ≤ src) (n i : ℕ) :
    move m src dst n i = if dst ≤ i ∧ i < dst + n then m (src + (i - dst)) else m i := by
  induction n generalizing i with
  | zero => rw [move, if_neg (by omega)]
  | succ n ih =>
    simp only [move]
    by_cases hi : i = dst + n
    · rw [if_pos hi, ih, if_neg (by omega), if_pos (by omega), hi, Nat.add_sub_cancel_left]
    · rw [if_neg hi, ih]
      by_cases hin : dst ≤ i ∧ i < dst + n
      · rw [if_pos hin, if_pos (by omega)]
      · rw [if_neg hin, if_neg (by omega)]

/-- **What was moved is read back**, even if the two runs overlap. -/
theorem read_move (m : ℕ → α) {src dst : ℕ} (h : dst ≤ src) (n : ℕ) :
    read (move m src dst n) dst n = read m src n := by
  refine List.map_congr_left fun k hk => ?_
  have hlt := List.mem_range.mp hk
  rw [move_apply m h, if_pos (by omega), Nat.add_sub_cancel_left]

theorem drop_read (m : ℕ → α) (off k n : ℕ) :
    (read m off (k + n)).drop k = read m (off + k) n := by
  unfold read
  rw [List.range_add, List.map_append, List.drop_left' (by simp), List.map_map]
  refine List.map_congr_left fun i _ => ?_
  simp only [Function.comp_apply, Nat.add_assoc]

end Memory
