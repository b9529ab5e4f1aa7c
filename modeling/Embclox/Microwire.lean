/-
A Microwire EEPROM of 64 words, 93C46 style, seen from its pins.

While it is selected, the device samples its data input on every rising clock.  It
waits for a start bit, takes two opcode bits and, if they are `10`, six address bits,
highest first; from the next clock on it shows the addressed word, highest bit first.

* `State.clock` — one rising clock;
* `State.out` — the level of the data output, which is `idle` outside a word;
* `shown n st` — the number that `n` clocks with a low data input show;
* `shown_data`, `shown_address`, `shown_ignoring` — what it is in each state.
-/
import Mathlib.Algebra.Order.Ring.Nat
import Mathlib.Data.Nat.Bitwise
import Mathlib.Tactic.Ring

namespace Microwire

inductive State
  /-- No start bit yet. -/
  | standby
  /-- After the start bit, with the first opcode bit once it is there. -/
  | opcode (first : Option Bool)
  /-- The opcode was `10`; so many address bits are missing. -/
  | address (missing a : ℕ)
  /-- The word at `a` is shown; so many of its bits have been. -/
  | data (a bits : ℕ)
  /-- Another opcode. -/
  | ignoring
  deriving DecidableEq

/-- A rising clock with this data input. -/
def State.clock (di : Bool) : State → State
  | standby => if di then opcode none else standby
  | opcode none => opcode (some di)
  | opcode (some first) => if first && !di then address 6 0 else ignoring
  | address missing a =>
      if missing ≤ 1 then data (2 * a + di.toNat) 0 else address (missing - 1) (2 * a + di.toNat)
  | data a bits => data a (bits + 1)
  | ignoring => ignoring

/-- The data output. -/
def State.out (rom : ℕ → UInt16) (idle : Bool) : State → Bool
  | data a bits => if 1 ≤ bits ∧ bits ≤ 16 then (rom a).toNat.testBit (16 - bits) else idle
  | _ => idle

variable {rom : ℕ → UInt16} {idle : Bool}

/-- The outputs after each of `n` clocks with a low data input, read as a number. -/
def shown (rom : ℕ → UInt16) (idle : Bool) : ℕ → State → ℕ
  | 0, _ => 0
  | n + 1, st => ((st.clock false).out rom idle).toNat * 2 ^ n + shown rom idle n (st.clock false)

theorem shown_lt (n : ℕ) (st : State) : shown rom idle n st < 2 ^ n := by
  induction n generalizing st with
  | zero => exact Nat.one_pos
  | succ n ih =>
    have hrest := ih (st.clock false)
    have hbit : ((st.clock false).out rom idle).toNat * 2 ^ n ≤ 1 * 2 ^ n :=
      Nat.mul_le_mul_right _ (Bool.toNat_le _)
    rw [shown, Nat.pow_succ]
    omega

/-- `n` times the idle level. -/
def idleBits (idle : Bool) (n : ℕ) : ℕ := if idle then 2 ^ n - 1 else 0

theorem idleBits_succ (idle : Bool) (n : ℕ) :
    idleBits idle (n + 1) = idle.toNat * 2 ^ n + idleBits idle n := by
  have hpos : 0 < 2 ^ n := Nat.two_pow_pos n
  cases idle with
  | true =>
    simp only [idleBits, if_true, Bool.toNat_true, Nat.one_mul, Nat.pow_succ]
    omega
  | false => simp [idleBits]

theorem shown_ignoring (n : ℕ) : shown rom idle n .ignoring = idleBits idle n := by
  induction n with
  | zero => cases idle <;> rfl
  | succ n ih =>
    rw [idleBits_succ, ← ih]
    rfl

/-- The next bits of the word. -/
theorem shown_data {a bits n : ℕ} (h : bits + n ≤ 16) :
    shown rom idle n (.data a bits) = (rom a).toNat / 2 ^ (16 - bits - n) % 2 ^ n := by
  induction n generalizing bits with
  | zero => rw [shown, Nat.pow_zero, Nat.mod_one]
  | succ n ih =>
    have hbit : ((State.data a (bits + 1)).out rom idle).toNat =
        (rom a).toNat / 2 ^ (16 - (bits + 1)) % 2 := by
      rw [State.out, if_pos (by omega), Nat.toNat_testBit]
    -- the bit shown now is above the `n` bits that follow
    have hsplit : 16 - (bits + 1) = 16 - bits - (n + 1) + n := by omega
    have hrest : 16 - (bits + 1) - n = 16 - bits - (n + 1) := by omega
    rw [shown, State.clock, hbit, ih (by omega), hrest, hsplit, Nat.pow_add,
      ← Nat.div_div_eq_div_mul, Nat.mod_pow_succ]
    ring

/-- The missing address bits are low, and only then comes the word. -/
theorem shown_address (k a n : ℕ) :
    shown rom idle (k + 1 + n) (.address (k + 1) a) =
      idleBits idle (k + 1) * 2 ^ n + shown rom idle n (.data (a * 2 ^ (k + 1)) 0) := by
  induction k generalizing a with
  | zero =>
    have hone : idleBits idle 1 = idle.toNat := by cases idle <;> rfl
    rw [show 0 + 1 + n = n + 1 by omega, shown, hone, Nat.pow_one, Nat.mul_comm a 2]
    rfl
  | succ k ih =>
    have hclock : (State.address (k + 1 + 1) a).clock false = .address (k + 1) (2 * a) := by
      rw [State.clock, if_neg (by omega)]
      rfl
    have hout : (State.address (k + 1) (2 * a)).out rom idle = idle := rfl
    have hshift : 2 * a * 2 ^ (k + 1) = a * 2 ^ (k + 1 + 1) := by ring
    rw [show k + 1 + 1 + n = k + 1 + n + 1 by omega, shown, hclock, hout, ih, hshift,
      idleBits_succ idle (k + 1)]
    ring

end Microwire
