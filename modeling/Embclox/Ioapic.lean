/-
The registers of the I/O APIC.

An entry of the redirection table is two registers.  A register is selected by its 8-bit
index in `IOREGSEL` and accessed through `IOWIN`: pin `irq` has the registers
`0x10 + 2 * irq` and the one after it.  `enable_irq` writes the
destination first and then the vector, with all other bits zero: fixed delivery, active
high, edge-triggered, unmasked.

* `entry` — what the registers say about a pin;
* `Refines` — the registers hold the redirection table that the drivers' code works on;
* `refines_of_ops` — so they do after any sequence of calls, for the 120 pins whose
  registers have an index;
* `enableIrq_in_order` — a pin that was masked stays masked until its destination is set.
-/
import Embclox.Bits
import Embclox.Probe

open Boot (CpuId)
open Function (update)

namespace Ioapic

def ioapicVer : UInt8 := 0x01
def ioredtblBase : UInt8 := 0x10

/-- The index, and the registers behind the window. -/
structure Regs where
  ioregsel : UInt32
  win : UInt8 → UInt32

/-- A write to `IOREGSEL`. -/
def select (r : Regs) (reg : UInt8) : Regs := { r with ioregsel := reg.toUInt32 }

/-- An access to `IOWIN`, which goes to the register that is selected. -/
def readWin (r : Regs) : UInt32 := r.win r.ioregsel.toUInt8

def writeWin (r : Regs) (value : UInt32) : Regs :=
  { r with win := update r.win r.ioregsel.toUInt8 value }

def read (r : Regs) (reg : UInt8) : UInt32 × Regs := (readWin (select r reg), select r reg)

def write (r : Regs) (reg : UInt8) (value : UInt32) : Regs := writeWin (select r reg) value

def maxEntries (r : Regs) : UInt8 × Regs :=
  let (value, r) := read r ioapicVer
  ((value >>> 16 &&& 0xFF).toUInt8 + 1, r)

/-- In 8 bits. -/
def regLow (irq : UInt8) : UInt8 := ioredtblBase + irq * 2

/-- The first write of `enable_irq`. -/
def setDestination (r : Regs) (irq lapicId : UInt8) : Regs :=
  write r (regLow irq + 1) (lapicId.toUInt32 <<< 24)

def enableIrq (r : Regs) (irq vector lapicId : UInt8) : Regs :=
  write (setDestination r irq lapicId) (regLow irq) vector.toUInt32

def disableIrq (r : Regs) (irq : UInt8) : Regs :=
  let (low, r) := read r (regLow irq)
  write r (regLow irq) (low ||| ((1 : UInt32) <<< 16))

/-! ### Entries of the table -/

/-- How a pin is delivered; the delivery mode, the polarity and the trigger mode are 0. -/
structure Entry where
  vector : UInt8
  lapicId : UInt8
  /-- The other bits of the low register, down from the mask. -/
  mode : UInt32
  deriving DecidableEq

/-- The entry of a pin that is not masked. -/
def entry (r : Regs) (irq : UInt8) : Option Entry :=
  let low := r.win (regLow irq)
  if low &&& ((1 : UInt32) <<< 16) ≠ 0 then none
  else some ⟨low.toUInt8, (r.win (regLow irq + 1) >>> 24).toUInt8, low &&& 0xFF00⟩

/-- What `enable_irq` makes of a pin. -/
def routed (vector lapicId : UInt8) : Entry := ⟨vector, lapicId, 0⟩

/-- `disable_irq` on the table. -/
def maskPin (io : Boot.IoApic) (irq : ℕ) : Boot.IoApic :=
  { io with redirection := update io.redirection irq none }

variable {lapicOf : CpuId → UInt8}

/-- The table and the registers agree on all pins that have registers. -/
structure Refines (lapicOf : CpuId → UInt8) (io : Boot.IoApic) (r : Regs) : Prop where
  maxEntries : io.maxEntries = (maxEntries r).1.toNat
  entry : ∀ irq < 120, Ioapic.entry r irq =
    (io.redirection irq.toNat).map fun p => routed (UInt8.ofNat p.1) (lapicOf p.2)

inductive Op
  | enable (irq : UInt8) (vector : UInt8) (cpu : CpuId)
  | disable (irq : UInt8)

def Op.pin : Op → UInt8
  | .enable irq _ _ => irq
  | .disable irq => irq

def Op.onTable (io : Boot.IoApic) : Op → Boot.IoApic
  | .enable irq vector cpu => io.enableIrq irq.toNat vector.toNat cpu
  | .disable irq => maskPin io irq.toNat

def Op.onRegs (lapicOf : CpuId → UInt8) (r : Regs) : Op → Regs
  | .enable irq vector cpu => enableIrq r irq vector (lapicOf cpu)
  | .disable irq => disableIrq r irq

/-! ### The registers of different pins -/

theorem toNat_regLow {irq : UInt8} (h : irq < 120) : (regLow irq).toNat = 16 + 2 * irq.toNat := by
  have hlt : irq.toNat < 120 := h
  simp only [regLow, ioredtblBase, UInt8.toNat_add, UInt8.toNat_mul, UInt8.reduceToNat]
  omega

theorem toNat_regHigh {irq : UInt8} (h : irq < 120) :
    (regLow irq + 1).toNat = 17 + 2 * irq.toNat := by
  have hlt : irq.toNat < 120 := h
  have hone : (1 : UInt8).toNat = 1 := rfl
  rw [UInt8.toNat_add, toNat_regLow h, hone]
  omega

theorem regLow_ne {irq irq' : UInt8} (h : irq < 120) (h' : irq' < 120) (hne : irq' ≠ irq) :
    regLow irq' ≠ regLow irq ∧ regLow irq' + 1 ≠ regLow irq + 1 := by
  have hnat : irq'.toNat ≠ irq.toNat := fun heq => hne (UInt8.toNat_inj.mp heq)
  have hlow := toNat_regLow h
  have hlow' := toNat_regLow h'
  have hhigh := toNat_regHigh h
  have hhigh' := toNat_regHigh h'
  constructor
  · intro heq
    rw [heq] at hlow'
    omega
  · intro heq
    rw [heq] at hhigh'
    omega

/-- Low registers are even and high registers are odd. -/
theorem regLow_ne_high {irq irq' : UInt8} (h : irq < 120) (h' : irq' < 120) :
    regLow irq' ≠ regLow irq + 1 := by
  intro heq
  have hlow' := toNat_regLow h'
  rw [heq, toNat_regHigh h] at hlow'
  omega

theorem ioapicVer_ne {irq : UInt8} (h : irq < 120) :
    ioapicVer ≠ regLow irq ∧ ioapicVer ≠ regLow irq + 1 := by
  have hver : ioapicVer.toNat = 1 := rfl
  constructor
  · intro heq
    rw [heq, toNat_regLow h] at hver
    omega
  · intro heq
    rw [heq, toNat_regHigh h] at hver
    omega

/-! ### One call -/

variable {r : Regs} {irq : UInt8}

/-- The access after the select goes to the register, whatever was selected before. -/
@[simp] theorem win_write (reg : UInt8) (value : UInt32) :
    (write r reg value).win = update r.win reg value := by
  rw [write, writeWin, select]
  simp only [UInt8.toUInt8_toUInt32]

@[simp] theorem read_fst (reg : UInt8) : (read r reg).1 = r.win reg := by
  rw [read, readWin, select]
  simp only [UInt8.toUInt8_toUInt32]

theorem win_disableIrq : (disableIrq r irq).win =
    update r.win (regLow irq) (r.win (regLow irq) ||| ((1 : UInt32) <<< 16)) := by
  have hlow : (disableIrq r irq).win = update r.win (regLow irq)
      ((read r (regLow irq)).1 ||| ((1 : UInt32) <<< 16)) := win_write _ _
  rw [hlow, read_fst]

theorem win_enableIrq (vector lapicId : UInt8) : (enableIrq r irq vector lapicId).win =
    update (update r.win (regLow irq + 1) (lapicId.toUInt32 <<< 24)) (regLow irq)
      vector.toUInt32 := by
  rw [enableIrq, win_write, setDestination, win_write]

theorem win_enableIrq_low (vector lapicId : UInt8) :
    (enableIrq r irq vector lapicId).win (regLow irq) = vector.toUInt32 := by
  rw [win_enableIrq, Function.update_self]

theorem win_enableIrq_high (h : irq < 120) (vector lapicId : UInt8) :
    (enableIrq r irq vector lapicId).win (regLow irq + 1) = lapicId.toUInt32 <<< 24 := by
  rw [win_enableIrq, Function.update_of_ne (regLow_ne_high h h).symm, Function.update_self]

theorem win_enableIrq_of_ne {reg : UInt8} (hlow : reg ≠ regLow irq) (hhigh : reg ≠ regLow irq + 1)
    (vector lapicId : UInt8) : (enableIrq r irq vector lapicId).win reg = r.win reg := by
  rw [win_enableIrq, Function.update_of_ne hlow, Function.update_of_ne hhigh]

/-- The low register of a vector is unmasked and has no mode bit. -/
theorem low_of_vector (v : UInt8) :
    v.toUInt32 &&& ((1 : UInt32) <<< 16) = 0 ∧ v.toUInt32.toUInt8 = v ∧
      v.toUInt32 &&& 0xFF00 = 0 ∧ (v.toUInt32 <<< 24 >>> 24).toUInt8 = v := by
  have hall : ∀ b : BitVec 8, (UInt8.ofBitVec b).toUInt32 &&& ((1 : UInt32) <<< 16) = 0 ∧
      (UInt8.ofBitVec b).toUInt32.toUInt8 = UInt8.ofBitVec b ∧
      (UInt8.ofBitVec b).toUInt32 &&& 0xFF00 = 0 ∧
      ((UInt8.ofBitVec b).toUInt32 <<< 24 >>> 24).toUInt8 = UInt8.ofBitVec b := by
    decide +kernel
  exact hall v.toBitVec

theorem entry_of_vector {vector lapicId : UInt8} (hlow : r.win (regLow irq) = vector.toUInt32)
    (hhigh : r.win (regLow irq + 1) = lapicId.toUInt32 <<< 24) :
    entry r irq = some (routed vector lapicId) := by
  obtain ⟨hmask, hvector, hmode, -⟩ := low_of_vector vector
  obtain ⟨-, -, -, hdest⟩ := low_of_vector lapicId
  simp [entry, hlow, hhigh, hmask, hvector, hmode, hdest, routed]

/-- The entry of a pin depends on its two registers only. -/
theorem entry_congr {r' : Regs} (hlow : r'.win (regLow irq) = r.win (regLow irq))
    (hhigh : r'.win (regLow irq + 1) = r.win (regLow irq + 1)) : entry r' irq = entry r irq := by
  simp only [entry, hlow, hhigh]

/-- **`enable_irq` routes its pin**, edge-triggered and unmasked, and no other. -/
theorem entry_enableIrq (h : irq < 120) (vector lapicId : UInt8) {irq' : UInt8} (h' : irq' < 120) :
    entry (enableIrq r irq vector lapicId) irq' =
      if irq' = irq then some (routed vector lapicId) else entry r irq' := by
  by_cases heq : irq' = irq
  · subst heq
    rw [if_pos rfl]
    exact entry_of_vector (win_enableIrq_low vector lapicId) (win_enableIrq_high h vector lapicId)
  · rw [if_neg heq]
    obtain ⟨hlow, hhigh⟩ := regLow_ne h h' heq
    exact entry_congr (win_enableIrq_of_ne hlow (regLow_ne_high h h') vector lapicId)
      (win_enableIrq_of_ne (regLow_ne_high h' h).symm hhigh vector lapicId)

theorem win_disableIrq_of_ne {reg : UInt8} (hlow : reg ≠ regLow irq) :
    (disableIrq r irq).win reg = r.win reg := by
  rw [win_disableIrq, Function.update_of_ne hlow]

/-- A word with the mask bit is masked. -/
theorem masked_or (low : UInt32) :
    (low ||| ((1 : UInt32) <<< 16)) &&& ((1 : UInt32) <<< 16) ≠ 0 := by
  rw [UInt32.or_comm]
  exact Bits.or_and_ne_zero low (by decide)

theorem entry_disableIrq (h : irq < 120) {irq' : UInt8} (h' : irq' < 120) :
    entry (disableIrq r irq) irq' = if irq' = irq then none else entry r irq' := by
  by_cases heq : irq' = irq
  · subst heq
    rw [if_pos rfl, entry, win_disableIrq, Function.update_self, if_pos (masked_or _)]
  · rw [if_neg heq]
    exact entry_congr (win_disableIrq_of_ne (regLow_ne h h' heq).1)
      (win_disableIrq_of_ne (regLow_ne_high h' h).symm)

/-! ### Any sequence of calls -/

theorem maxEntries_congr {r' : Regs} (h : r'.win ioapicVer = r.win ioapicVer) :
    (maxEntries r').1 = (maxEntries r).1 := by
  simp only [maxEntries, read_fst, h]

theorem maxEntries_enableIrq (h : irq < 120) (vector lapicId : UInt8) :
    (maxEntries (enableIrq r irq vector lapicId)).1 = (maxEntries r).1 := by
  obtain ⟨hlow, hhigh⟩ := ioapicVer_ne h
  exact maxEntries_congr (win_enableIrq_of_ne hlow hhigh vector lapicId)

theorem maxEntries_disableIrq (h : irq < 120) :
    (maxEntries (disableIrq r irq)).1 = (maxEntries r).1 :=
  maxEntries_congr (win_disableIrq_of_ne (ioapicVer_ne h).1)

section

variable {io : Boot.IoApic}

theorem Refines.enable (hr : Refines lapicOf io r) (h : irq < 120) (vector : UInt8) (cpu : CpuId) :
    Refines lapicOf (io.enableIrq irq.toNat vector.toNat cpu)
      (enableIrq r irq vector (lapicOf cpu)) where
  maxEntries := by
    rw [maxEntries_enableIrq h]
    exact hr.maxEntries
  entry irq' h' := by
    rw [entry_enableIrq h vector (lapicOf cpu) h']
    simp only [Boot.IoApic.enableIrq]
    by_cases heq : irq' = irq
    · subst heq
      rw [if_pos rfl, Function.update_self, Option.map_some, UInt8.ofNat_toNat]
    · rw [if_neg heq, Function.update_of_ne fun hnat => heq (UInt8.toNat_inj.mp hnat)]
      exact hr.entry irq' h'

theorem Refines.disable (hr : Refines lapicOf io r) (h : irq < 120) :
    Refines lapicOf (maskPin io irq.toNat) (disableIrq r irq) where
  maxEntries := by
    rw [maxEntries_disableIrq h]
    exact hr.maxEntries
  entry irq' h' := by
    rw [entry_disableIrq h h']
    simp only [maskPin]
    by_cases heq : irq' = irq
    · subst heq
      rw [if_pos rfl, Function.update_self, Option.map_none]
    · rw [if_neg heq, Function.update_of_ne fun hnat => heq (UInt8.toNat_inj.mp hnat)]
      exact hr.entry irq' h'

theorem Refines.op {o : Op} (hr : Refines lapicOf io r) (ho : o.pin < 120) :
    Refines lapicOf (o.onTable io) (o.onRegs lapicOf r) := by
  cases o with
  | enable irq vector cpu => exact hr.enable ho vector cpu
  | disable irq => exact hr.disable ho

/-- **The registers hold the redirection table**: after any sequence of calls on pins that
have registers, each pin is delivered as the last call for it says, edge-triggered, or
masked, and the number of entries is what it was. -/
theorem refines_of_ops {ops : List Op} (hops : ∀ o ∈ ops, o.pin < 120)
    (hr : Refines lapicOf io r) :
    Refines lapicOf (ops.foldl Op.onTable io) (ops.foldl (Op.onRegs lapicOf) r) := by
  induction ops generalizing io r with
  | nil => exact hr
  | cons o ops ih =>
    obtain ⟨ho, hrest⟩ := List.forall_mem_cons.mp hops
    exact ih hrest (hr.op ho)

end

/-- All pins masked, and 24 entries. -/
def resetRegs : Regs := ⟨0, fun reg => if reg = ioapicVer then 0x00170011 else 0x00010000⟩

/-- Two cards share a pin, and another pin is routed and masked again. -/
theorem refines_shared_pin :
    entry ([Op.enable 11 32 .bsp, .enable 10 33 .bsp, .disable 10, .enable 11 34 (.ap 1)].foldl
      (Op.onRegs fun _ => 0) resetRegs) 11 = some (routed 34 0) := by
  have hr : Refines (fun _ => 0) ⟨24, fun _ => none⟩ resetRegs := by
    refine ⟨by decide, fun irq h => ?_⟩
    have hlow : resetRegs.win (regLow irq) = 0x00010000 := if_neg (ioapicVer_ne h).1.symm
    rw [entry, hlow, if_pos (by decide)]
    rfl
  have hops : ∀ o ∈ [Op.enable 11 32 .bsp, .enable 10 33 .bsp, .disable 10,
      .enable 11 34 (.ap 1)], o.pin < 120 := by decide
  exact (refines_of_ops hops hr).entry 11 (by decide)

/-- Between the two writes of `enable_irq` a masked pin is still masked, so that no
interrupt goes to the old destination. -/
theorem enableIrq_in_order (h : irq < 120) (lapicId : UInt8) (hmasked : entry r irq = none) :
    entry (setDestination r irq lapicId) irq = none := by
  have hread : (setDestination r irq lapicId).win (regLow irq) = r.win (regLow irq) := by
    rw [setDestination, win_write, Function.update_of_ne (regLow_ne_high h h)]
  by_cases hmask : r.win (regLow irq) &&& ((1 : UInt32) <<< 16) ≠ 0
  · rw [entry, hread, if_pos hmask]
  · rw [entry, if_neg hmask] at hmasked
    exact absurd hmasked (by simp)

end Ioapic
