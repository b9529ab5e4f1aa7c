/-
PCI configuration space through the ports 0xCF8 and 0xCFC.

A register is read and written by the value of the address port, which holds bus,
device, function and offset side by side.  `enumerate` walks over the 32 devices of bus 0
and looks at functions 1 to 7 only if function 0 says so.  16-bit registers are written by
reading the word around them and writing it back.

* `enumerate_exact` — the functions that are present, each once, in the order of their
  addresses, each with the fields of its own registers;
* `findDevice_eq`, `findDeviceAny_eq` — the first of them whose function is 0 and whose
  ids match;
* `pciConfigAddress_inj` — registers of different functions have different addresses;
* `enableBusMastering_exact` — the three bits are set and nothing else of the function or
  of the others changes, but that the status bits that a one clears are cleared;
* `readBar_exact` — the base address of a 32-bit or 64-bit memory region.
-/
import Embclox.Bits
import Embclox.Probe
import Mathlib.Data.List.Nodup

open Function (update)

namespace Pci

def pciCommand : UInt8 := 0x04
def pciHeaderType : UInt8 := 0x0E
def pciClassRev : UInt8 := 0x08

/-- What the data port returns, by the value of the address port. -/
abbrev Config := UInt32 → UInt32

structure PciDevice extends Boot.PciDevice where
  classCode : UInt8
  subclass : UInt8
  deriving DecidableEq

def pciConfigAddress (bus dev func offset : UInt8) : UInt32 :=
  ((1 : UInt32) <<< 31) ||| (bus.toUInt32 <<< 16) ||| (dev.toUInt32 <<< 11) |||
    (func.toUInt32 <<< 8) ||| (offset.toUInt32 &&& 0xFC)

def pciRead32 (c : Config) (bus dev func offset : UInt8) : UInt32 :=
  c (pciConfigAddress bus dev func offset)

/-- `takes` is what a register makes of its value and a word that is written to it. -/
def pciWrite32 (takes : UInt32 → UInt32 → UInt32 → UInt32) (c : Config)
    (bus dev func offset : UInt8) (val : UInt32) : Config :=
  let addr := pciConfigAddress bus dev func offset
  update c addr (takes addr (c addr) val)

/-- The shift of a 16-bit register in its word. -/
def shift16 (offset : UInt8) : UInt32 := ((offset &&& 2) * 8).toUInt32

def pciRead16 (c : Config) (bus dev func offset : UInt8) : UInt16 :=
  (pciRead32 c bus dev func (offset &&& 0xFC) >>> shift16 offset &&& 0xFFFF).toUInt16

def pciWrite16 (takes : UInt32 → UInt32 → UInt32 → UInt32) (c : Config)
    (bus dev func offset : UInt8) (val : UInt16) : Config :=
  let old := pciRead32 c bus dev func (offset &&& 0xFC)
  let mask := ~~~((0xFFFF : UInt32) <<< shift16 offset)
  pciWrite32 takes c bus dev func (offset &&& 0xFC)
    ((old &&& mask) ||| (val.toUInt32 <<< shift16 offset))

def readClass (c : Config) (bus dev func : UInt8) : UInt8 × UInt8 :=
  let w := pciRead32 c bus dev func pciClassRev
  ((w >>> 24 &&& 0xFF).toUInt8, (w >>> 16 &&& 0xFF).toUInt8)

/-! ### The bus -/

/-- The record of a function whose first word is `id`. -/
def deviceOf (c : Config) (bus dev func : UInt8) (id : UInt32) : PciDevice where
  bus
  dev
  func
  vendor := (id &&& 0xFFFF).toUInt16
  device := (id >>> 16 &&& 0xFFFF).toUInt16
  classCode := (readClass c bus dev func).1
  subclass := (readClass c bus dev func).2

def pushDev (c : Config) (out : List PciDevice) (bus dev func : UInt8) (id : UInt32) :
    List PciDevice :=
  out ++ [deviceOf c bus dev func id]

def devs : List UInt8 := (List.range 32).map UInt8.ofNat

/-- The functions after the first. -/
def funcs : List UInt8 := (List.range' 1 7).map UInt8.ofNat

/-- Bit 7 of the header type. -/
def multiFunction (c : Config) (dev : UInt8) : Bool :=
  let header := (pciRead32 c 0 dev 0 (pciHeaderType &&& 0xFC) >>>
    ((pciHeaderType &&& 3) * 8).toUInt32).toUInt8
  header &&& 0x80 != 0

def enumerateFunc (c : Config) (dev : UInt8) (out : List PciDevice) (func : UInt8) :
    List PciDevice :=
  let idf := pciRead32 c 0 dev func 0
  if idf = 0xFFFFFFFF then out else pushDev c out 0 dev func idf

def enumerateDev (c : Config) (out : List PciDevice) (dev : UInt8) : List PciDevice :=
  let id0 := pciRead32 c 0 dev 0 0
  if id0 = 0xFFFFFFFF then out
  else
    let out := pushDev c out 0 dev 0 id0
    if multiFunction c dev then funcs.foldl (enumerateFunc c dev) out else out

def enumerate (c : Config) : List PciDevice := devs.foldl (enumerateDev c) []

/-- The first function 0 with the given vendor and a device id that meets `p`. -/
def findFirst (c : Config) (vendor : UInt16) (p : UInt16 → Bool) : Option PciDevice :=
  devs.findSome? fun dev =>
    let id := pciRead32 c 0 dev 0 0
    if id = 0xFFFFFFFF then none
    else if (id &&& 0xFFFF).toUInt16 == vendor && p (id >>> 16 &&& 0xFFFF).toUInt16 then
      some (deviceOf c 0 dev 0 id)
    else none

def findDevice (c : Config) (vendor deviceId : UInt16) : Option PciDevice :=
  findFirst c vendor (· == deviceId)

def findDeviceAny (c : Config) (vendor : UInt16) (deviceIds : List UInt16) : Option PciDevice :=
  findFirst c vendor (deviceIds.contains ·)

def enableBusMastering (takes : UInt32 → UInt32 → UInt32 → UInt32) (c : Config)
    (dev : Boot.PciDevice) : Config :=
  let cmd := pciRead16 c dev.bus dev.dev dev.func pciCommand
  pciWrite16 takes c dev.bus dev.dev dev.func pciCommand (cmd ||| 0x07)

def readBar (c : Config) (dev : Boot.PciDevice) (bar : UInt8) : UInt64 :=
  let offset := 0x10 + bar * 4
  let raw := pciRead32 c dev.bus dev.dev dev.func offset
  let barType := raw >>> 1 &&& 0x3
  if barType = 0x2 then
    let upper := pciRead32 c dev.bus dev.dev dev.func (offset + 4)
    (upper.toUInt64 <<< 32) ||| (raw &&& ~~~0xF).toUInt64
  else (raw &&& ~~~0xF).toUInt64

/-! ### The functions that are present -/

/-- The function answers, and is reached: it is the first of its device, or the first says
that there are more. -/
def present (c : Config) (dev func : UInt8) : Bool :=
  pciRead32 c 0 dev 0 0 != 0xFFFFFFFF && (func == 0 || multiFunction c dev) &&
    pciRead32 c 0 dev func 0 != 0xFFFFFFFF

/-- The places of bus 0 in the order of their addresses. -/
def slots : List (UInt8 × UInt8) := devs.flatMap fun dev => (0 :: funcs).map (Prod.mk dev)

def deviceAt (c : Config) (slot : UInt8 × UInt8) : PciDevice :=
  deviceOf c 0 slot.1 slot.2 (pciRead32 c 0 slot.1 slot.2 0)

/-- The functions of one device that are present. -/
def functionsAt (c : Config) (dev : UInt8) : List PciDevice :=
  (((0 :: funcs).map (Prod.mk dev)).filter fun slot => present c slot.1 slot.2).map (deviceAt c)

/-- The functions of one device after the first. -/
def laterFunctions (c : Config) (dev : UInt8) : List PciDevice :=
  ((funcs.map (Prod.mk dev)).filter fun slot => present c slot.1 slot.2).map (deviceAt c)

theorem functionsAt_of_absent {c : Config} {dev : UInt8}
    (h : pciRead32 c 0 dev 0 0 = 0xFFFFFFFF) : functionsAt c dev = [] := by
  simp [functionsAt, present, h]

theorem functionsAt_of_present {c : Config} {dev : UInt8}
    (h : pciRead32 c 0 dev 0 0 ≠ 0xFFFFFFFF) :
    functionsAt c dev = deviceAt c (dev, 0) :: laterFunctions c dev := by
  have hfirst : present c dev 0 = true := by simp [present, h]
  simp [functionsAt, laterFunctions, hfirst]

theorem foldl_enumerateFunc (c : Config) (dev : UInt8) (fs : List UInt8) (out : List PciDevice) :
    fs.foldl (enumerateFunc c dev) out = out ++
      ((fs.map (Prod.mk dev)).filter fun slot => pciRead32 c 0 slot.1 slot.2 0 != 0xFFFFFFFF).map
        (deviceAt c) := by
  induction fs generalizing out with
  | nil => simp
  | cons func fs ih =>
    rw [List.foldl_cons, ih]
    by_cases h : pciRead32 c 0 dev func 0 = 0xFFFFFFFF
    · simp [enumerateFunc, h]
    · simp [enumerateFunc, h, pushDev, deviceAt]

theorem ne_zero_of_mem_funcs {func : UInt8} (h : func ∈ funcs) : func ≠ 0 := by
  obtain ⟨n, hn, rfl⟩ := List.mem_map.mp h
  obtain ⟨hlow, hhigh⟩ := List.mem_range'_1.mp hn
  rw [Ne, ← UInt8.toNat_inj, UInt8.toNat_ofNat', UInt8.toNat_zero]
  omega

/-- What the inner loop adds. -/
theorem laterFunctions_eq {c : Config} {dev : UInt8} (h : pciRead32 c 0 dev 0 0 ≠ 0xFFFFFFFF)
    (out : List PciDevice) :
    (if multiFunction c dev then funcs.foldl (enumerateFunc c dev) out else out) =
      out ++ laterFunctions c dev := by
  cases hm : multiFunction c dev with
  | true =>
    have hfirst : (pciRead32 c 0 dev 0 0 != 0xFFFFFFFF) = true := bne_iff_ne.mpr h
    rw [if_pos rfl, foldl_enumerateFunc, laterFunctions, List.filter_map, List.filter_map]
    simp [Function.comp_def, present, hfirst, hm]
  | false =>
    have hnone : ∀ slot ∈ funcs.map (Prod.mk dev), ¬ present c slot.1 slot.2 = true := by
      intro slot hslot
      obtain ⟨func, hfunc, rfl⟩ := List.mem_map.mp hslot
      simp [present, hm, ne_zero_of_mem_funcs hfunc]
    rw [laterFunctions, List.filter_eq_nil_iff.mpr hnone]
    simp

theorem enumerateDev_eq (c : Config) (out : List PciDevice) (dev : UInt8) :
    enumerateDev c out dev = out ++ functionsAt c dev := by
  by_cases h : pciRead32 c 0 dev 0 0 = 0xFFFFFFFF
  · rw [functionsAt_of_absent h, List.append_nil]
    simp [enumerateDev, h]
  · have heq : enumerateDev c out dev =
        pushDev c out 0 dev 0 (pciRead32 c 0 dev 0 0) ++ laterFunctions c dev := by
      rw [← laterFunctions_eq h]
      simp only [enumerateDev, if_neg h]
    rw [heq, functionsAt_of_present h, pushDev, List.append_assoc]
    rfl

theorem enumerate_eq_flatMap (c : Config) : enumerate c = devs.flatMap (functionsAt c) := by
  have hfold : ∀ (ds : List UInt8) (out : List PciDevice),
      ds.foldl (enumerateDev c) out = out ++ ds.flatMap (functionsAt c) := by
    intro ds
    induction ds with
    | nil => simp
    | cons d ds ih =>
      intro out
      rw [List.foldl_cons, ih, enumerateDev_eq, List.flatMap_cons, List.append_assoc]
  exact (hfold devs []).trans (List.nil_append _)

theorem enumerate_eq (c : Config) :
    enumerate c = (slots.filter fun slot => present c slot.1 slot.2).map (deviceAt c) := by
  rw [enumerate_eq_flatMap, slots, List.filter_flatMap, List.map_flatMap]
  rfl

theorem slots_nodup : slots.Nodup := by
  have hdevs : devs.Nodup := by decide +kernel
  have hfuncs : (0 :: funcs).Nodup := by decide +kernel
  exact List.Nodup.product hdevs hfuncs

/-- **Enumeration is exact**, for every content of the configuration space: `enumerate`
returns the functions that are present, in the order of their addresses, each with its
own ids and class, and no two of them have one address. -/
theorem enumerate_exact (c : Config) :
    enumerate c = (slots.filter fun slot => present c slot.1 slot.2).map (deviceAt c) ∧
      ((enumerate c).map fun d => d.toPciDevice.key).Nodup := by
  refine ⟨enumerate_eq c, ?_⟩
  rw [enumerate_eq, List.map_map]
  refine List.Nodup.map_on (fun slot _ slot' _ h => ?_) (slots_nodup.filter _)
  have hkey : ((0 : UInt8), slot.1, slot.2) = (0, slot'.1, slot'.2) := h
  simpa [Prod.ext_iff] using hkey

/-! ### Searching for ids -/

/-- Function 0 of a device is the only candidate there. -/
theorem find?_functionsAt (c : Config) (vendor : UInt16) (p : UInt16 → Bool) (dev : UInt8) :
    (functionsAt c dev).find? (fun d => d.func == 0 && (d.vendor == vendor && p d.device)) =
      if pciRead32 c 0 dev 0 0 = 0xFFFFFFFF then none
      else if (deviceAt c (dev, 0)).vendor == vendor && p (deviceAt c (dev, 0)).device then
        some (deviceAt c (dev, 0))
      else none := by
  have hrest : (laterFunctions c dev).find?
      (fun d => d.func == 0 && (d.vendor == vendor && p d.device)) = none := by
    rw [List.find?_eq_none]
    intro d hd
    obtain ⟨slot, hslot, rfl⟩ := List.mem_map.mp hd
    obtain ⟨func, hfunc, rfl⟩ := List.mem_map.mp (List.mem_of_mem_filter hslot)
    simp [deviceAt, deviceOf, ne_zero_of_mem_funcs hfunc]
  by_cases h : pciRead32 c 0 dev 0 0 = 0xFFFFFFFF
  · rw [functionsAt_of_absent h, if_pos h]
    rfl
  · have hfunc : ((deviceAt c (dev, 0)).func == 0) = true := rfl
    rw [functionsAt_of_present h, if_neg h, List.find?_cons, hrest, hfunc, Bool.true_and]
    cases (deviceAt c (dev, 0)).vendor == vendor && p (deviceAt c (dev, 0)).device <;> rfl

theorem findFirst_eq (c : Config) (vendor : UInt16) (p : UInt16 → Bool) :
    findFirst c vendor p =
      (enumerate c).find? fun d => d.func == 0 && (d.vendor == vendor && p d.device) := by
  rw [enumerate_eq_flatMap, List.find?_flatMap]
  exact congrArg devs.findSome? (funext fun dev => (find?_functionsAt c vendor p dev).symm)

/-- **`find_device` is a search in the enumeration**, of which it sees function 0 of each
device only. -/
theorem findDevice_eq (c : Config) (vendor deviceId : UInt16) :
    findDevice c vendor deviceId =
      (enumerate c).find? fun d => d.func == 0 && (d.vendor == vendor && d.device == deviceId) :=
  findFirst_eq c vendor _

theorem findDeviceAny_eq (c : Config) (vendor : UInt16) (deviceIds : List UInt16) :
    findDeviceAny c vendor deviceIds =
      (enumerate c).find? fun d =>
        d.func == 0 && (d.vendor == vendor && deviceIds.contains d.device) :=
  findFirst_eq c vendor _

/-! ### Addresses -/

/-- The fields do not overlap. -/
theorem toNat_pciConfigAddress {dev func : UInt8} (bus offset : UInt8) (hd : dev < 32)
    (hf : func < 8) :
    (pciConfigAddress bus dev func offset).toNat =
      2 ^ 31 + (2 ^ 16 * bus.toNat + (2 ^ 11 * dev.toNat + (2 ^ 8 * func.toNat +
        (offset &&& 0xFC).toNat))) := by
  have hbus := bus.toNat_lt
  have hoff := (offset &&& 0xFC).toNat_lt
  have hdev : dev.toNat < 32 := hd
  have hfunc : func.toNat < 8 := hf
  have hoffset : (offset.toUInt32 &&& 0xFC).toNat = (offset &&& 0xFC).toNat := by
    simp [UInt32.toNat_and, UInt8.toNat_and]
  -- each field lies above the sum of those to its right
  have h8 := Nat.two_pow_add_eq_or_of_lt (i := 8) hoff func.toNat
  have h11 := Nat.two_pow_add_eq_or_of_lt (i := 11)
    (b := 2 ^ 8 * func.toNat + (offset &&& 0xFC).toNat)
    (by omega) dev.toNat
  have h16 := Nat.two_pow_add_eq_or_of_lt (i := 16)
    (b := 2 ^ 11 * dev.toNat + (2 ^ 8 * func.toNat + (offset &&& 0xFC).toNat)) (by omega) bus.toNat
  have h31 := Nat.two_pow_add_eq_or_of_lt (i := 31)
    (b := 2 ^ 16 * bus.toNat +
      (2 ^ 11 * dev.toNat + (2 ^ 8 * func.toNat + (offset &&& 0xFC).toNat)))
    (by omega) 1
  have hmods : bus.toNat * 2 ^ 16 % 2 ^ 32 = 2 ^ 16 * bus.toNat ∧
      dev.toNat * 2 ^ 11 % 2 ^ 32 = 2 ^ 11 * dev.toNat ∧
      func.toNat * 2 ^ 8 % 2 ^ 32 = 2 ^ 8 * func.toNat := by omega
  rw [Nat.mul_one] at h31
  rw [h31, h16, h11, h8]
  simp only [pciConfigAddress, UInt32.toNat_or, hoffset, UInt32.toNat_shiftLeft,
    UInt8.toNat_toUInt32, Nat.shiftLeft_eq, Nat.or_assoc, UInt32.reduceToNat, Nat.reduceMod,
    hmods]

/-- **Different registers have different addresses**, as far as the fields hold the
numbers. -/
theorem pciConfigAddress_inj {bus dev func offset bus' dev' func' offset' : UInt8}
    (hd : dev < 32) (hf : func < 8) (hd' : dev' < 32) (hf' : func' < 8) :
    pciConfigAddress bus dev func offset = pciConfigAddress bus' dev' func' offset' ↔
      bus = bus' ∧ dev = dev' ∧ func = func' ∧ offset &&& 0xFC = offset' &&& 0xFC := by
  constructor
  · intro h
    have hnat := congrArg UInt32.toNat h
    rw [toNat_pciConfigAddress bus offset hd hf,
      toNat_pciConfigAddress bus' offset' hd' hf'] at hnat
    have hdev : dev.toNat < 32 := hd
    have hdev' : dev'.toNat < 32 := hd'
    have hfunc : func.toNat < 8 := hf
    have hfunc' : func'.toNat < 8 := hf'
    have hoff := (offset &&& 0xFC).toNat_lt
    have hoff' := (offset' &&& 0xFC).toNat_lt
    refine ⟨?_, ?_, ?_, ?_⟩ <;> apply UInt8.toNat_inj.mp <;> omega
  · rintro ⟨rfl, rfl, rfl, hoff⟩
    have h32 : offset.toUInt32 &&& 0xFC = offset'.toUInt32 &&& 0xFC := by
      have h := congrArg UInt8.toUInt32 hoff
      simpa using h
    simp only [pciConfigAddress, h32]

/-- The command and status word: some bits take what is written, and some are cleared by
a one. -/
def commandTakes (rw w1c old val : UInt32) : UInt32 :=
  ((old &&& ~~~rw) ||| (val &&& rw)) &&& ~~~(val &&& w1c)

/-- A half and the rest of its word are the word. -/
theorem write_back_low (old : UInt32) :
    (old &&& ~~~((0xFFFF : UInt32) <<< 0)) |||
      (((old >>> 0 &&& 0xFFFF).toUInt16 ||| 0x07).toUInt32 <<< 0) = old ||| 0x07 := by
  have hmask : ~~~((0xFFFF : UInt32) <<< 0) = 0xFFFF0000 := rfl
  have hhigh : ∀ i < 32, (0xFFFF0000#32).getLsbD i = decide (16 ≤ i) := by decide
  have hlow : ∀ i < 32, (0xFFFF#32).getLsbD i = decide (i < 16) := by decide
  have h7 : ∀ i < 32, (7#16).getLsbD i = (7#32).getLsbD i := by decide
  rw [hmask, UInt32.shiftRight_zero, UInt32.shiftLeft_zero]
  apply UInt32.eq_of_toBitVec_eq
  apply BitVec.eq_of_getLsbD_eq
  intro i hi
  simp only [UInt32.toBitVec_or, UInt32.toBitVec_and, UInt16.toBitVec_toUInt32,
    UInt16.toBitVec_or, UInt32.toBitVec_toUInt16, BitVec.getLsbD_or, BitVec.getLsbD_and,
    BitVec.getLsbD_setWidth, UInt32.toBitVec_ofNat, UInt16.toBitVec_ofNat, hhigh i hi, hlow i hi,
    h7 i hi]
  by_cases h16 : i < 16
  · simp [hi, h16, Nat.not_le.mpr h16]
  · simp [hi, h16, Nat.le_of_not_lt h16]

/-- Both halves are written back. -/
theorem pciWrite16_command (takes : UInt32 → UInt32 → UInt32 → UInt32) (c : Config)
    (bus dev func : UInt8) :
    pciWrite16 takes c bus dev func pciCommand (pciRead16 c bus dev func pciCommand ||| 0x07) =
      pciWrite32 takes c bus dev func pciCommand
        (pciRead32 c bus dev func pciCommand ||| 0x07) := by
  have hoff : pciCommand &&& 0xFC = pciCommand := rfl
  have hshift : shift16 pciCommand = 0 := rfl
  simp only [pciWrite16, pciRead16, hoff, hshift, write_back_low]

/-- A one is written to every status bit that is set. -/
theorem commandTakes_write_back {rw w1c : UInt32} (hlow : w1c &&& 0xFFFF = 0)
    (hrw : rw &&& w1c = 0) (old : UInt32) :
    commandTakes rw w1c old (old ||| 0x07) = (old ||| (0x07 &&& rw)) &&& ~~~w1c := by
  have h7 : (0x07 : UInt32) &&& w1c = 0 := by
    have hmask : (0x07 : UInt32) = 0x07 &&& 0xFFFF := rfl
    rw [hmask, UInt32.and_assoc, UInt32.and_comm 0xFFFF, hlow, UInt32.and_zero]
  apply UInt32.eq_of_toBitVec_eq
  apply BitVec.eq_of_getLsbD_eq
  intro i hi
  have h7i := congrArg (fun x : UInt32 => x.toBitVec.getLsbD i) h7
  have hrwi := congrArg (fun x : UInt32 => x.toBitVec.getLsbD i) hrw
  simp only [UInt32.toBitVec_and, BitVec.getLsbD_and, UInt32.toBitVec_ofNat] at h7i hrwi
  simp only [commandTakes, UInt32.toBitVec_or, UInt32.toBitVec_and, UInt32.toBitVec_not,
    BitVec.getLsbD_or, BitVec.getLsbD_and, BitVec.getLsbD_not, hi, decide_true, Bool.true_and,
    UInt32.toBitVec_ofNat]
  revert h7i hrwi
  generalize old.toBitVec.getLsbD i = o
  generalize rw.toBitVec.getLsbD i = r
  generalize w1c.toBitVec.getLsbD i = w
  generalize (7#32).getLsbD i = b
  have hz : (0#32).getLsbD i = false := by simp
  rw [hz]
  revert o r w b
  decide

/-- **Bus mastering.**  The bits for I/O space, memory space and bus mastering are set,
where the function has them, and the other bits of the command register stay; every status
bit that a one clears is cleared, since the word is written back as it was read.  No
other register changes. -/
theorem enableBusMastering_exact (takes : UInt32 → UInt32 → UInt32 → UInt32) (c : Config)
    {d : Boot.PciDevice} (hd : d.dev < 32) (hf : d.func < 8) {rw w1c : UInt32}
    (hlow : w1c &&& 0xFFFF = 0) (hrw : rw &&& w1c = 0)
    (htakes : takes (pciConfigAddress d.bus d.dev d.func pciCommand) = commandTakes rw w1c) :
    pciRead32 (enableBusMastering takes c d) d.bus d.dev d.func pciCommand =
        (pciRead32 c d.bus d.dev d.func pciCommand ||| (0x07 &&& rw)) &&& ~~~w1c ∧
      ∀ bus dev func offset : UInt8, dev < 32 → func < 8 →
        ¬ (bus = d.bus ∧ dev = d.dev ∧ func = d.func ∧ offset &&& 0xFC = pciCommand) →
        pciRead32 (enableBusMastering takes c d) bus dev func offset =
          pciRead32 c bus dev func offset := by
  have heq : enableBusMastering takes c d = pciWrite32 takes c d.bus d.dev d.func pciCommand
      (pciRead32 c d.bus d.dev d.func pciCommand ||| 0x07) :=
    pciWrite16_command takes c d.bus d.dev d.func
  rw [heq]
  constructor
  · rw [pciRead32, pciWrite32, Function.update_self, htakes]
    exact commandTakes_write_back hlow hrw _
  · intro bus dev func offset hdev hfunc hne
    rw [pciRead32, pciWrite32, Function.update_of_ne]
    · rfl
    · intro haddr
      exact hne ((pciConfigAddress_inj hdev hfunc hd hf).mp haddr)

/-- A function with all command bits, and a status bit that is set. -/
theorem enableBusMastering_clears_status :
    pciRead32 (enableBusMastering (fun _ => commandTakes 0x0547 0xF9000000) (fun _ => 0x80000100)
      ⟨0, 3, 0, 0x8086, 0x100E⟩) 0 3 0 pciCommand = 0x00000107 :=
  (enableBusMastering_exact (fun _ => commandTakes 0x0547 0xF9000000) (fun _ => 0x80000100)
    (d := ⟨0, 3, 0, 0x8086, 0x100E⟩) (by decide) (by decide) (by decide) (by decide) rfl).1

/-! ### Base addresses -/

/-- The word of a memory BAR: the base address, the type and the prefetchable bit. -/
def barWord (base : UInt32) (type : UInt32) (prefetchable : Bool) : UInt32 :=
  base ||| (type <<< 1) ||| (if prefetchable then 8 else 0)

/-- The low bits of a base address are free for the flags. -/
theorem base_or_and_not {base k : UInt32} (hbase : base &&& 0xF = 0)
    (hk : k &&& ~~~(0xF : UInt32) = 0) :
    (base ||| k) &&& ~~~(0xF : UInt32) = base := by
  rw [Bits.or_and_distrib, hk, UInt32.or_zero]
  apply UInt32.eq_of_toBitVec_eq
  apply BitVec.eq_of_getLsbD_eq
  intro i hi
  have hbit := congrArg (fun x : UInt32 => x.toBitVec.getLsbD i) hbase
  simp only [UInt32.toBitVec_and, BitVec.getLsbD_and, UInt32.toBitVec_not, BitVec.getLsbD_not, hi,
    decide_true, Bool.true_and, UInt32.toBitVec_ofNat, BitVec.getLsbD_zero] at hbit ⊢
  revert hbit
  generalize base.toBitVec.getLsbD i = x
  generalize (15#32).getLsbD i = m
  revert x m
  decide

theorem base_type {base : UInt32} (hbase : base &&& 0xF = 0) (k : UInt32) :
    (base ||| k) >>> 1 &&& (0x3 : UInt32) = k >>> 1 &&& (0x3 : UInt32) := by
  have h3 : ∀ i < 32, (3#32).getLsbD i = true → (15#32).getLsbD (i + 1) = true := by decide
  apply UInt32.eq_of_toBitVec_eq
  apply BitVec.eq_of_getLsbD_eq
  intro i hi
  have hbit := congrArg (fun x : UInt32 => x.toBitVec.getLsbD (i + 1)) hbase
  simp only [UInt32.toBitVec_and, BitVec.getLsbD_and, UInt32.toBitVec_ofNat,
    BitVec.getLsbD_zero] at hbit
  have hone : (1#32 % 32).toNat = 1 := rfl
  simp only [UInt32.toBitVec_and, UInt32.toBitVec_or, UInt32.toBitVec_shiftRight,
    BitVec.getLsbD_and, UInt32.toBitVec_ofNat, BitVec.ushiftRight_eq', hone,
    BitVec.getLsbD_ushiftRight, BitVec.getLsbD_or, Nat.add_comm 1 i]
  cases hm : (3#32).getLsbD i with
  | false => simp
  | true =>
    rw [h3 i hi hm, Bool.and_true] at hbit
    simp [hbit]

/-- The two halves of a word. -/
theorem halves (x : UInt64) :
    ((x >>> 32).toUInt32.toUInt64 <<< 32) ||| x.toUInt32.toUInt64 = x := by
  have h32 : (32#64 % 64).toNat = 32 := rfl
  apply UInt64.eq_of_toBitVec_eq
  apply BitVec.eq_of_getLsbD_eq
  intro i hi
  simp only [UInt64.toBitVec_or, UInt64.toBitVec_shiftLeft, UInt32.toBitVec_toUInt64,
    UInt64.toBitVec_toUInt32, UInt64.toBitVec_shiftRight, UInt64.toBitVec_ofNat,
    BitVec.getLsbD_or, BitVec.shiftLeft_eq', BitVec.ushiftRight_eq', h32,
    BitVec.getLsbD_shiftLeft, BitVec.getLsbD_setWidth, BitVec.getLsbD_ushiftRight]
  by_cases h : i < 32
  · simp [h, hi]
  · have hsub : i - 32 < 32 := by omega
    have hadd : 32 + (i - 32) = i := by omega
    simp [h, hi, hsub, hadd]
    omega

/-- **A memory BAR reads as its base address**, which is a multiple of 16; for a 64-bit BAR
the upper half comes from the next register. -/
theorem readBar_exact (c : Config) (d : Boot.PciDevice) (bar : UInt8) {base : UInt64}
    (prefetchable : Bool) (hbase : base.toUInt32 &&& 0xF = 0) :
    (base >>> 32 = 0 →
      pciRead32 c d.bus d.dev d.func (0x10 + bar * 4) = barWord base.toUInt32 0 prefetchable →
      readBar c d bar = base) ∧
    (pciRead32 c d.bus d.dev d.func (0x10 + bar * 4) = barWord base.toUInt32 2 prefetchable →
      pciRead32 c d.bus d.dev d.func (0x10 + bar * 4 + 4) = (base >>> 32).toUInt32 →
      readBar c d bar = base) := by
  have hhalves := halves base
  constructor
  · intro hhigh hraw
    have htype : barWord base.toUInt32 0 prefetchable >>> 1 &&& (0x3 : UInt32) ≠ 0x2 := by
      rw [barWord, UInt32.or_assoc, base_type hbase]
      cases prefetchable <;> decide
    have hmask : barWord base.toUInt32 0 prefetchable &&& ~~~(0xF : UInt32) = base.toUInt32 := by
      rw [barWord, UInt32.or_assoc]
      exact base_or_and_not hbase (by cases prefetchable <;> decide)
    simp only [readBar, hraw, if_neg htype, hmask]
    rw [hhigh] at hhalves
    simpa using hhalves
  · intro hraw hupper
    have htype : barWord base.toUInt32 2 prefetchable >>> 1 &&& (0x3 : UInt32) = 0x2 := by
      rw [barWord, UInt32.or_assoc, base_type hbase]
      cases prefetchable <;> decide
    have hmask : barWord base.toUInt32 2 prefetchable &&& ~~~(0xF : UInt32) = base.toUInt32 := by
      rw [barWord, UInt32.or_assoc]
      exact base_or_and_not hbase (by cases prefetchable <;> decide)
    simp only [readBar, hraw, hupper, if_pos htype, hmask, hhalves]

/-- The registers of an e1000 at 0xFEBC0000. -/
theorem readBar_e1000 :
    readBar (fun _ => barWord 0xFEBC0000 0 false) ⟨0, 3, 0, 0x8086, 0x100E⟩ 0 = 0xFEBC0000 :=
  (readBar_exact _ ⟨0, 3, 0, 0x8086, 0x100E⟩ 0 false
    (show (0xFEBC0000 : UInt64).toUInt32 &&& 0xF = 0 by decide)).1
    (by decide) (by decide)

end Pci
