/-
The serial EEPROM of the Tulip.

`eeprom_read` drives the pins of a Microwire EEPROM through `CSR9`: nine command bits,
then sixteen clocks during which it samples the data output.  The command it sends is
the address followed by `110`, while the device expects `110` followed by the address.

* `eepromCommand` — the pin sequence for any command word;
* `readBits_toNat` — the word that the sixteen clocks collect;
* `eepromCommand_standard` — with the command `110` and then the address, it is the
  stored word;
* `answered` — what the device makes of the command that the driver sends;
* `eepromRead_correct_iff` — the stored word is read for every content of the EEPROM at
  one address only, 54, and `read_mac` never returns the stored address;
* `eepromRead_wrong_word` — a MAC address that is read as another one.
-/
import Embclox.Bytes
import Embclox.Microwire

open Microwire

namespace TulipEeprom

def csr9Sr : UInt32 := (1 : UInt32) <<< 11
def csr9Rd : UInt32 := (1 : UInt32) <<< 14
def csr9Do : UInt32 := (1 : UInt32) <<< 3
def csr9Di : UInt32 := (1 : UInt32) <<< 2
def csr9Sk : UInt32 := (1 : UInt32) <<< 0

/-! ### The pins -/

/-- The EEPROM behind `CSR9`: the level of its clock and its state. -/
structure Srom where
  sk : Bool
  state : State
  deriving DecidableEq

/-- A device that is not selected. -/
def Srom.deselected : Srom := ⟨false, .standby⟩

/-- A write to `CSR9`.  Deselecting the device ends its command. -/
def Srom.write (s : Srom) (val : UInt32) : Srom :=
  let sk := val &&& csr9Sk != 0
  if val &&& csr9Sr = 0 then ⟨sk, .standby⟩
  else if sk && !s.sk then ⟨sk, s.state.clock (val &&& csr9Di != 0)⟩
  else ⟨sk, s.state⟩

/-- A read of `CSR9`, of which only the data output is looked at. -/
def Srom.read (rom : ℕ → UInt16) (idle : Bool) (s : Srom) : UInt32 :=
  if s.state.out rom idle then csr9Do else 0

/-! ### `eeprom_read` and `read_mac` -/

/-- One command bit: data, clock up, clock down. -/
def sendBit (s : Srom) (bit : UInt32) : Srom :=
  let val := csr9Sr ||| csr9Rd ||| bit
  ((s.write val).write (val ||| csr9Sk)).write val

/-- The command bits from `i - 1` down. -/
def sendBits (cmd : UInt32) : ℕ → Srom → Srom
  | 0, s => s
  | i + 1, s =>
      sendBits cmd i (sendBit s (if cmd >>> UInt32.ofNat i &&& 1 ≠ 0 then csr9Di else 0))

def readBits (rom : ℕ → UInt16) (idle : Bool) : ℕ → UInt16 → Srom → UInt16 × Srom
  | 0, data, s => (data, s)
  | n + 1, data, s =>
      let s := (s.write (csr9Sr ||| csr9Rd)).write (csr9Sr ||| csr9Rd ||| csr9Sk)
      let val := s.read rom idle
      readBits rom idle n (data <<< 1 ||| if val &&& csr9Do ≠ 0 then 1 else 0)
        (s.write (csr9Sr ||| csr9Rd))

/-- The pin sequence of `eeprom_read` for a command of nine bits. -/
def eepromCommand (rom : ℕ → UInt16) (idle : Bool) (cmd : UInt32) (s : Srom) :
    Option UInt16 × Srom :=
  let r := readBits rom idle 16 0 (sendBits cmd 9 (s.write csr9Sr))
  (some r.1, r.2.write 0)

def eepromRead (rom : ℕ → UInt16) (idle : Bool) (addr : UInt8) (s : Srom) : Option UInt16 × Srom :=
  eepromCommand rom idle ((0x06 : UInt32) ||| addr.toUInt32 <<< 3) s

/-- The loop of `read_mac`: the bytes of the words at these addresses, low byte first. -/
def readWords (rom : ℕ → UInt16) (idle : Bool) : List UInt8 → Srom → Option (List UInt8) × Srom
  | [], s => (some [], s)
  | i :: rest, s =>
      match eepromRead rom idle i s with
      | (none, s) => (none, s)
      | (some word, s) =>
          let r := readWords rom idle rest s
          (r.1.map fun bytes => (word &&& 0xFF).toUInt8 :: (word >>> 8).toUInt8 :: bytes, r.2)

def readMac (rom : ℕ → UInt16) (idle : Bool) (s : Srom) : Option (List UInt8) × Srom :=
  let r := readWords rom idle [0, 1, 2] s
  (r.1.bind fun mac =>
    if mac = List.replicate 6 0 ∨ mac = List.replicate 6 0xFF then none else some mac, r.2)

/-! ### What the clocks collect -/

section

variable (rom : ℕ → UInt16) (idle : Bool)

/-- A bit enters the word from below. -/
theorem toNat_shiftIn (data : UInt16) (b : Bool) :
    (data <<< 1 ||| if b then 1 else 0).toNat = (data.toNat * 2 + b.toNat) % 2 ^ 16 := by
  have hlt := data.toNat_lt
  have hshift : (data <<< 1).toNat = (data.toNat % 2 ^ 15) <<< 1 := by
    rw [UInt16.toNat_shiftLeft, Nat.shiftLeft_eq, Nat.shiftLeft_eq]
    show data.toNat * 2 ^ 1 % 2 ^ 16 = _
    omega
  rw [UInt16.toNat_or, hshift]
  cases b with
  | false =>
    show _ ||| 0 = _
    rw [Nat.or_zero, Nat.shiftLeft_eq, Bool.toNat_false]
    omega
  | true =>
    show _ ||| 1 = _
    rw [← Nat.shiftLeft_add_eq_or_of_lt (by decide), Nat.shiftLeft_eq, Bool.toNat_true]
    omega

/-- Three writes are one clock of the device. -/
theorem read_clock (st : State) :
    let s := ((⟨false, st⟩ : Srom).write (csr9Sr ||| csr9Rd)).write (csr9Sr ||| csr9Rd ||| csr9Sk)
    s = ⟨true, st.clock false⟩ ∧ s.write (csr9Sr ||| csr9Rd) = ⟨false, st.clock false⟩ :=
  ⟨rfl, rfl⟩

theorem readBits_succ (n : ℕ) (data : UInt16) (st : State) :
    readBits rom idle (n + 1) data ⟨false, st⟩ =
      readBits rom idle n (data <<< 1 ||| if (st.clock false).out rom idle then 1 else 0)
        ⟨false, st.clock false⟩ := by
  obtain ⟨hup, hdown⟩ := read_clock st
  have hval : ∀ b : Bool, ((if b then csr9Do else 0) &&& csr9Do ≠ 0) ↔ b = true := by decide
  rw [readBits, hdown, hup]
  simp only [Srom.read, hval]

/-- **The word that the clocks collect** is the number that the device shows. -/
theorem readBits_toNat (n : ℕ) (data : UInt16) (st : State) :
    (readBits rom idle n data ⟨false, st⟩).1.toNat =
      (data.toNat * 2 ^ n + shown rom idle n st) % 2 ^ 16 := by
  induction n generalizing data st with
  | zero =>
    rw [readBits, shown, Nat.pow_zero, Nat.mul_one, Nat.add_zero, Nat.mod_eq_of_lt data.toNat_lt]
  | succ n ih =>
    rw [readBits_succ, ih, toNat_shiftIn, shown, Nat.pow_succ]
    generalize ((st.clock false).out rom idle).toNat = b
    -- the sum modulo `2 ^ 16` does not see where the word was cut off
    rw [Nat.add_mod, Nat.mod_mul_mod, ← Nat.add_mod]
    congr 1
    ring

/-- What the command leaves, the sixteen clocks show. -/
theorem eepromCommand_eq {cmd : UInt32} {st : State}
    (h : sendBits cmd 9 (Srom.deselected.write csr9Sr) = ⟨false, st⟩) :
    eepromCommand rom idle cmd .deselected =
      (some (UInt16.ofNat (shown rom idle 16 st)), .deselected) := by
  have hword : (readBits rom idle 16 0 ⟨false, st⟩).1 = UInt16.ofNat (shown rom idle 16 st) := by
    apply UInt16.toNat.inj
    rw [readBits_toNat, UInt16.toNat_ofNat', UInt16.toNat_zero, Nat.zero_mul, Nat.zero_add]
  rw [eepromCommand, h, hword]
  rfl

theorem ofNat_shown_data (a : ℕ) : UInt16.ofNat (shown rom idle 16 (.data a 0)) = rom a := by
  rw [shown_data (Nat.le_refl 16), Nat.sub_self, Nat.pow_zero, Nat.div_one,
    Nat.mod_eq_of_lt (rom a).toNat_lt, UInt16.ofNat_toNat]

end

/-! ### The commands -/

/-- **The device answers the standard command**: the bits `110` and then the address. -/
theorem eepromCommand_standard (rom : ℕ → UInt16) (idle : Bool) {addr : ℕ} (h : addr < 64) :
    eepromCommand rom idle (UInt32.ofNat (0x180 + addr)) .deselected =
      (some (rom addr), .deselected) := by
  have hsent : ∀ a : Fin 64, sendBits (UInt32.ofNat (0x180 + a)) 9
      (Srom.deselected.write csr9Sr) = ⟨false, .data a 0⟩ := by decide +kernel
  rw [eepromCommand_eq rom idle (hsent ⟨addr, h⟩), ofNat_shown_data]

/-- What the device makes of an address followed by `110`: the first 1 is the start bit,
and only with `10` behind it does the rest count as an address.  The result is the
address that it reads and the number of its bits that come from the clocks meant for
the data. -/
def answered (addr : ℕ) : Option (ℕ × ℕ) :=
  if addr / 8 = 6 then some (addr % 8 * 8 + 6, 0)
  else if addr / 4 = 6 then some (addr % 4 * 16 + 12, 1)
  else if addr / 2 = 6 then some (addr % 2 * 32 + 24, 2)
  else if addr = 6 then some (48, 3)
  else if addr = 0 then some (0, 6)
  else none

/-- The word that the driver gets to see. -/
def shownWord (rom : ℕ → UInt16) (idle : Bool) (addr : ℕ) : ℕ :=
  match answered addr with
  | some (a, k) => idleBits idle k * 2 ^ (16 - k) + (rom a).toNat / 2 ^ k
  | none => idleBits idle 16

/-- The state of the device after the command. -/
def heard : Option (ℕ × ℕ) → State
  | some (a, 0) => .data a 0
  | some (a, k + 1) => .address (k + 1) (a / 2 ^ (k + 1))
  | none => .ignoring

theorem sendBits_addr {addr : UInt8} (h : addr.toNat < 64) :
    sendBits ((0x06 : UInt32) ||| addr.toUInt32 <<< 3) 9 (Srom.deselected.write csr9Sr) =
      ⟨false, heard (answered addr.toNat)⟩ := by
  have hsent : ∀ a : Fin 64,
      sendBits ((0x06 : UInt32) ||| (UInt8.ofNat a).toUInt32 <<< 3) 9
        (Srom.deselected.write csr9Sr) = ⟨false, heard (answered a)⟩ := by decide +kernel
  simpa only [UInt8.ofNat_toNat] using hsent ⟨addr.toNat, h⟩

/-- An address ends with the zeros of the clocks meant for the data. -/
theorem answered_shift {addr : ℕ} (h : addr < 64) {a k : ℕ} (ha : answered addr = some (a, k)) :
    k ≤ 6 ∧ a / 2 ^ k * 2 ^ k = a := by
  have hall : ∀ n : Fin 64, ∀ r ∈ answered n, r.2 ≤ 6 ∧ r.1 / 2 ^ r.2 * 2 ^ r.2 = r.1 := by
    decide +kernel
  exact hall ⟨addr, h⟩ (a, k) ha

theorem shown_heard (rom : ℕ → UInt16) (idle : Bool) {addr : ℕ} (h : addr < 64) :
    shown rom idle 16 (heard (answered addr)) = shownWord rom idle addr := by
  unfold shownWord
  cases ha : answered addr with
  | none => exact shown_ignoring 16
  | some r =>
    obtain ⟨a, k⟩ := r
    obtain ⟨hk, hshift⟩ := answered_shift h ha
    have hlt : (rom a).toNat < 2 ^ 16 := (rom a).toNat_lt
    cases k with
    | zero =>
      rw [heard, shown_data (Nat.le_refl 16), Nat.mod_eq_of_lt]
      · cases idle <;> simp [idleBits]
      · simpa using hlt
    | succ k =>
      have hsum : k + 1 + (16 - (k + 1)) = 16 := by omega
      have hword : (rom a).toNat / 2 ^ (k + 1) < 2 ^ (16 - (k + 1)) := by
        rw [Nat.div_lt_iff_lt_mul (Nat.two_pow_pos _), ← Nat.pow_add, Nat.add_comm, hsum]
        exact hlt
      have hlast := @shown_address rom idle k (a / 2 ^ (k + 1)) (16 - (k + 1))
      rw [hsum, hshift, shown_data (by omega), show 16 - 0 - (16 - (k + 1)) = k + 1 by omega,
        Nat.mod_eq_of_lt hword] at hlast
      exact hlast

/-- **What `eeprom_read` returns** at every address. -/
theorem eepromRead_eq (rom : ℕ → UInt16) (idle : Bool) {addr : UInt8} (h : addr.toNat < 64) :
    eepromRead rom idle addr .deselected =
      (some (UInt16.ofNat (shownWord rom idle addr.toNat)), .deselected) := by
  rw [eepromRead, eepromCommand_eq rom idle (sendBits_addr h), shown_heard rom idle h]

/-! ### Reading the stored words -/

theorem eepromRead_eq_some_iff (rom : ℕ → UInt16) (idle : Bool) {addr : UInt8}
    (h : addr.toNat < 64) (w : UInt16) :
    (eepromRead rom idle addr .deselected).1 = some w ↔
      w.toNat = shownWord rom idle addr.toNat := by
  have hlt : shownWord rom idle addr.toNat < 2 ^ 16 := by
    rw [← shown_heard rom idle h]
    exact shown_lt 16 _
  have hnat : (UInt16.ofNat (shownWord rom idle addr.toNat)).toNat =
      shownWord rom idle addr.toNat := UInt16.toNat_ofNat_of_lt' hlt
  rw [eepromRead_eq rom idle h, Option.some_inj, ← UInt16.toNat_inj, hnat]
  exact eq_comm

/-- The word at `addr` has none of the idle bits, and all others have nothing else. -/
def contraryRom (idle : Bool) (addr : ℕ) : ℕ → UInt16 := fun i =>
  if decide (i = addr) = idle then 0 else 0xFFFF

theorem shownWord_contraryRom (idle : Bool) {addr : ℕ} (h : addr < 64) (hne : addr ≠ 54) :
    (contraryRom idle addr addr).toNat ≠ shownWord (contraryRom idle addr) idle addr := by
  have hall : ∀ (b : Bool) (a : Fin 64), (a : ℕ) ≠ 54 →
      (contraryRom b a a).toNat ≠ shownWord (contraryRom b a) b a := by decide +kernel
  exact hall idle ⟨addr, h⟩ hne

theorem shownWord_54 (rom : ℕ → UInt16) (idle : Bool) : shownWord rom idle 54 = (rom 54).toNat := by
  show idleBits idle 0 * 2 ^ 16 + (rom 54).toNat / 2 ^ 0 = _
  cases idle <;> simp [idleBits]

/-- The two bytes that `read_mac` takes from a word. -/
def wordBytes (word : UInt16) : List UInt8 := [(word &&& 0xFF).toUInt8, (word >>> 8).toUInt8]

/-- The six bytes of the words 0, 1 and 2. -/
def macBytes (rom : ℕ → UInt16) : List UInt8 :=
  wordBytes (rom 0) ++ wordBytes (rom 1) ++ wordBytes (rom 2)

theorem wordBytes_eq (word : UInt16) : wordBytes word = Bytes.le16 word := by
  have hlow : (word &&& 0xFF).toUInt8 = UInt8.ofNat word.toNat := by
    apply UInt8.toNat.inj
    rw [UInt16.toNat_toUInt8, UInt16.toNat_and, UInt8.toNat_ofNat']
    show (word.toNat &&& (2 ^ 8 - 1)) % 2 ^ 8 = word.toNat % 2 ^ 8
    rw [Nat.and_two_pow_sub_one_eq_mod, Nat.mod_mod]
  have hhigh : (word >>> 8).toUInt8 = UInt8.ofNat (word.toNat / 256) := by
    apply UInt8.toNat.inj
    rw [UInt16.toNat_toUInt8, UInt16.toNat_shiftRight, UInt8.toNat_ofNat']
    show (word.toNat >>> 8) % 2 ^ 8 = word.toNat / 256 % 2 ^ 8
    rw [Nat.shiftRight_eq_div_pow]
  rw [wordBytes, hlow, hhigh]
  rfl

theorem wordBytes_inj {v w : UInt16} (h : wordBytes v = wordBytes w) : v = w := by
  have hread : ∀ x : UInt16, Bytes.u16At (wordBytes x) 0 = x := by
    intro x
    rw [wordBytes_eq]
    exact Bytes.u16At_le16 (a := []) (b := []) rfl
  rw [← hread v, h, hread w]

theorem readWords_eq (rom : ℕ → UInt16) (idle : Bool) :
    readWords rom idle [0, 1, 2] .deselected =
      (some (macBytes fun i => UInt16.ofNat (shownWord rom idle i)), .deselected) := by
  have h0 := @eepromRead_eq rom idle 0 (by decide)
  have h1 := @eepromRead_eq rom idle 1 (by decide)
  have h2 := @eepromRead_eq rom idle 2 (by decide)
  simp only [readWords, h0, h1, h2]
  rfl

/-- Only a word of idle bits is shown as itself at address 0. -/
theorem eq_idleBits_of_shownWord_zero {rom : ℕ → UInt16} {idle : Bool}
    (h : (rom 0).toNat = shownWord rom idle 0) : (rom 0).toNat = idleBits idle 16 := by
  have hlt := (rom 0).toNat_lt
  have hzero : shownWord rom idle 0 = idleBits idle 6 * 2 ^ 10 + (rom 0).toNat / 2 ^ 6 := rfl
  rw [hzero] at h
  cases idle with
  | false =>
    have h6 : idleBits false 6 = 0 := rfl
    have h16 : idleBits false 16 = 0 := rfl
    omega
  | true =>
    have h6 : idleBits true 6 = 63 := rfl
    have h16 : idleBits true 16 = 65535 := rfl
    omega

/-- **`read_mac` never returns the stored MAC address**: the words 1 and 2 are shown as
idle bits, so the only stored address that would be shown as itself has nothing else,
and `read_mac` takes that for an empty EEPROM. -/
theorem readMac_ne (rom : ℕ → UInt16) (idle : Bool) :
    (readMac rom idle .deselected).1 ≠ some (macBytes rom) := by
  intro h
  rw [readMac, readWords_eq] at h
  dsimp only at h
  obtain ⟨mac, hmac, h⟩ := Option.bind_eq_some_iff.mp h
  obtain rfl := Option.some.inj hmac
  obtain ⟨hfilter, h⟩ := Option.ite_none_left_eq_some.mp h
  have hbytes := Option.some.inj h
  -- the bytes of each word are those of the word shown
  obtain ⟨h01, h2⟩ := List.append_inj' hbytes rfl
  obtain ⟨h0, h1⟩ := List.append_inj' h01 rfl
  have hword : ∀ i : UInt8, i.toNat < 64 → UInt16.ofNat (shownWord rom idle i.toNat) = rom i.toNat →
      (rom i.toNat).toNat = shownWord rom idle i.toNat := by
    intro i hi heq
    refine (eepromRead_eq_some_iff rom idle hi _).mp ?_
    rw [eepromRead_eq rom idle hi, heq]
  have hw0 : (rom 0).toNat = idleBits idle 16 :=
    eq_idleBits_of_shownWord_zero (hword 0 (by decide) (wordBytes_inj h0))
  have hw1 : (rom 1).toNat = idleBits idle 16 := hword 1 (by decide) (wordBytes_inj h1)
  have hw2 : (rom 2).toNat = idleBits idle 16 := hword 2 (by decide) (wordBytes_inj h2)
  refine hfilter ?_
  rw [hbytes]
  cases idle with
  | false =>
    left
    have hz : ∀ w : UInt16, w.toNat = 0 → w = 0 := fun w hw => UInt16.toNat.inj hw
    rw [macBytes, hz _ hw0, hz _ hw1, hz _ hw2]
    decide
  | true =>
    right
    have hz : ∀ w : UInt16, w.toNat = 65535 → w = 0xFFFF := fun w hw => UInt16.toNat.inj hw
    rw [macBytes, hz _ hw0, hz _ hw1, hz _ hw2]
    decide

/-- **Where `eeprom_read` returns the stored word**: whatever the EEPROM holds, at the
address 54 = `110110` only, which is the same before and after `110`; and for one
content, where the stored word happens to be the one that the device shows.  `read_mac`
never returns the stored MAC address. -/
theorem eepromRead_correct_iff (idle : Bool) {addr : UInt8} (h : addr.toNat < 64) :
    ((∀ rom, (eepromRead rom idle addr .deselected).1 = some (rom addr.toNat)) ↔
      addr.toNat = 54) ∧
    (∀ rom, (eepromRead rom idle addr .deselected).1 = some (rom addr.toNat) ↔
      (rom addr.toNat).toNat = shownWord rom idle addr.toNat) ∧
    ∀ rom, (readMac rom idle .deselected).1 ≠ some (macBytes rom) := by
  have hiff : ∀ rom, (eepromRead rom idle addr .deselected).1 = some (rom addr.toNat) ↔
      (rom addr.toNat).toNat = shownWord rom idle addr.toNat :=
    fun rom => eepromRead_eq_some_iff rom idle h _
  refine ⟨⟨fun hall => ?_, fun haddr rom => ?_⟩, hiff, fun rom => readMac_ne rom idle⟩
  · by_contra hne
    exact shownWord_contraryRom idle h hne ((hiff _).mp (hall _))
  · rw [hiff, haddr, shownWord_54]

/-- The MAC address 52:54:00:12:34:56. -/
def macRom : ℕ → UInt16 := fun i => if i = 0 then 0x5452 else if i = 1 then 0x1200 else 0x5634

/-- At address 54 the stored word is read. -/
theorem eepromRead_correct_54 :
    (eepromRead macRom true 54 .deselected).1 = some (macRom 54) ∧
      (readMac macRom true .deselected).1 ≠ some (macBytes macRom) := by
  have h := @eepromRead_correct_iff true 54 (by decide)
  exact ⟨h.1.mpr rfl macRom, h.2.2 macRom⟩

/-- **Other words than the stored ones**: the first MAC word is shown behind six idle
bits, the second not at all, and `read_mac` returns another address. -/
theorem eepromRead_wrong_word :
    (eepromRead macRom true 0 .deselected).1 = some 0xFD51 ∧ macRom 0 = 0x5452 ∧
    (eepromRead macRom true 1 .deselected).1 = some 0xFFFF ∧ macRom 1 = 0x1200 ∧
    (readMac macRom true .deselected).1 = some [0x51, 0xFD, 0xFF, 0xFF, 0xFF, 0xFF] ∧
    macBytes macRom = [0x52, 0x54, 0x00, 0x12, 0x34, 0x56] := by
  decide +kernel

end TulipEeprom
