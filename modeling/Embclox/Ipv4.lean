/-
Numbers and addresses on the kernel command line.

`parse_ipv4` splits its text at the dots and reads each part with the integer parser of
Rust, and `parse_ipv4_cidr` cuts off the prefix length at the first slash before that.

* `parseUnsigned_iff` — what the integer parser accepts: digits, after an optional plus;
* `parseIpv4_iff`, `parseIpv4Cidr_iff` — what the two parsers accept;
* `parse_exact_iff` — they accept plain dotted decimals and nothing else, exactly but for
  the texts with a plus; and they read every canonical text back.
-/
import Mathlib.Algebra.Group.Nat.Defs
import Mathlib.Data.List.Basic
import Mathlib.Tactic.Common

namespace Cmdline

/-- The characters of a string. -/
abbrev Str := List Char

/-! ### The integer parser -/

def toDigit (c : Char) : Option ℕ := if c.isDigit then some (c.toNat - '0'.toNat) else none

/-- An arithmetic result, unless it overflows. -/
def checked (max n : ℕ) : Option ℕ := if n ≤ max then some n else none

/-- The loop over the digits: `checked_mul`, the digit, `checked_add`. -/
def parseDigits (max : ℕ) : Str → ℕ → Option ℕ
  | [], n => some n
  | c :: cs, n => do
      let x ← toDigit c
      let n ← checked max (10 * n)
      let n ← checked max (n + x)
      parseDigits max cs n

/-- `parse` of an unsigned type with this maximum.  One plus may stand in front, but not
alone; a minus is no digit. -/
def parseUnsigned (max : ℕ) (s : Str) : Option ℕ :=
  if s = [] ∨ s = ['+'] ∨ s = ['-'] then none
  else parseDigits max (if s.head? = some '+' then s.tail else s) 0

def parseU8 (s : Str) : Option UInt8 := (parseUnsigned 255 s).map UInt8.ofNat

/-! ### Addresses -/

def parseIpv4 (s : Str) : Option (Vector UInt8 4) :=
  match s.splitOn '.' with
  | [a, b, c, d] => do
      let a ← parseU8 a
      let b ← parseU8 b
      let c ← parseU8 c
      let d ← parseU8 d
      some #v[a, b, c, d]
  | _ => none

/-- The text before the first occurrence of a character, and the text after it. -/
def splitOnce (c : Char) (s : Str) : Option (Str × Str) :=
  match s.dropWhile (· != c) with
  | [] => none
  | _ :: rest => some (s.takeWhile (· != c), rest)

def parseIpv4Cidr (s : Str) : Option (Vector UInt8 4 × UInt8) := do
  let (ipPart, prefixPart) ← splitOnce '/' s
  let ip ← parseIpv4 ipPart
  let prefixLen ← parseU8 prefixPart
  if prefixLen > 32 then none else some (ip, prefixLen)

/-! ### The grammar -/

/-- One or more decimal digits, and their value. -/
def Decimal (s : Str) (n : ℕ) : Prop :=
  s ≠ [] ∧ (∀ c ∈ s, c.isDigit = true) ∧ n = Nat.ofDigitChars 10 s 0

/-- The same after an optional plus. -/
def Signed (s : Str) (n : ℕ) : Prop := Decimal s n ∨ ∃ t, s = '+' :: t ∧ Decimal t n

/-- Four numbers with single dots between them, in a grammar of numbers. -/
def Ipv4Text (num : Str → ℕ → Prop) (s : Str) (ip : Vector UInt8 4) : Prop :=
  ∃ a b c d, s = a ++ '.' :: (b ++ '.' :: (c ++ '.' :: d)) ∧
    num a ip[0].toNat ∧ num b ip[1].toNat ∧ num c ip[2].toNat ∧ num d ip[3].toNat

/-- An address, a slash and a number up to 32. -/
def CidrText (num : Str → ℕ → Prop) (s : Str) (ip : Vector UInt8 4) (prefixLen : UInt8) :
    Prop :=
  ∃ t q, s = t ++ '/' :: q ∧ Ipv4Text num t ip ∧ num q prefixLen.toNat ∧ prefixLen ≤ 32

def Ipv4Exact (s : Str) : Prop := ∀ ip, parseIpv4 s = some ip ↔ Ipv4Text Decimal s ip

def CidrExact (s : Str) : Prop :=
  ∀ ip prefixLen, parseIpv4Cidr s = some (ip, prefixLen) ↔ CidrText Decimal s ip prefixLen

/-- The canonical text of a number, of an address and of an address with prefix length. -/
def decimalText (n : ℕ) : Str := Nat.toDigits 10 n

def ipv4Text (ip : Vector UInt8 4) : Str :=
  decimalText ip[0].toNat ++ '.' :: (decimalText ip[1].toNat ++ '.' ::
    (decimalText ip[2].toNat ++ '.' :: decimalText ip[3].toNat))

def cidrText (ip : Vector UInt8 4) (prefixLen : UInt8) : Str :=
  ipv4Text ip ++ '/' :: decimalText prefixLen.toNat

/-! ### What the integer parser accepts -/

variable {s t : Str} {n max : ℕ} {ip : Vector UInt8 4} {prefixLen : UInt8}

theorem toDigit_eq_some_iff {c : Char} {x : ℕ} :
    toDigit c = some x ↔ c.isDigit = true ∧ x = c.toNat - '0'.toNat := by
  unfold toDigit
  split
  · next h => simp [h, eq_comm]
  · next h => simp [h]

theorem checked_eq_some_iff {m : ℕ} : checked max n = some m ↔ n ≤ max ∧ m = n := by
  unfold checked
  split
  · next h => simp [h, eq_comm]
  · next h => simp [h]

theorem le_ofDigitChars (s : Str) (n : ℕ) : n ≤ Nat.ofDigitChars 10 s n := by
  induction s generalizing n with
  | nil => exact Nat.le_refl n
  | cons c s ih =>
    rw [Nat.ofDigitChars_cons]
    exact Nat.le_trans (by omega) (ih _)

/-- The loop reads the value of its digits; no step overflows unless the value does. -/
theorem parseDigits_iff {m : ℕ} (hn : n ≤ max) : parseDigits max s n = some m ↔
    (∀ c ∈ s, c.isDigit = true) ∧ m = Nat.ofDigitChars 10 s n ∧ m ≤ max := by
  induction s generalizing n with
  | nil =>
    simp only [parseDigits, Option.some_inj, Nat.ofDigitChars_nil]
    constructor
    · rintro rfl
      exact ⟨by simp, rfl, hn⟩
    · rintro ⟨-, rfl, -⟩
      rfl
  | cons c s ih =>
    simp only [parseDigits, Option.bind_eq_bind, Option.bind_eq_some_iff, toDigit_eq_some_iff,
      checked_eq_some_iff, Nat.ofDigitChars_cons, List.forall_mem_cons]
    constructor
    · rintro ⟨x, ⟨hc, rfl⟩, _, ⟨-, rfl⟩, _, ⟨hle, rfl⟩, h⟩
      obtain ⟨hs, hm, hmax⟩ := (ih hle).mp h
      exact ⟨⟨hc, hs⟩, hm, hmax⟩
    · rintro ⟨⟨hc, hs⟩, hm, hmax⟩
      have hle := le_ofDigitChars s (10 * n + (c.toNat - '0'.toNat))
      rw [← hm] at hle
      exact ⟨_, ⟨hc, rfl⟩, _, ⟨by omega, rfl⟩, _, ⟨by omega, rfl⟩,
        (ih (by omega)).mpr ⟨hs, hm, hmax⟩⟩

/-! #### Numbers -/

theorem Decimal.plus_notMem (h : Decimal s n) : '+' ∉ s := by
  intro hmem
  exact absurd (h.2.1 _ hmem) (by decide)

theorem decimal_decimalText (n : ℕ) : Decimal (decimalText n) n := by
  refine ⟨Nat.toDigits_ne_nil, ?_, (Nat.ofDigitChars_toDigits (by decide) (by decide)).symm⟩
  intro c hc
  exact Nat.isDigit_of_mem_toDigits (by decide) (by decide) hc

theorem signed_plus_iff : Signed ('+' :: t) n ↔ Decimal t n := by
  constructor
  · rintro (h | ⟨t', heq, h⟩)
    · exact absurd List.mem_cons_self h.plus_notMem
    · obtain rfl := List.tail_eq_of_cons_eq heq
      exact h
  · intro h
    exact .inr ⟨t, rfl, h⟩

theorem signed_iff_decimal (hhead : s.head? ≠ some '+') : Signed s n ↔ Decimal s n := by
  constructor
  · rintro (h | ⟨t, rfl, -⟩)
    · exact h
    · exact absurd rfl hhead
  · exact .inl

/-- Numbers contain neither dots nor slashes. -/
theorem Signed.notMem {c : Char} (hc : c ≠ '+') (hdigit : c.isDigit = false)
    (h : Signed s n) : c ∉ s := by
  have hdecimal : ∀ {t : Str}, Decimal t n → c ∉ t := by
    intro t h hmem
    exact absurd (h.2.1 c hmem) (by simp [hdigit])
  rcases h with h | ⟨t, rfl, h⟩
  · exact hdecimal h
  · intro hmem
    rcases List.mem_cons.mp hmem with rfl | hmem
    · exact hc rfl
    · exact hdecimal h hmem

theorem Signed.dot_notMem (h : Signed s n) : '.' ∉ s := h.notMem (by decide) (by decide)

theorem parseDigits_zero_iff (hs : s ≠ []) :
    parseDigits max s 0 = some n ↔ Decimal s n ∧ n ≤ max := by
  rw [parseDigits_iff (Nat.zero_le max), Decimal]
  constructor
  · rintro ⟨hdigit, hn, hle⟩
    exact ⟨⟨hs, hdigit, hn⟩, hle⟩
  · rintro ⟨⟨-, hdigit, hn⟩, hle⟩
    exact ⟨hdigit, hn, hle⟩

/-- Nothing, or a sign alone, is no number. -/
theorem not_signed (h : s = [] ∨ s = ['+'] ∨ s = ['-']) : ¬ Signed s n := by
  rcases h with rfl | rfl | rfl
  · rw [signed_iff_decimal (by simp)]
    exact fun h => h.1 rfl
  · rw [signed_plus_iff]
    exact fun h => h.1 rfl
  · exact fun h => h.notMem (c := '-') (by decide) (by decide) (by simp)

/-- **What the integer parser accepts**: digits, after an optional plus, with a value up
to the maximum. -/
theorem parseUnsigned_iff : parseUnsigned max s = some n ↔ Signed s n ∧ n ≤ max := by
  unfold parseUnsigned
  split
  · next h => exact iff_of_false (by simp) fun hsigned => not_signed h hsigned.1
  · next h =>
    split
    · next hplus =>
      obtain ⟨t, rfl⟩ := List.head?_eq_some_iff.mp hplus
      have ht : t ≠ [] := by
        rintro rfl
        exact h (.inr (.inl rfl))
      rw [List.tail_cons, parseDigits_zero_iff ht, signed_plus_iff]
    · next hplus =>
      rw [parseDigits_zero_iff fun hs => h (.inl hs), signed_iff_decimal hplus]

theorem parseU8_iff {x : UInt8} : parseU8 s = some x ↔ Signed s x.toNat := by
  rw [parseU8, Option.map_eq_some_iff]
  constructor
  · rintro ⟨n, hn, rfl⟩
    obtain ⟨hsigned, hle⟩ := parseUnsigned_iff.mp hn
    rwa [UInt8.toNat_ofNat', Nat.mod_eq_of_lt (by omega)]
  · intro h
    have hlt := x.toNat_lt
    exact ⟨x.toNat, parseUnsigned_iff.mpr ⟨h, by omega⟩, UInt8.ofNat_toNat⟩

/-! ### What the address parsers accept -/

theorem splitOnce_append {c : Char} {q : Str} (h : c ∉ t) :
    splitOnce c (t ++ c :: q) = some (t, q) := by
  have hall : ∀ x ∈ t, (x != c) = true := by
    intro x hx
    exact bne_iff_ne.mpr (by rintro rfl; exact h hx)
  have hdrop : (t ++ c :: q).dropWhile (· != c) = c :: q := by
    rw [List.dropWhile_append_of_pos hall]
    simp
  have htake : (t ++ c :: q).takeWhile (· != c) = t := by
    rw [List.takeWhile_append_of_pos hall]
    simp
  rw [splitOnce, hdrop, htake]

theorem eq_of_splitOnce {c : Char} {q : Str} (h : splitOnce c s = some (t, q)) :
    s = t ++ c :: q := by
  unfold splitOnce at h
  split at h
  · cases h
  · next x rest hdrop =>
    obtain ⟨rfl, rfl⟩ := Prod.mk.inj (Option.some_inj.mp h)
    have hx : x = c := by
      have := List.head?_dropWhile_not (· != c) s
      rw [hdrop] at this
      simpa using this
    subst hx
    rw [← hdrop, List.takeWhile_append_dropWhile]

theorem intercalate_dot (a b c d : Str) :
    ['.'].intercalate [a, b, c, d] = a ++ '.' :: (b ++ '.' :: (c ++ '.' :: d)) := by
  simp [List.intercalate]

theorem parseIpv4_iff : parseIpv4 s = some ip ↔ Ipv4Text Signed s ip := by
  constructor
  · intro h
    unfold parseIpv4 at h
    split at h
    · next a b c d hsplit =>
      simp only [Option.bind_eq_bind, Option.bind_eq_some_iff, parseU8_iff] at h
      obtain ⟨x, hx, y, hy, z, hz, w, hw, heq⟩ := h
      obtain rfl := Option.some_inj.mp heq
      refine ⟨a, b, c, d, ?_, hx, hy, hz, hw⟩
      rw [← intercalate_dot, ← hsplit, List.intercalate_splitOn]
    · cases h
  · rintro ⟨a, b, c, d, rfl, ha, hb, hc, hd⟩
    have hsplit : (a ++ '.' :: (b ++ '.' :: (c ++ '.' :: d))).splitOn '.' = [a, b, c, d] := by
      rw [← intercalate_dot]
      refine List.splitOn_intercalate '.' ?_ (by simp)
      simp [ha.dot_notMem, hb.dot_notMem, hc.dot_notMem, hd.dot_notMem]
    rw [parseIpv4, hsplit]
    simp only [parseU8_iff.mpr ha, parseU8_iff.mpr hb, parseU8_iff.mpr hc, parseU8_iff.mpr hd]
    refine congrArg some (Vector.ext fun i hi => ?_)
    have hcases : i = 0 ∨ i = 1 ∨ i = 2 ∨ i = 3 := by omega
    rcases hcases with rfl | rfl | rfl | rfl <;> rfl

/-- An address contains no slash. -/
theorem Ipv4Text.slash_notMem (h : Ipv4Text Signed s ip) : '/' ∉ s := by
  obtain ⟨a, b, c, d, rfl, ha, hb, hc, hd⟩ := h
  have hnum : ∀ {t : Str} {n : ℕ}, Signed t n → '/' ∉ t := by
    intro t n ht
    exact ht.notMem (by decide) (by decide)
  simp [hnum ha, hnum hb, hnum hc, hnum hd]

theorem parseIpv4Cidr_iff :
    parseIpv4Cidr s = some (ip, prefixLen) ↔ CidrText Signed s ip prefixLen := by
  constructor
  · intro h
    simp only [parseIpv4Cidr, Option.bind_eq_bind, Option.bind_eq_some_iff] at h
    obtain ⟨⟨t, q⟩, hsplit, ip', hip, p', hp, h⟩ := h
    split at h
    · cases h
    · next hle =>
      obtain ⟨rfl, rfl⟩ := Prod.mk.inj (Option.some_inj.mp h)
      exact ⟨t, q, eq_of_splitOnce hsplit, parseIpv4_iff.mp hip, parseU8_iff.mp hp,
        UInt8.not_lt.mp hle⟩
  · rintro ⟨t, q, rfl, hip, hp, hle⟩
    simp only [parseIpv4Cidr, splitOnce_append hip.slash_notMem, Option.bind_eq_bind,
      Option.bind_some, parseIpv4_iff.mpr hip, parseU8_iff.mpr hp]
    rw [if_neg (UInt8.not_lt.mpr hle)]

/-! ### Plain decimals -/

theorem Ipv4Text.mono {num num' : Str → ℕ → Prop} (h : Ipv4Text num s ip)
    (hnum : ∀ t n, (∀ c ∈ t, c ∈ s) → num t n → num' t n) : Ipv4Text num' s ip := by
  obtain ⟨a, b, c, d, rfl, ha, hb, hc, hd⟩ := h
  refine ⟨a, b, c, d, rfl, hnum _ _ ?_ ha, hnum _ _ ?_ hb, hnum _ _ ?_ hc, hnum _ _ ?_ hd⟩
  all_goals
    intro x hx
    simp [hx]

theorem CidrText.mono {num num' : Str → ℕ → Prop} (h : CidrText num s ip prefixLen)
    (hnum : ∀ t n, (∀ c ∈ t, c ∈ s) → num t n → num' t n) : CidrText num' s ip prefixLen := by
  obtain ⟨t, q, rfl, hip, hp, hle⟩ := h
  refine ⟨t, q, rfl, hip.mono ?_, hnum _ _ ?_ hp, hle⟩
  · intro t' n ht'
    exact hnum t' n fun c hc => List.mem_append_left _ (ht' c hc)
  · intro c hc
    simp [hc]

theorem Ipv4Text.plus_notMem (h : Ipv4Text Decimal s ip) : '+' ∉ s := by
  obtain ⟨a, b, c, d, rfl, ha, hb, hc, hd⟩ := h
  simp [ha.plus_notMem, hb.plus_notMem, hc.plus_notMem, hd.plus_notMem]

theorem CidrText.plus_notMem (h : CidrText Decimal s ip prefixLen) : '+' ∉ s := by
  obtain ⟨t, q, rfl, hip, hp, -⟩ := h
  simp [hip.plus_notMem, hp.plus_notMem]

/-- A part of a text without a plus is a plain number if it is a signed one. -/
theorem decimal_of_signed (hplus : '+' ∉ s) (t : Str) (n : ℕ) (ht : ∀ c ∈ t, c ∈ s)
    (h : Signed t n) : Decimal t n := by
  refine (signed_iff_decimal fun hhead => hplus (ht '+' ?_)).mp h
  exact List.mem_of_head? hhead

/-- If plain texts are accepted, and without a plus only those, then what is accepted is
exactly what is plain if and only if nothing with a plus is accepted. -/
theorem exact_iff {β : Type} {plus : Prop} {accepted plain : β → Prop}
    (hplain : ∀ x, plain x → accepted x) (hplus : ∀ x, plain x → ¬ plus)
    (haccepted : ¬ plus → ∀ x, accepted x → plain x) :
    (∀ x, accepted x ↔ plain x) ↔ (plus → ¬ ∃ x, accepted x) := by
  constructor
  · rintro h hp ⟨x, hx⟩
    exact hplus x ((h x).mp hx) hp
  · intro h x
    refine ⟨fun hx => ?_, hplain x⟩
    exact haccepted (fun hp => h hp ⟨x, hx⟩) x hx

theorem ipv4Exact_iff : Ipv4Exact s ↔ ('+' ∈ s → ¬ ∃ ip, Ipv4Text Signed s ip) := by
  simp only [Ipv4Exact, parseIpv4_iff]
  refine exact_iff ?_ ?_ ?_
  · intro ip h
    exact h.mono fun t n _ ht => .inl ht
  · intro ip h
    exact h.plus_notMem
  · intro hplus ip h
    exact h.mono (decimal_of_signed hplus)

theorem cidrExact_iff :
    CidrExact s ↔ ('+' ∈ s → ¬ ∃ x : Vector UInt8 4 × UInt8, CidrText Signed s x.1 x.2) := by
  have hpair : CidrExact s ↔
      ∀ x : Vector UInt8 4 × UInt8, CidrText Signed s x.1 x.2 ↔ CidrText Decimal s x.1 x.2 := by
    simp only [CidrExact, parseIpv4Cidr_iff, Prod.forall]
  rw [hpair]
  refine exact_iff ?_ ?_ ?_
  · intro x h
    exact h.mono fun t n _ ht => .inl ht
  · intro x h
    exact h.plus_notMem
  · intro hplus x h
    exact h.mono (decimal_of_signed hplus)

theorem ipv4Text_ipv4Text (ip : Vector UInt8 4) : Ipv4Text Signed (ipv4Text ip) ip :=
  ⟨_, _, _, _, rfl, .inl (decimal_decimalText _), .inl (decimal_decimalText _),
    .inl (decimal_decimalText _), .inl (decimal_decimalText _)⟩

/-- **Exactness of the address parsers.**  `parse_ipv4_cidr` and `parse_ipv4` accept the
plain texts of their grammar, with their values, and no others — exactly if the text is
not one with a plus in front of a number; and every canonical text is read back. -/
theorem parse_exact_iff (s : Str) (ip : Vector UInt8 4) (prefixLen : UInt8)
    (hle : prefixLen ≤ 32) :
    (CidrExact s ↔
      ('+' ∈ s → ¬ ∃ x : Vector UInt8 4 × UInt8, CidrText Signed s x.1 x.2)) ∧
    (Ipv4Exact s ↔ ('+' ∈ s → ¬ ∃ ip, Ipv4Text Signed s ip)) ∧
    parseIpv4Cidr (cidrText ip prefixLen) = some (ip, prefixLen) ∧
    parseIpv4 (ipv4Text ip) = some ip := by
  refine ⟨cidrExact_iff, ipv4Exact_iff, ?_, parseIpv4_iff.mpr (ipv4Text_ipv4Text ip)⟩
  exact parseIpv4Cidr_iff.mpr
    ⟨_, _, rfl, ipv4Text_ipv4Text ip, .inl (decimal_decimalText _), hle⟩

theorem parse_exact_iff_test_net :
    (24 : UInt8) ≤ 32 ∧ cidrText #v[192, 0, 2, 10] 24 = "192.0.2.10/24".toList ∧
    parseIpv4Cidr (cidrText #v[192, 0, 2, 10] 24) = some (#v[192, 0, 2, 10], 24) ∧
    CidrExact "192.0.2.10/024".toList := by
  have h := parse_exact_iff "192.0.2.10/024".toList #v[192, 0, 2, 10] 24 (by decide)
  exact ⟨by decide, by decide, h.2.2.1, h.1.mpr fun hplus => absurd hplus (by decide)⟩

/-- **A plus is accepted**: this text is none of the grammar. -/
theorem plus_accepted :
    parseIpv4Cidr "+1.2.3.4/24".toList = some (#v[1, 2, 3, 4], 24) ∧
    ¬ CidrText Decimal "+1.2.3.4/24".toList #v[1, 2, 3, 4] 24 ∧
    parseIpv4 "1.+2.3.4".toList = some #v[1, 2, 3, 4] ∧
    ¬ Ipv4Text Decimal "1.+2.3.4".toList #v[1, 2, 3, 4] :=
  ⟨by decide, fun h => absurd h.plus_notMem (by decide), by decide,
    fun h => absurd h.plus_notMem (by decide)⟩

end Cmdline
