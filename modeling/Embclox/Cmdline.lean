/-
The kernel command line.

The three parsers of `cmdline.rs` go over the same words of one text with three rules:
`parse_net_mode` and the `cpus=` part of `parse_smp` keep the last token of a kind, the
`smp=` part looks whether there is one, and `parse_nic_filter` takes the first.

* `parseNetMode_eq`, `parseSmp_eq` — the loops, in terms of the last match;
* `NetModeSpec`, `SmpSpec`, `NicFilterSpec` — what is read, in terms of the tokens;
* `Ignores` — what is read depends on nothing but the tokens of the parser's own kinds.
-/
import Embclox.Ipv4
import Embclox.Words

open Words

namespace Cmdline

/-! ### Tokens -/

/-- `u8::is_ascii_whitespace`. -/
def isAsciiWhitespace (c : Char) : Bool :=
  c == ' ' || c == '\t' || c == '\n' || c == '\x0c' || c == '\r'

def splitAsciiWhitespace (s : Str) : List Str := words isAsciiWhitespace s

def stripPrefix (key tok : Str) : Option Str := key.isPrefixOf? tok

def eqIgnoreAsciiCase (s t : Str) : Bool := s.map Char.toLower == t.map Char.toLower

def netKey : Str := "net=".toList

def ipKey : Str := "ip=".toList

def gwKey : Str := "gw=".toList

def nicKey : Str := "nic=".toList

def smpKey : Str := "smp=".toList

def cpusKey : Str := "cpus=".toList

/-! ### `parse_net_mode` -/

inductive NetMode
  | dhcp
  | static (ip : Vector UInt8 4) (prefixLen : UInt8) (gw : Vector UInt8 4)
  deriving DecidableEq

structure StaticDefaults where
  ip : Vector UInt8 4
  prefixLen : UInt8
  gw : Vector UInt8 4

/-- The variables of the loop. -/
structure NetTokens where
  mode : Str
  ipCidr : Option Str
  gw : Option Str

def NetTokens.next (v : NetTokens) (tok : Str) : NetTokens :=
  match stripPrefix netKey tok with
  | some rest => { v with mode := rest }
  | none =>
    match stripPrefix ipKey tok with
    | some rest => { v with ipCidr := some rest }
    | none =>
      match stripPrefix gwKey tok with
      | some rest => { v with gw := some rest }
      | none => v

def netTokens (cmdline : Str) : NetTokens :=
  (splitAsciiWhitespace cmdline).foldl NetTokens.next ⟨"static".toList, none, none⟩

def parseNetMode (cmdline : Str) (defaults : StaticDefaults) : NetMode :=
  let v := netTokens cmdline
  if eqIgnoreAsciiCase v.mode "dhcp".toList then .dhcp
  else
    let (ip, prefixLen) := (v.ipCidr.bind parseIpv4Cidr).getD (defaults.ip, defaults.prefixLen)
    let gw := (v.gw.bind parseIpv4).getD defaults.gw
    .static ip prefixLen gw

/-! ### `parse_nic_filter` and `parse_smp` -/

def parseNicFilter (cmdline : Str) : Option Str :=
  ((splitAsciiWhitespace cmdline).findSome? (stripPrefix nicKey)).filter fun s => !s.isEmpty

structure SmpConfig where
  enabled : Bool
  maxAps : Option ℕ
  deriving DecidableEq

def SmpConfig.disabled : SmpConfig := ⟨false, none⟩

def usizeMax : ℕ := 2 ^ 64 - 1

def SmpConfig.next (v : SmpConfig) (tok : Str) : SmpConfig :=
  match stripPrefix smpKey tok with
  | some rest => if eqIgnoreAsciiCase rest "on".toList then { v with enabled := true } else v
  | none =>
    match stripPrefix cpusKey tok with
    | some rest =>
      match parseUnsigned usizeMax rest with
      | some n => if n > 0 then { v with maxAps := some (n - 1) } else v
      | none => v
    | none => v

def parseSmp (cmdline : Str) : SmpConfig :=
  (splitAsciiWhitespace cmdline).foldl SmpConfig.next .disabled

/-! ### What is read -/

/-- The last token of a kind, and its value. -/
def IsLast (key : Str) (value : Str) (toks : List Str) : Prop :=
  ∃ before after, toks = before ++ (key ++ value) :: after ∧ ∀ tok ∈ after, ¬ key <+: tok

/-- What an option with a default gives: the value of the last token of its kind if that
can be parsed. -/
def Reads {β : Type} (key : Str) (parse : Str → Option β) (default x : β) (toks : List Str) :
    Prop :=
  (∃ value, IsLast key value toks ∧ parse value = some x) ∨
    (∀ value, IsLast key value toks → parse value = none) ∧ x = default

structure NetModeSpec (toks : List Str) (defaults : StaticDefaults) (mode : NetMode) :
    Prop where
  dhcp : mode = .dhcp ↔
    ∃ value, IsLast netKey value toks ∧ eqIgnoreAsciiCase value "dhcp".toList = true
  static : mode ≠ .dhcp → ∃ ip prefixLen gw, mode = .static ip prefixLen gw ∧
    Reads ipKey parseIpv4Cidr (defaults.ip, defaults.prefixLen) (ip, prefixLen) toks ∧
    Reads gwKey parseIpv4 defaults.gw gw toks

/-- A token `cpus=n` with a valid `n` that is not 0. -/
def CpusToken (tok : Str) (n : ℕ) : Prop :=
  ∃ value, tok = cpusKey ++ value ∧ Signed value n ∧ n < 2 ^ 64 ∧ 0 < n

structure SmpSpec (toks : List Str) (config : SmpConfig) : Prop where
  enabled : config.enabled = true ↔
    ∃ value, smpKey ++ value ∈ toks ∧ eqIgnoreAsciiCase value "on".toList = true
  maxAps : ∀ m, config.maxAps = some m ↔ ∃ before tok after n,
    toks = before ++ tok :: after ∧ CpusToken tok n ∧ m = n - 1 ∧
      ∀ tok' ∈ after, ∀ n', ¬ CpusToken tok' n'

/-- The value of the first token of its kind, unless that is empty. -/
def NicFilterSpec (toks : List Str) (name : Option Str) : Prop :=
  ∀ value, name = some value ↔ value ≠ [] ∧ ∃ before after,
    toks = before ++ (nicKey ++ value) :: after ∧ ∀ tok ∈ before, ¬ nicKey <+: tok

/-- Is this a token of one of these kinds? -/
def ofKinds (keys : List Str) (tok : Str) : Bool := keys.any fun key => key.isPrefixOf tok

/-- What is read does not depend on tokens of other kinds. -/
structure Ignores {β : Type} (keys : List Str) (parse : Str → β) : Prop where
  /-- Texts with the same tokens of these kinds, in the same order, read the same. -/
  tokens : ∀ s s' : Str,
    (splitAsciiWhitespace s).filter (ofKinds keys) =
      (splitAsciiWhitespace s').filter (ofKinds keys) → parse s = parse s'
  /-- A token of another kind can be put in or left out. -/
  insert : ∀ (a b tok : Str) (c c' : Char), isAsciiWhitespace c = true →
    isAsciiWhitespace c' = true → (∀ x ∈ tok, isAsciiWhitespace x = false) → tok ≠ [] →
    (∀ key ∈ keys, ¬ key <+: tok) → parse (a ++ c :: (tok ++ c' :: b)) = parse (a ++ c :: b)

/-! ### Tokens and their values -/

variable {key key' tok value : Str} {toks : List Str}

theorem stripPrefix_eq_some_iff : stripPrefix key tok = some value ↔ tok = key ++ value := by
  rw [stripPrefix, List.isPrefixOf?_eq_some_iff_append_eq]
  exact eq_comm

theorem stripPrefix_eq_none_iff : stripPrefix key tok = none ↔ ¬ key <+: tok := by
  rw [Option.eq_none_iff_forall_ne_some]
  constructor
  · rintro h ⟨value, rfl⟩
    exact h value (stripPrefix_eq_some_iff.mpr rfl)
  · rintro h value hvalue
    exact h ⟨value, (stripPrefix_eq_some_iff.mp hvalue).symm⟩

/-- A token is of one kind only. -/
theorem stripPrefix_exclusive (h : ¬ key <+: key') (h' : ¬ key' <+: key)
    (hkey : stripPrefix key tok = some value) : stripPrefix key' tok = none := by
  rw [stripPrefix_eq_none_iff]
  intro hkey'
  have hpre : key <+: tok := ⟨value, (stripPrefix_eq_some_iff.mp hkey).symm⟩
  rcases List.prefix_or_prefix_of_prefix hpre hkey' with hp | hp
  · exact h hp
  · exact h' hp

theorem isLast_iff : IsLast key value toks ↔ lastMatch (stripPrefix key) toks = some value := by
  rw [lastMatch_eq_some_iff]
  constructor
  · rintro ⟨before, after, htoks, hafter⟩
    exact ⟨before, key ++ value, after, htoks, stripPrefix_eq_some_iff.mpr rfl,
      fun tok htok => stripPrefix_eq_none_iff.mpr (hafter tok htok)⟩
  · rintro ⟨before, tok, after, htoks, htok, hafter⟩
    rw [stripPrefix_eq_some_iff.mp htok] at htoks
    exact ⟨before, after, htoks, fun tok htok => stripPrefix_eq_none_iff.mp (hafter tok htok)⟩

theorem reads_lastMatch {β : Type} (parse : Str → Option β) (default : β) :
    Reads key parse default (((lastMatch (stripPrefix key) toks).bind parse).getD default)
      toks := by
  simp only [Reads, isLast_iff]
  cases hlast : lastMatch (stripPrefix key) toks with
  | none => exact .inr ⟨by simp, rfl⟩
  | some value =>
    cases hparse : parse value with
    | none =>
      refine .inr ⟨?_, by simp [hparse]⟩
      rintro value' h
      obtain rfl := Option.some_inj.mp h
      exact hparse
    | some x => exact .inl ⟨value, rfl, by simp [hparse]⟩

/-! ### The loops -/

theorem next_mode (v : NetTokens) (tok : Str) :
    (v.next tok).mode = (stripPrefix netKey tok).getD v.mode := by
  unfold NetTokens.next
  split
  · next h => rw [h]; rfl
  · next h =>
    rw [h]
    split
    · rfl
    · split <;> rfl

theorem next_ipCidr (v : NetTokens) (tok : Str) :
    (v.next tok).ipCidr = (stripPrefix ipKey tok).or v.ipCidr := by
  unfold NetTokens.next
  split
  · next h =>
    rw [stripPrefix_exclusive (by decide) (by decide) h]
    rfl
  · split
    · next h => rw [h]; rfl
    · next h =>
      rw [h]
      split <;> rfl

theorem next_gw (v : NetTokens) (tok : Str) :
    (v.next tok).gw = (stripPrefix gwKey tok).or v.gw := by
  unfold NetTokens.next
  split
  · next h =>
    rw [stripPrefix_exclusive (by decide) (by decide) h]
    rfl
  · split
    · next h =>
      rw [stripPrefix_exclusive (by decide) (by decide) h]
      rfl
    · split
      · next h => rw [h]; rfl
      · next h => rw [h]; rfl

theorem foldl_next (toks : List Str) (v : NetTokens) :
    toks.foldl NetTokens.next v =
      ⟨(lastMatch (stripPrefix netKey) toks).getD v.mode,
        (lastMatch (stripPrefix ipKey) toks).or v.ipCidr,
        (lastMatch (stripPrefix gwKey) toks).or v.gw⟩ := by
  -- Each variable is overwritten on its own.
  have hmode : toks.foldl (fun mode tok => (stripPrefix netKey tok).getD mode) v.mode =
      (toks.foldl NetTokens.next v).mode :=
    List.foldl_hom NetTokens.mode fun v tok => (next_mode v tok).symm
  have hip : toks.foldl (fun ip tok => (stripPrefix ipKey tok).or ip) v.ipCidr =
      (toks.foldl NetTokens.next v).ipCidr :=
    List.foldl_hom NetTokens.ipCidr fun v tok => (next_ipCidr v tok).symm
  have hgw : toks.foldl (fun gw tok => (stripPrefix gwKey tok).or gw) v.gw =
      (toks.foldl NetTokens.next v).gw :=
    List.foldl_hom NetTokens.gw fun v tok => (next_gw v tok).symm
  rw [← foldl_getD, ← foldl_or, ← foldl_or, hmode, hip, hgw]

/-- What `parse_net_mode` makes of the last tokens of its three kinds. -/
def netModeOf (defaults : StaticDefaults) (net ip gw : Option Str) : NetMode :=
  if eqIgnoreAsciiCase (net.getD "static".toList) "dhcp".toList then .dhcp
  else
    .static ((ip.bind parseIpv4Cidr).getD (defaults.ip, defaults.prefixLen)).1
      ((ip.bind parseIpv4Cidr).getD (defaults.ip, defaults.prefixLen)).2
      ((gw.bind parseIpv4).getD defaults.gw)

theorem parseNetMode_eq (s : Str) (defaults : StaticDefaults) :
    parseNetMode s defaults =
      netModeOf defaults (lastMatch (stripPrefix netKey) (splitAsciiWhitespace s))
        (lastMatch (stripPrefix ipKey) (splitAsciiWhitespace s))
        (lastMatch (stripPrefix gwKey) (splitAsciiWhitespace s)) := by
  simp only [parseNetMode, netTokens, foldl_next, Option.or_none, netModeOf]

/-- The number of APs of a `cpus=` token. -/
def cpusValue (tok : Str) : Option ℕ := do
  let rest ← stripPrefix cpusKey tok
  let n ← parseUnsigned usizeMax rest
  if n > 0 then some (n - 1) else none

/-- Is this `smp=on`? -/
def smpOn (tok : Str) : Bool :=
  (stripPrefix smpKey tok).any fun rest => eqIgnoreAsciiCase rest "on".toList

theorem next_enabled (v : SmpConfig) (tok : Str) :
    (v.next tok).enabled = (v.enabled || smpOn tok) := by
  unfold SmpConfig.next smpOn
  split
  · next rest h =>
    rw [h, Option.any_some]
    split
    · next hon => rw [hon, Bool.or_true]
    · next hon => rw [Bool.not_eq_true _ |>.mp hon, Bool.or_false]
  · next h =>
    rw [h]
    split
    · split
      · split <;> simp
      · simp
    · simp

theorem next_maxAps (v : SmpConfig) (tok : Str) :
    (v.next tok).maxAps = (cpusValue tok).or v.maxAps := by
  unfold SmpConfig.next cpusValue
  split
  · next rest h =>
    rw [stripPrefix_exclusive (by decide) (by decide) h]
    split <;> rfl
  · split
    · next rest h =>
      rw [h]
      split
      · next n hn =>
        simp only [Option.bind_eq_bind, Option.bind_some, hn]
        split <;> rfl
      · next hn => simp [hn]
    · next h => simp [h]

theorem foldl_or_any (p : Str → Bool) (toks : List Str) (b : Bool) :
    toks.foldl (fun b tok => b || p tok) b = (b || toks.any p) := by
  induction toks generalizing b with
  | nil => simp
  | cons tok toks ih => rw [List.foldl_cons, ih, List.any_cons, Bool.or_assoc]

theorem parseSmp_eq (s : Str) :
    parseSmp s =
      ⟨(splitAsciiWhitespace s).any smpOn, lastMatch cpusValue (splitAsciiWhitespace s)⟩ := by
  generalize htoks : splitAsciiWhitespace s = toks
  have henabled : toks.foldl (fun b tok => b || smpOn tok) SmpConfig.disabled.enabled =
      (toks.foldl SmpConfig.next .disabled).enabled :=
    List.foldl_hom SmpConfig.enabled fun v tok => (next_enabled v tok).symm
  have hmaxAps : toks.foldl (fun m tok => (cpusValue tok).or m) SmpConfig.disabled.maxAps =
      (toks.foldl SmpConfig.next .disabled).maxAps :=
    List.foldl_hom SmpConfig.maxAps fun v tok => (next_maxAps v tok).symm
  rw [foldl_or_any, SmpConfig.disabled, Bool.false_or] at henabled
  rw [foldl_or, SmpConfig.disabled, Option.or_none] at hmaxAps
  rw [parseSmp, htoks, SmpConfig.disabled, henabled, hmaxAps]

/-! ### What the parsers read -/

theorem netModeSpec (s : Str) (defaults : StaticDefaults) :
    NetModeSpec (splitAsciiWhitespace s) defaults (parseNetMode s defaults) := by
  have hdhcp : parseNetMode s defaults = .dhcp ↔ ∃ value,
      IsLast netKey value (splitAsciiWhitespace s) ∧
      eqIgnoreAsciiCase value "dhcp".toList = true := by
    rw [parseNetMode_eq, netModeOf]
    simp only [isLast_iff]
    cases lastMatch (stripPrefix netKey) (splitAsciiWhitespace s) with
    | none =>
      -- Without a token the mode is `static`.
      have hstatic : eqIgnoreAsciiCase "static".toList "dhcp".toList = false := by decide
      rw [Option.getD_none, hstatic]
      simp
    | some value => simp
  refine ⟨hdhcp, fun hne => ?_⟩
  rw [parseNetMode_eq, netModeOf] at hne ⊢
  split at hne
  · exact absurd rfl hne
  · next hmode =>
    rw [if_neg hmode]
    exact ⟨_, _, _, rfl, reads_lastMatch _ _, reads_lastMatch _ _⟩

theorem cpusValue_eq_some_iff {m : ℕ} :
    cpusValue tok = some m ↔ ∃ n, CpusToken tok n ∧ m = n - 1 := by
  simp only [cpusValue, Option.bind_eq_bind, Option.bind_eq_some_iff, stripPrefix_eq_some_iff,
    parseUnsigned_iff]
  constructor
  · rintro ⟨value, htok, n, ⟨hsigned, hmax⟩, h⟩
    split at h
    · next hpos =>
      refine ⟨n, ⟨value, htok, hsigned, ?_, hpos⟩, (Option.some_inj.mp h).symm⟩
      unfold usizeMax at hmax
      omega
    · cases h
  · rintro ⟨n, ⟨value, htok, hsigned, hmax, hpos⟩, rfl⟩
    refine ⟨value, htok, n, ⟨hsigned, ?_⟩, if_pos hpos⟩
    unfold usizeMax
    omega

theorem cpusValue_eq_none_iff : cpusValue tok = none ↔ ∀ n, ¬ CpusToken tok n := by
  rw [Option.eq_none_iff_forall_ne_some]
  constructor
  · intro h n hn
    exact h (n - 1) (cpusValue_eq_some_iff.mpr ⟨n, hn, rfl⟩)
  · intro h m hm
    obtain ⟨n, hn, -⟩ := cpusValue_eq_some_iff.mp hm
    exact h n hn

theorem smpSpec (s : Str) : SmpSpec (splitAsciiWhitespace s) (parseSmp s) := by
  rw [parseSmp_eq]
  constructor
  · show (splitAsciiWhitespace s).any smpOn = true ↔ _
    rw [List.any_eq_true]
    constructor
    · rintro ⟨tok, htok, hon⟩
      obtain ⟨value, hvalue, hon⟩ := (Option.any_eq_true _ _).mp hon
      rw [stripPrefix_eq_some_iff.mp hvalue] at htok
      exact ⟨value, htok, hon⟩
    · rintro ⟨value, htok, hon⟩
      refine ⟨_, htok, ?_⟩
      rw [smpOn, stripPrefix_eq_some_iff.mpr rfl]
      exact hon
  · intro m
    show lastMatch cpusValue (splitAsciiWhitespace s) = some m ↔ _
    rw [lastMatch_eq_some_iff]
    constructor
    · rintro ⟨before, tok, after, htoks, htok, hafter⟩
      obtain ⟨n, hn, rfl⟩ := cpusValue_eq_some_iff.mp htok
      exact ⟨before, tok, after, n, htoks, hn, rfl,
        fun tok' htok' => cpusValue_eq_none_iff.mp (hafter tok' htok')⟩
    · rintro ⟨before, tok, after, n, htoks, hn, rfl, hafter⟩
      exact ⟨before, tok, after, htoks, cpusValue_eq_some_iff.mpr ⟨n, hn, rfl⟩,
        fun tok' htok' => cpusValue_eq_none_iff.mpr (hafter tok' htok')⟩

theorem nicFilterSpec (s : Str) : NicFilterSpec (splitAsciiWhitespace s) (parseNicFilter s) := by
  intro value
  rw [parseNicFilter, Option.filter_eq_some_iff, List.findSome?_eq_some_iff]
  constructor
  · rintro ⟨⟨before, tok, after, htoks, htok, hbefore⟩, hne⟩
    rw [stripPrefix_eq_some_iff.mp htok] at htoks
    exact ⟨by simpa using hne, before, after, htoks,
      fun tok' htok' => stripPrefix_eq_none_iff.mp (hbefore tok' htok')⟩
  · rintro ⟨hne, before, after, htoks, hbefore⟩
    exact ⟨⟨before, _, after, htoks, stripPrefix_eq_some_iff.mpr rfl,
      fun tok' htok' => stripPrefix_eq_none_iff.mpr (hbefore tok' htok')⟩, by simpa using hne⟩

/-! ### Tokens of other kinds -/

theorem ofKinds_eq_false_iff {keys : List Str} :
    ofKinds keys tok = false ↔ ∀ key ∈ keys, ¬ key <+: tok := by
  simp only [ofKinds, List.any_eq_false, List.isPrefixOf_iff_prefix]

theorem stripPrefix_of_ofKinds {keys : List Str} (hkey : key ∈ keys) (tok : Str)
    (h : ofKinds keys tok = false) : stripPrefix key tok = none :=
  stripPrefix_eq_none_iff.mpr (ofKinds_eq_false_iff.mp h key hkey)

/-- A parser of tokens that can do without those of other kinds ignores them in the
text. -/
theorem Ignores.of_filter {β : Type} {keys : List Str} {parse : Str → β} (g : List Str → β)
    (hparse : ∀ s, parse s = g (splitAsciiWhitespace s))
    (hfilter : ∀ toks, g (toks.filter (ofKinds keys)) = g toks) : Ignores keys parse := by
  have htokens : ∀ s s' : Str,
      (splitAsciiWhitespace s).filter (ofKinds keys) =
        (splitAsciiWhitespace s').filter (ofKinds keys) → parse s = parse s' := by
    intro s s' h
    rw [hparse, hparse, ← hfilter, h, hfilter]
  refine ⟨htokens, ?_⟩
  intro a b tok c c' hc hc' htok hne hkeys
  apply htokens
  have hother : ofKinds keys tok = false := ofKinds_eq_false_iff.mpr hkeys
  rw [splitAsciiWhitespace, splitAsciiWhitespace, words_insert hc hc' htok hne,
    words_append_cons hc, List.filter_append, List.filter_append,
    List.filter_cons_of_neg (by simp [hother])]

theorem ignores_parseNetMode (defaults : StaticDefaults) :
    Ignores [netKey, ipKey, gwKey] fun s => parseNetMode s defaults := by
  refine Ignores.of_filter
    (fun toks => netModeOf defaults (lastMatch (stripPrefix netKey) toks)
      (lastMatch (stripPrefix ipKey) toks) (lastMatch (stripPrefix gwKey) toks))
    (fun s => parseNetMode_eq s defaults) fun toks => ?_
  have hlast : ∀ key ∈ [netKey, ipKey, gwKey],
      lastMatch (stripPrefix key) (toks.filter (ofKinds [netKey, ipKey, gwKey])) =
        lastMatch (stripPrefix key) toks :=
    fun key hkey => lastMatch_filter (stripPrefix_of_ofKinds hkey) toks
  rw [hlast netKey (by simp), hlast ipKey (by simp), hlast gwKey (by simp)]

theorem ignores_parseSmp : Ignores [smpKey, cpusKey] parseSmp := by
  refine Ignores.of_filter (fun toks => ⟨toks.any smpOn, lastMatch cpusValue toks⟩)
    parseSmp_eq fun toks => ?_
  have hany : (toks.filter (ofKinds [smpKey, cpusKey])).any smpOn = toks.any smpOn := by
    rw [List.any_filter]
    congr 1
    funext tok
    cases h : ofKinds [smpKey, cpusKey] tok with
    | true => rfl
    | false =>
      have hnone : stripPrefix smpKey tok = none := stripPrefix_of_ofKinds (by simp) tok h
      simp [smpOn, hnone]
  have hlast : lastMatch cpusValue (toks.filter (ofKinds [smpKey, cpusKey])) =
      lastMatch cpusValue toks := by
    refine lastMatch_filter (fun tok h => ?_) toks
    rw [cpusValue, stripPrefix_of_ofKinds (by simp) tok h]
    rfl
  rw [hany, hlast]

theorem ignores_parseNicFilter : Ignores [nicKey] parseNicFilter := by
  refine Ignores.of_filter
    (fun toks => (toks.findSome? (stripPrefix nicKey)).filter fun s => !s.isEmpty)
    (fun _ => rfl) fun toks => ?_
  rw [findSome?_filter (stripPrefix_of_ofKinds (by simp))]

end Cmdline
