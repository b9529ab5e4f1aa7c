/-
`parse_rndis_response` on data that the host controls.

Every index and every slice of the source is a checked access here: an access out of
range is a panic, which the parser returns as `none`.  Slices are kept as positions
in the input.

* `read_parseRndisChecked` — the checked parser computes `parseRndisResponse`;
* `parseSafe_iff` — the parser returns, with slices inside the input, exactly when
  the message is shorter than its header or its length field covers the header;
* `parse_panics_on_short_length` — a length field below 8 makes it panic.
-/
import Embclox.Nvsp

open Bytes

namespace Nvsp

/-! ### Checked access -/

/-- The part of the input with `len` bytes from `start` on. -/
structure Span where
  start : ℕ
  len : ℕ
  deriving DecidableEq

namespace Span

def bytes (data : List UInt8) (s : Span) : List UInt8 := (data.drop s.start).take s.len

/-- The whole input. -/
def all (data : List UInt8) : Span := ⟨0, data.length⟩

/-- `&s[a..b]` -/
def slice (s : Span) (a b : ℕ) : Option Span :=
  if a ≤ b ∧ b ≤ s.len then some ⟨s.start + a, b - a⟩ else none

/-- The word at `off`. -/
def u32 (data : List UInt8) (s : Span) (off : ℕ) : Option UInt32 :=
  if off + 4 ≤ s.len then some (u32At data (s.start + off)) else none

/-- The part lies inside the input. -/
def Inside (data : List UInt8) (s : Span) : Prop := s.start + s.len ≤ data.length

end Span

/-- An `RndisResponse` with the positions of its slices. -/
inductive RndisParts
  | initComplete (reqId status majorVer minorVer maxPktPerMsg maxXferSize
      pktAlignmentFactor : UInt32)
  | queryComplete (reqId status : UInt32) (info : Span)
  | setComplete (reqId status : UInt32)
  | keepAlive (reqId : UInt32)
  | keepAliveComplete (reqId status : UInt32)
  | indicate (status : UInt32) (statusBuf : Span)
  | packet (dataOffset dataLen : UInt32) (raw : Span)
  | unknown (msgType : UInt32)

/-- The slices of a response. -/
def RndisParts.spans : RndisParts → List Span
  | .queryComplete _ _ info => [info]
  | .indicate _ statusBuf => [statusBuf]
  | .packet _ _ raw => [raw]
  | _ => []

/-- The response with the bytes of its slices. -/
def RndisParts.read (data : List UInt8) : RndisParts → RndisResponse
  | .initComplete a b c d e f g => .initComplete a b c d e f g
  | .queryComplete reqId status info => .queryComplete reqId status (info.bytes data)
  | .setComplete reqId status => .setComplete reqId status
  | .keepAlive reqId => .keepAlive reqId
  | .keepAliveComplete reqId status => .keepAliveComplete reqId status
  | .indicate status statusBuf => .indicate status (statusBuf.bytes data)
  | .packet dataOffset dataLen raw => .packet dataOffset dataLen (raw.bytes data)
  | .unknown msgType => .unknown msgType

/-! ### The parser -/

/-- `cast_ref`, and then the fields of the struct. -/
def castChecked (size : ℕ) (body : Span) (fields : Option RndisParts) :
    Option (Option RndisParts) :=
  if body.len < size then some none else fields.map some

/-- The slice of an offset and a length field, or `&[]`. -/
def infoChecked (body : Span) (len offset : ℕ) : Option Span :=
  if 0 < len ∧ offset + len ≤ body.len then body.slice offset (offset + len) else some ⟨0, 0⟩

def parseBodyChecked (msgType : UInt32) (data : List UInt8) (body : Span) :
    Option (Option RndisParts) :=
  let u32 := body.u32 data
  match RndisMessageType.fromU32 msgType with
  | some .initComplete => castChecked 44 body do
      some (.initComplete (← u32 0) (← u32 4) (← u32 8) (← u32 12) (← u32 24) (← u32 28)
        (← u32 32))
  | some .queryComplete => castChecked 16 body do
      let info ← infoChecked body (← u32 8).toNat (← u32 12).toNat
      some (.queryComplete (← u32 0) (← u32 4) info)
  | some .setComplete => castChecked 8 body do some (.setComplete (← u32 0) (← u32 4))
  | some .keepAliveComplete => castChecked 8 body do
      some (.keepAliveComplete (← u32 0) (← u32 4))
  | some .keepAlive => castChecked 4 body do some (.keepAlive (← u32 0))
  | some .indicate => castChecked 12 body do
      let statusBuf ← infoChecked body (← u32 4).toNat (← u32 8).toNat
      some (.indicate (← u32 0) statusBuf)
  | some .packet => castChecked 36 body do some (.packet (← u32 0) (← u32 4) (Span.all data))
  | _ => some (some (.unknown msgType))

/-- `parse_rndis_response`; the outer `none` is a panic. -/
def parseRndisChecked (data : List UInt8) : Option (Option RndisParts) :=
  let input := Span.all data
  if data.length < rndisHeaderSize then some none
  else do
    let msgType ← input.u32 data 0
    let msgLen ← input.u32 data 4
    let body ← input.slice rndisHeaderSize (min data.length msgLen.toNat)
    parseBodyChecked msgType data body

/-- The parser returns, and what it returns lies inside the input. -/
def ParseSafe (data : List UInt8) : Prop :=
  ∃ r, parseRndisChecked data = some r ∧
    ∀ parts, r = some parts → ∀ s ∈ parts.spans, s.Inside data

/-- The length field of the header covers the header, if there is one. -/
def CoversHeader (data : List UInt8) : Prop :=
  data.length < rndisHeaderSize ∨ rndisHeaderSize ≤ (u32At data 4).toNat

/-! ### What the accesses give -/

namespace Span

variable {data : List UInt8} {s : Span} {a b off : ℕ}

theorem inside_all : (all data).Inside data := by
  simp [Inside, all]

theorem slice_eq (h : a ≤ b) (h' : b ≤ s.len) : s.slice a b = some ⟨s.start + a, b - a⟩ :=
  if_pos ⟨h, h'⟩

/-- A word inside the part is one of the bytes of the part. -/
theorem u32_eq (h : off + 4 ≤ s.len) : s.u32 data off = some (u32At (s.bytes data) off) := by
  rw [u32, if_pos h, bytes, u32At_take h, u32At_drop]

theorem length_bytes (h : s.Inside data) : (s.bytes data).length = s.len := by
  rw [bytes, List.length_take, List.length_drop, Nat.min_eq_left]
  unfold Inside at h
  omega

end Span

/-- The checked parser returns `parts`, which stand for `v` and lie inside the input. -/
def Reads (data : List UInt8) (r : Option (Option RndisParts)) (v : Option RndisResponse) : Prop :=
  ∃ parts, r = some parts ∧ parts.map (RndisParts.read data) = v ∧
    ∀ p, parts = some p → ∀ s ∈ p.spans, s.Inside data

section

variable {data : List UInt8} {body : Span}

theorem reads_castChecked (hin : body.Inside data) {size : ℕ} {fields : Option RndisParts}
    {val : List UInt8 → RndisResponse}
    (h : size ≤ body.len → ∃ p, fields = some p ∧ p.read data = val (body.bytes data) ∧
      ∀ s ∈ p.spans, s.Inside data) :
    Reads data (castChecked size body fields) (castRef size (body.bytes data) val) := by
  unfold castChecked castRef
  rw [Span.length_bytes hin]
  by_cases hlt : body.len < size
  · rw [if_pos hlt, if_pos hlt]
    exact ⟨none, rfl, rfl, fun p hp => absurd hp (by simp)⟩
  · rw [if_neg hlt, if_neg hlt]
    obtain ⟨p, rfl, hread, hspans⟩ := h (Nat.le_of_not_lt hlt)
    refine ⟨some p, rfl, congrArg some hread, fun q hq => ?_⟩
    obtain rfl := Option.some.inj hq
    exact hspans

/-- The slice of an offset and a length field never panics and stays inside. -/
theorem infoChecked_spec (hin : body.Inside data) (len offset : ℕ) :
    ∃ s, infoChecked body len offset = some s ∧
      s.bytes data = infoSlice (body.bytes data) len offset ∧ s.Inside data := by
  unfold infoChecked infoSlice
  rw [Span.length_bytes hin]
  by_cases h : 0 < len ∧ offset + len ≤ body.len
  · rw [if_pos h, if_pos h, Span.slice_eq (by omega) h.2, Nat.add_sub_cancel_left]
    refine ⟨_, rfl, ?_, ?_⟩
    · rw [Span.bytes, Span.bytes, List.drop_take, List.take_take, List.drop_drop,
        Nat.min_eq_left (by omega)]
    · unfold Span.Inside at *
      dsimp only
      omega
  · rw [if_neg h, if_neg h]
    exact ⟨_, rfl, rfl, Nat.zero_le _⟩

theorem reads_parseBodyChecked (hin : body.Inside data) (msgType : UInt32) :
    Reads data (parseBodyChecked msgType data body)
      (parseRndisBody msgType data (body.bytes data)) := by
  have hall : (Span.all data).bytes data = data := List.take_length
  have hunknown : Reads data (some (some (.unknown msgType))) (some (.unknown msgType)) :=
    ⟨_, rfl, rfl, fun p hp s hs => by
      obtain rfl := Option.some.inj hp
      exact absurd hs List.not_mem_nil⟩
  unfold parseBodyChecked parseRndisBody
  generalize RndisMessageType.fromU32 msgType = kind
  cases kind with
  | none => exact hunknown
  | some kind =>
    -- in each case the struct covers the fields that are read
    cases kind with
    | initComplete | setComplete | keepAliveComplete | keepAlive =>
      refine reads_castChecked hin fun hsize => ?_
      simp (disch := omega) only [Span.u32_eq]
      exact ⟨_, rfl, rfl, fun s hs => absurd hs List.not_mem_nil⟩
    | queryComplete =>
      refine reads_castChecked hin fun hsize => ?_
      obtain ⟨info, hinfo, hbytes, hinside⟩ := infoChecked_spec hin
        (u32At (body.bytes data) 8).toNat (u32At (body.bytes data) 12).toNat
      simp (disch := omega) only [Span.u32_eq, Option.bind_eq_bind, Option.bind_some, hinfo]
      refine ⟨_, rfl, congrArg _ hbytes, fun s hs => ?_⟩
      obtain rfl := List.mem_singleton.mp hs
      exact hinside
    | indicate =>
      refine reads_castChecked hin fun hsize => ?_
      obtain ⟨buf, hbuf, hbytes, hinside⟩ := infoChecked_spec hin
        (u32At (body.bytes data) 4).toNat (u32At (body.bytes data) 8).toNat
      simp (disch := omega) only [Span.u32_eq, Option.bind_eq_bind, Option.bind_some, hbuf]
      refine ⟨_, rfl, congrArg _ hbytes, fun s hs => ?_⟩
      obtain rfl := List.mem_singleton.mp hs
      exact hinside
    | packet =>
      refine reads_castChecked hin fun hsize => ?_
      simp (disch := omega) only [Span.u32_eq]
      refine ⟨_, rfl, congrArg _ hall, fun s hs => ?_⟩
      obtain rfl := List.mem_singleton.mp hs
      exact Span.inside_all
    | _ => exact hunknown

/-! ### The header -/

theorem parseRndisChecked_short (h : data.length < rndisHeaderSize) :
    parseRndisChecked data = some none :=
  if_pos h

theorem parseRndisChecked_long (h : ¬ data.length < rndisHeaderSize) :
    parseRndisChecked data =
      ((Span.all data).slice rndisHeaderSize (min data.length (u32At data 4).toNat)).bind
        (parseBodyChecked (u32At data 0) data) := by
  have hlen : 8 ≤ (Span.all data).len := Nat.le_of_not_lt h
  unfold parseRndisChecked
  dsimp only
  rw [if_neg h, Span.u32, if_pos (by omega), Span.u32, if_pos (by omega)]
  rfl

theorem parseRndisChecked_covered (hlong : ¬ data.length < rndisHeaderSize)
    (hcover : rndisHeaderSize ≤ (u32At data 4).toNat) :
    Reads data (parseRndisChecked data) (parseRndisBody (u32At data 0) data
      ((data.take (min data.length (u32At data 4).toNat)).drop rndisHeaderSize)) := by
  have hle : min data.length (u32At data 4).toNat ≤ (Span.all data).len := Nat.min_le_left _ _
  rw [parseRndisChecked_long hlong, Span.slice_eq (by omega) hle, Option.bind_some,
    List.drop_take]
  have hin : Span.Inside data ⟨0 + 8, min data.length (u32At data 4).toNat - 8⟩ := by
    unfold Span.Inside rndisHeaderSize at *
    dsimp only
    omega
  exact reads_parseBodyChecked hin _

theorem parseRndisChecked_uncovered (hlong : ¬ data.length < rndisHeaderSize)
    (hcover : ¬ rndisHeaderSize ≤ (u32At data 4).toNat) : parseRndisChecked data = none := by
  rw [parseRndisChecked_long hlong, Span.slice, if_neg (by omega)]
  rfl

/-- The checked parser computes `parseRndisResponse`. -/
theorem read_parseRndisChecked (data : List UInt8) :
    (parseRndisChecked data).map (Option.map (RndisParts.read data)) = parseRndisResponse data := by
  by_cases hshort : data.length < rndisHeaderSize
  · rw [parseRndisChecked_short hshort, parseRndisResponse, if_pos hshort]
    rfl
  · rw [parseRndisResponse, if_neg hshort]
    dsimp only
    by_cases hcover : rndisHeaderSize ≤ (u32At data 4).toNat
    · obtain ⟨parts, hparts, hread, -⟩ := parseRndisChecked_covered hshort hcover
      rw [if_neg (by omega), hparts, Option.map_some, hread]
    · rw [if_pos (by omega), parseRndisChecked_uncovered hshort hcover]
      rfl

end

/-- **The parser is safe exactly on the messages whose length field covers their
header.** -/
theorem parseSafe_iff (data : List UInt8) : ParseSafe data ↔ CoversHeader data := by
  by_cases hshort : data.length < rndisHeaderSize
  · exact iff_of_true ⟨none, parseRndisChecked_short hshort, fun p hp => absurd hp (by simp)⟩
      (.inl hshort)
  · by_cases hcover : rndisHeaderSize ≤ (u32At data 4).toNat
    · obtain ⟨parts, hparts, -, hspans⟩ := parseRndisChecked_covered hshort hcover
      exact iff_of_true ⟨parts, hparts, hspans⟩ (.inr hcover)
    · refine iff_of_false ?_ (not_or.mpr ⟨hshort, hcover⟩)
      rintro ⟨r, hr, -⟩
      rw [parseRndisChecked_uncovered hshort hcover] at hr
      exact absurd hr (by simp)

/-- A keep-alive with the length field 4. -/
theorem parse_panics_on_short_length :
    parseRndisChecked (le32 8 ++ le32 4 ++ le32 1) = none ∧
      ¬ ParseSafe (le32 8 ++ le32 4 ++ le32 1) := by
  have hnone : parseRndisChecked (le32 8 ++ le32 4 ++ le32 1) = none := by decide +kernel
  refine ⟨hnone, ?_⟩
  rintro ⟨r, hr, -⟩
  rw [hnone] at hr
  exact absurd hr (by simp)

end Nvsp
