/-
The messages of `create_gpadl`.

A list of page frame numbers goes to the host in one header message and as many body
messages as it takes.  The capacities differ, 26 numbers in the header and 28 in a
body, and the posting stops at the first message that the host does not take.

* `postGpadl` — `create_gpadl` up to the point where it waits for the answer;
* `postGpadl_eq`, `exists_call` — it posts `Request.messages` one by one, as the step
  `call` of a run does;
* `u64s_gpadlBodies`, `gpadlBodies_fields` — what the bodies carry;
* `createGpadl_transmits` — the host gets the whole list, in messages that fit their
  slot, with the fields of the request;
* `byteCount_cut` — but only 32 bits of the byte count.
-/
import Embclox.Channel

open Bytes Effect
open Netvsc (HvError)
open Synic (payloadMax)

namespace Channel

/-! ### Posting -/

/-- `post_message` on the messages posted so far: `fails n` is the error of the post
after `n` others, and the panic is the failed assertion on the length. -/
def postMessage (fails : ℕ → Option HvError) (m : List UInt8) :
    Prog (List (List UInt8)) HvError Unit := fun posted =>
  if payloadMax < m.length then (.panic, posted)
  else
    match fails posted.length with
    | some e => (.err e, posted)
    | none => (.ok (), posted ++ [m])

/-- The loop over the PFNs that the header has no room for. -/
def postBodies (fails : ℕ → Option HvError) (gpadlHandle msgNumber : UInt32)
    (remaining : List UInt64) : Prog (List (List UInt8)) HvError Unit :=
  if h : remaining = [] then pure ()
  else do
    postMessage fails (gpadlBody gpadlHandle msgNumber (remaining.take maxPfnsPerBody))
    postBodies fails gpadlHandle (msgNumber + 1) (remaining.drop maxPfnsPerBody)
termination_by remaining.length
decreasing_by
  rw [List.length_drop]
  have := List.length_pos_iff.mpr h
  unfold maxPfnsPerBody
  omega

/-- `create_gpadl` up to the wait for the answer. -/
def postGpadl (fails : ℕ → Option HvError) (childRelid gpadlHandle : UInt32) (byteCount : ℕ)
    (pfns : List UInt64) : Prog (List (List UInt8)) HvError Unit := do
  postMessage fails (gpadlHeader childRelid gpadlHandle byteCount pfns)
  postBodies fails gpadlHandle 0 (pfns.drop maxPfnsInHeader)

/-- Messages posted one after the other. -/
def postAll (fails : ℕ → Option HvError) : List (List UInt8) → Prog (List (List UInt8)) HvError Unit
  | [] => pure ()
  | m :: rest => do
      postMessage fails m
      postAll fails rest

section

variable (fails : ℕ → Option HvError)

theorem postBodies_eq (handle k : UInt32) (remaining : List UInt64) :
    postBodies fails handle k remaining = postAll fails (gpadlBodies handle k remaining) := by
  fun_induction gpadlBodies handle k remaining with
  | case1 => rw [postBodies, dif_pos rfl, postAll]
  | case2 k remaining h ih => rw [postBodies, dif_neg h, postAll, ih]

/-- **`create_gpadl` posts the messages of its request**, in order. -/
theorem postGpadl_eq (relid handle : UInt32) (byteCount : ℕ) (pfns : List UInt64) :
    postGpadl fails relid handle byteCount pfns =
      postAll fails (Request.createGpadl relid handle byteCount pfns).messages := by
  rw [postGpadl, postBodies_eq]
  rfl

/-- Messages that fit are posted up to the first error, and nothing panics. -/
theorem postAll_cases {msgs : List (List UInt8)} (hlen : ∀ m ∈ msgs, m.length ≤ payloadMax)
    (posted : List (List UInt8)) :
    ((∀ k < msgs.length, fails (posted.length + k) = none) ∧
      postAll fails msgs posted = (.ok (), posted ++ msgs)) ∨
    ∃ k e, k < msgs.length ∧ fails (posted.length + k) = some e ∧
      postAll fails msgs posted = (.err e, posted ++ msgs.take k) := by
  induction msgs generalizing posted with
  | nil =>
    refine .inl ⟨fun k hk => absurd hk (Nat.not_lt_zero k), ?_⟩
    rw [List.append_nil]
    rfl
  | cons m rest ih =>
    have hm : ¬ payloadMax < m.length := Nat.not_lt.mpr (hlen m (by simp))
    cases hf : fails posted.length with
    | some e =>
      refine .inr ⟨0, e, Nat.succ_pos _, hf, ?_⟩
      rw [postAll, Prog.bind_apply, postMessage, if_neg hm, hf, List.take_zero, List.append_nil]
    | none =>
      have hpost : postMessage fails m posted = (.ok (), posted ++ [m]) := by
        rw [postMessage, if_neg hm, hf]
      have hnext : (posted ++ [m]).length = posted.length + 1 := by simp
      have hrest := ih (fun m' hm' => hlen m' (List.mem_cons_of_mem _ hm')) (posted ++ [m])
      rw [hnext, List.append_assoc, List.singleton_append] at hrest
      rw [postAll, Prog.bind_apply, hpost]
      rcases hrest with ⟨hnone, hok⟩ | ⟨k, e, hk, hfk, herr⟩
      · refine .inl ⟨fun k hk => ?_, hok⟩
        cases k with
        | zero => exact hf
        | succ k =>
          rw [Nat.add_comm k 1, ← Nat.add_assoc]
          exact hnone k (Nat.lt_of_succ_lt_succ hk)
      · refine .inr ⟨k + 1, e, Nat.succ_lt_succ hk, ?_, ?_⟩
        · rw [Nat.add_comm k 1, ← Nat.add_assoc]
          exact hfk
        · rw [List.append_assoc, List.singleton_append] at herr
          exact herr

/-- A host that takes every message gets them all. -/
theorem postGpadl_ok (hnone : ∀ n, fails n = none) (relid handle : UInt32) (byteCount : ℕ)
    (pfns : List UInt64) (posted : List (List UInt8)) :
    postGpadl fails relid handle byteCount pfns posted =
      (.ok (), posted ++ (Request.createGpadl relid handle byteCount pfns).messages) := by
  rw [postGpadl_eq]
  rcases postAll_cases fails
    (Request.length_messages_le (Request.createGpadl relid handle byteCount pfns)) posted with
    ⟨-, hok⟩ | ⟨k, e, -, hfail, -⟩
  · exact hok
  · exact absurd ((hnone _).symm.trans hfail) (by simp)

end

/-! ### What the messages carry -/

/-- The fields of a header message. -/
structure GpadlHeaderFields where
  msgtype : UInt32
  childRelid : UInt32
  gpadlHandle : UInt32
  rangeBuflen : UInt16
  rangecount : UInt16
  byteCount : UInt32
  byteOffset : UInt32
  pfns : List UInt64
  deriving DecidableEq

def decodeHeader (m : List UInt8) : GpadlHeaderFields where
  msgtype := u32At m 0
  childRelid := u32At m 8
  gpadlHandle := u32At m 12
  rangeBuflen := u16At m 16
  rangecount := u16At m 18
  byteCount := u32At m 20
  byteOffset := u32At m 24
  pfns := u64s (m.drop 28)

/-- The fields of a body message. -/
structure GpadlBodyFields where
  msgtype : UInt32
  msgNumber : UInt32
  gpadlHandle : UInt32
  pfns : List UInt64
  deriving DecidableEq

def decodeBody (m : List UInt8) : GpadlBodyFields where
  msgtype := u32At m 0
  msgNumber := u32At m 8
  gpadlHandle := u32At m 12
  pfns := u64s (m.drop 16)

theorem decodeHeader_gpadlHeader (relid handle : UInt32) (byteCount : ℕ) (pfns : List UInt64) :
    decodeHeader (gpadlHeader relid handle byteCount pfns) =
      ⟨channelmsgGpadlHeader, relid, handle, UInt16.ofNat (8 + pfns.length * 8), 1,
        UInt32.ofNat byteCount, 0, pfns.take maxPfnsInHeader⟩ := by
  have hdrop := drop_gpadlHeader relid handle byteCount pfns
  unfold decodeHeader
  rw [hdrop, u64s_flatMap_le64, GpadlHeaderFields.mk.injEq]
  -- each field lies behind those before it
  simp only [gpadlHeader, List.append_assoc]
  refine ⟨u32At_head _ _, ?_, ?_, ?_, ?_, ?_, ?_, trivial⟩
  · rw [← List.append_assoc]
    exact u32At_le32 rfl
  · rw [← List.append_assoc, ← List.append_assoc]
    exact u32At_le32 rfl
  · rw [← List.append_assoc, ← List.append_assoc, ← List.append_assoc]
    exact u16At_le16 rfl
  · rw [← List.append_assoc, ← List.append_assoc, ← List.append_assoc, ← List.append_assoc]
    exact u16At_le16 rfl
  · rw [← List.append_assoc, ← List.append_assoc, ← List.append_assoc, ← List.append_assoc,
      ← List.append_assoc]
    exact u32At_le32 rfl
  · rw [← List.append_assoc, ← List.append_assoc, ← List.append_assoc, ← List.append_assoc,
      ← List.append_assoc, ← List.append_assoc]
    exact u32At_le32 rfl

theorem decodeBody_gpadlBody (handle k : UInt32) (pfns : List UInt64) :
    decodeBody (gpadlBody handle k pfns) = ⟨channelmsgGpadlBody, k, handle, pfns⟩ := by
  have hdrop : (gpadlBody handle k pfns).drop 16 = pfns.flatMap le64 := List.drop_left' (by simp)
  unfold decodeBody
  rw [hdrop, u64s_flatMap_le64, GpadlBodyFields.mk.injEq]
  simp only [gpadlBody, List.append_assoc]
  refine ⟨u32At_head _ _, ?_, ?_, trivial⟩
  · rw [← List.append_assoc]
    exact u32At_le32 rfl
  · rw [← List.append_assoc, ← List.append_assoc]
    exact u32At_le32 rfl

/-- The bodies carry the remaining PFNs. -/
theorem u64s_gpadlBodies (handle k : UInt32) (remaining : List UInt64) :
    (gpadlBodies handle k remaining).flatMap (fun m => (decodeBody m).pfns) = remaining := by
  fun_induction gpadlBodies handle k remaining with
  | case1 => rfl
  | case2 k remaining h ih =>
    rw [List.flatMap_cons, decodeBody_gpadlBody, ih, List.take_append_drop]

/-- The bodies are numbered without gaps. -/
theorem gpadlBodies_fields (handle k : UInt32) (remaining : List UInt64) :
    ∀ (i : ℕ) (m : List UInt8), (gpadlBodies handle k remaining)[i]? = some m →
      (decodeBody m).msgtype = channelmsgGpadlBody ∧ (decodeBody m).gpadlHandle = handle ∧
        (decodeBody m).msgNumber = k + UInt32.ofNat i := by
  fun_induction gpadlBodies handle k remaining with
  | case1 =>
    intro i m hm
    exact absurd hm (by simp)
  | case2 k remaining h ih =>
    intro i m hm
    cases i with
    | zero =>
      obtain rfl := Option.some.inj hm
      rw [decodeBody_gpadlBody]
      exact ⟨rfl, rfl, (UInt32.add_zero k).symm⟩
    | succ i =>
      obtain ⟨htype, hhandle, hnumber⟩ := ih i m hm
      refine ⟨htype, hhandle, ?_⟩
      rw [hnumber, UInt32.ofNat_add, UInt32.add_assoc, UInt32.add_comm 1]
      rfl

theorem length_gpadlBodies (handle k : UInt32) (remaining : List UInt64) :
    (gpadlBodies handle k remaining).length ≤ remaining.length := by
  fun_induction gpadlBodies handle k remaining with
  | case1 => exact Nat.le_refl 0
  | case2 k remaining h ih =>
    have hpos := List.length_pos_iff.mpr h
    have hcap : 0 < maxPfnsPerBody := by decide
    rw [List.length_drop] at ih
    rw [List.length_cons]
    omega

/-! ### The whole list arrives -/

/-- What `create_gpadl` has posted: everything, or what came before the first error. -/
def PostsInOrder (fails : ℕ → Option HvError) (msgs : List (List UInt8))
    (result : Outcome HvError Unit × List (List UInt8)) : Prop :=
  ((∀ k < msgs.length, fails k = none) ∧ result = (.ok (), msgs)) ∨
    ∃ k e, k < msgs.length ∧ fails k = some e ∧ result = (.err e, msgs.take k)

theorem postGpadl_inOrder (fails : ℕ → Option HvError) (relid handle : UInt32) (byteCount : ℕ)
    (pfns : List UInt64) :
    PostsInOrder fails (Request.createGpadl relid handle byteCount pfns).messages
      (postGpadl fails relid handle byteCount pfns []) := by
  have hcases := postAll_cases fails
    (Request.length_messages_le (Request.createGpadl relid handle byteCount pfns)) []
  simp only [List.length_nil, Nat.zero_add, List.nil_append] at hcases
  rw [postGpadl_eq]
  exact hcases

/-- The step `call` of a run of the guest and the host posts what the program posts. -/
theorem exists_call {s : Sys} (hidle : s.waiting = none) (fails : ℕ → Option HvError)
    (relid handle : UInt32) (byteCount : ℕ) (pfns : List UInt64) :
    ∃ f u, step s (.call (.createGpadl relid handle byteCount pfns) f) = some u ∧
      u.posted = s.posted ++ (postGpadl fails relid handle byteCount pfns []).2 := by
  rcases postGpadl_inOrder fails relid handle byteCount pfns with
    ⟨-, hall⟩ | ⟨k, e, hk, -, hsome⟩
  · refine ⟨none, { s with
      waiting := some (.createGpadl relid handle byteCount pfns)
      posted := s.posted ++ (Request.createGpadl relid handle byteCount pfns).messages }, ?_, ?_⟩
    · simp only [step, hidle]
    · rw [hall]
  · refine ⟨some (k, e), finish { s with posted := s.posted ++
      (Request.createGpadl relid handle byteCount pfns).messages.take k }
      (.createGpadl relid handle byteCount pfns) (.error e), ?_, ?_⟩
    · simp only [step, hidle, if_pos hk]
    · rw [hsome]
      rfl

/-- **The page list is transmitted completely**: `create_gpadl` posts a header and then
bodies, each at most 240 bytes long, up to the first post that fails.  The header has the
fields of the request, of the byte count the low 32 bits; the bodies have the same handle
and are numbered from 0 on; and the page frame numbers of all of them are the list. -/
theorem createGpadl_transmits (relid handle : UInt32) (byteCount : ℕ) (pfns : List UInt64)
    (hlen : 8 + 8 * pfns.length < 65536) :
    ∃ header bodies,
      (∀ fails, PostsInOrder fails (header :: bodies)
        (postGpadl fails relid handle byteCount pfns [])) ∧
      (∀ m ∈ header :: bodies, m.length ≤ payloadMax) ∧
      (decodeHeader header).msgtype = channelmsgGpadlHeader ∧
      (decodeHeader header).childRelid = relid ∧
      (decodeHeader header).gpadlHandle = handle ∧
      (decodeHeader header).rangeBuflen.toNat = 8 + 8 * pfns.length ∧
      (decodeHeader header).rangecount = 1 ∧
      (decodeHeader header).byteCount.toNat = byteCount % 2 ^ 32 ∧
      (∀ i m, bodies[i]? = some m →
        (decodeBody m).msgtype = channelmsgGpadlBody ∧ (decodeBody m).gpadlHandle = handle ∧
          (decodeBody m).msgNumber.toNat = i) ∧
      (decodeHeader header).pfns ++ bodies.flatMap (fun m => (decodeBody m).pfns) = pfns := by
  refine ⟨gpadlHeader relid handle byteCount pfns,
    gpadlBodies handle 0 (pfns.drop maxPfnsInHeader),
    fun fails => postGpadl_inOrder fails relid handle byteCount pfns,
    Request.length_messages_le (Request.createGpadl relid handle byteCount pfns), ?_⟩
  rw [decodeHeader_gpadlHeader, u64s_gpadlBodies]
  refine ⟨rfl, rfl, rfl, ?_, rfl, UInt32.toNat_ofNat', ?_, List.take_append_drop _ _⟩
  · dsimp only
    rw [UInt16.toNat_ofNat', Nat.mod_eq_of_lt (by omega)]
    omega
  · intro i m hm
    obtain ⟨htype, hhandle, hnumber⟩ := gpadlBodies_fields _ _ _ i m hm
    -- there are fewer bodies than PFNs, so the number has not wrapped
    have hi : i < pfns.length := by
      have hi := (List.getElem?_eq_some_iff.mp hm).1
      have hle := length_gpadlBodies handle 0 (pfns.drop maxPfnsInHeader)
      rw [List.length_drop] at hle
      omega
    refine ⟨htype, hhandle, ?_⟩
    rw [hnumber, UInt32.zero_add, UInt32.toNat_ofNat', Nat.mod_eq_of_lt (by omega)]

/-- A list that just needs a body: 27 pages. -/
theorem createGpadl_transmits_body :
    8 + 8 * (List.replicate 27 (7 : UInt64)).length < 65536 ∧
    ∃ header bodies,
      PostsInOrder (fun _ => none) (header :: bodies)
        (postGpadl (fun _ => none) 1 0xE1E10 0x1B000 (List.replicate 27 7) []) ∧
      (decodeHeader header).pfns ++ bodies.flatMap (fun m => (decodeBody m).pfns) =
        List.replicate 27 7 := by
  refine ⟨by decide, ?_⟩
  obtain ⟨header, bodies, hposts, -, -, -, -, -, -, -, -, hpfns⟩ :=
    createGpadl_transmits 1 0xE1E10 0x1B000 (List.replicate 27 7) (by decide)
  exact ⟨header, bodies, hposts _, hpfns⟩

/-- A byte count of 4 GiB is posted as 0: the field has 32 bits. -/
theorem byteCount_cut :
    8 + 8 * ([7] : List UInt64).length < 65536 ∧
    ∃ header, postGpadl (fun _ => none) 1 0xE1E10 (2 ^ 32) [7] [] = (.ok (), [header]) ∧
      (decodeHeader header).byteCount.toNat = 0 := by
  refine ⟨by decide, gpadlHeader 1 0xE1E10 (2 ^ 32) [7], ?_, ?_⟩
  · rw [postGpadl_eq, Request.messages, show ([7] : List UInt64).drop maxPfnsInHeader = [] from rfl,
      gpadlBodies, dif_pos rfl]
    rfl
  · rw [decodeHeader_gpadlHeader]
    rfl

end Channel
