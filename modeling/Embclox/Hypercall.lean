/-
`post_message`: a control message for the host, through the hypercall page.

The message is laid out once in the input page, and `HvPostMessage` is called up to ten
times, as long as the hypervisor says that it has no buffer.

* `postMessage`, `Call` — the calls that are made, with their input and status;
* `delivered` — the messages that the hypervisor has read from the pages it accepted;
* `postMessage_exact` — the call delivers the message once if it returns `Ok` and not at
  all otherwise, retries only for want of a buffer, and at most ten times;
* `postMessage_refines` — so it is the `post_message` of the control channel, which only
  counts messages.
-/
import Embclox.Gpadl

open Bytes Effect
open Netvsc (HvError)
open Synic (payloadMax)

namespace Hypercall

def hvStatusInsufficientBuffers : UInt16 := 0x13
def postRetries : ℕ := 10

/-- `HvPostMessageInput`: the area of the payload is zeroed first. -/
def postInput (connectionId msgType : UInt32) (data : List UInt8) : List UInt8 :=
  [connectionId, 0, msgType, UInt32.ofNat data.length].flatMap le32 ++
    (data ++ List.replicate (payloadMax - data.length) 0)

/-- One `raw_call` with `HV_POST_MESSAGE`: the bytes of the input page, and `RAX`. -/
structure Call where
  page : List UInt8
  status : UInt64
  deriving DecidableEq

/-- The low 16 bits, as `post_message` reads them. -/
def Call.code (c : Call) : UInt16 := c.status.toUInt16

/-- The loop of `post_message`, where `status n` is what the call after `n` others
returns. -/
def postLoop (status : ℕ → UInt64) (page : List UInt8) : ℕ → Prog (List Call) HvError Unit
  | 0 => Prog.fail .hypercallRetryExhausted
  | retries + 1 => fun calls =>
      let call : Call := ⟨page, status calls.length⟩
      if call.code = 0 then (.ok (), calls ++ [call])
      else if call.code = hvStatusInsufficientBuffers then
        postLoop status page retries (calls ++ [call])
      else (.err (.hypercallFailed call.code), calls ++ [call])

def postMessage (status : ℕ → UInt64) (connectionId msgType : UInt32) (data : List UInt8) :
    Prog (List Call) HvError Unit :=
  if payloadMax < data.length then Prog.panic
  else postLoop status (postInput connectionId msgType data) postRetries

/-! ### What the hypervisor reads -/

structure Message where
  connectionId : UInt32
  msgType : UInt32
  payload : List UInt8
  deriving DecidableEq

/-- What an input page says. -/
def received (page : List UInt8) : Message :=
  ⟨u32At page 0, u32At page 8, (page.drop 16).take (u32At page 12).toNat⟩

/-- The messages of the calls that succeeded. -/
def delivered (calls : List Call) : List Message :=
  (calls.filter fun c => c.code == 0).map fun c => received c.page

theorem received_postInput (connectionId msgType : UInt32) {data : List UInt8}
    (h : data.length ≤ payloadMax) :
    received (postInput connectionId msgType data) = ⟨connectionId, msgType, data⟩ := by
  have hlen : (UInt32.ofNat data.length).toNat = data.length := by
    rw [UInt32.toNat_ofNat']
    have hmax : payloadMax = 240 := rfl
    omega
  have hsize : u32At (postInput connectionId msgType data) 12 = UInt32.ofNat data.length :=
    u32At_flatMap_le32 (i := 3) rfl _
  have hpayload : ((postInput connectionId msgType data).drop 16).take data.length = data := by
    rw [postInput, List.drop_left' (by simp), List.take_left' rfl]
  rw [received, hsize, hlen, hpayload, Message.mk.injEq]
  exact ⟨u32At_flatMap_le32 (i := 0) rfl _, u32At_flatMap_le32 (i := 2) rfl _, rfl⟩

theorem delivered_append (calls calls' : List Call) :
    delivered (calls ++ calls') = delivered calls ++ delivered calls' := by
  simp [delivered]

/-- Calls that the hypervisor had no buffer for deliver nothing. -/
theorem delivered_eq_nil {calls : List Call} (h : ∀ c ∈ calls, c.code ≠ 0) :
    delivered calls = [] := by
  simp only [delivered, List.map_eq_nil_iff, List.filter_eq_nil_iff, beq_iff_eq]
  exact h

/-! ### The loop -/

/-- How the loop ends after the calls `tried`, which all failed for want of a buffer. -/
inductive PostEnds (page : List UInt8) (retries : ℕ) :
    List Call → Outcome HvError Unit → Prop
  | taken {tried : List Call} {st : UInt64} : tried.length < retries → st.toUInt16 = 0 →
      (∀ c ∈ tried, c.page = page ∧ c.code = hvStatusInsufficientBuffers) →
      PostEnds page retries (tried ++ [⟨page, st⟩]) (.ok ())
  | failed {tried : List Call} {st : UInt64} : tried.length < retries → st.toUInt16 ≠ 0 →
      st.toUInt16 ≠ hvStatusInsufficientBuffers →
      (∀ c ∈ tried, c.page = page ∧ c.code = hvStatusInsufficientBuffers) →
      PostEnds page retries (tried ++ [⟨page, st⟩]) (.err (.hypercallFailed st.toUInt16))
  | exhausted {tried : List Call} : tried.length = retries →
      (∀ c ∈ tried, c.page = page ∧ c.code = hvStatusInsufficientBuffers) →
      PostEnds page retries tried (.err .hypercallRetryExhausted)

/-- One more call without a buffer in front. -/
theorem PostEnds.cons {page : List UInt8} {retries : ℕ} {new : List Call}
    {out : Outcome HvError Unit} {st : UInt64} (hst : st.toUInt16 = hvStatusInsufficientBuffers)
    (h : PostEnds page retries new out) : PostEnds page (retries + 1) (⟨page, st⟩ :: new) out := by
  have hcons : ∀ {tried : List Call},
      (∀ c ∈ tried, c.page = page ∧ c.code = hvStatusInsufficientBuffers) →
      ∀ c ∈ (⟨page, st⟩ : Call) :: tried, c.page = page ∧ c.code = hvStatusInsufficientBuffers :=
    fun htried => List.forall_mem_cons.mpr ⟨⟨rfl, hst⟩, htried⟩
  cases h with
  | @taken tried st' hlen hz htried =>
    exact @PostEnds.taken page _ (⟨page, st⟩ :: tried) st' (by simpa using hlen) hz (hcons htried)
  | @failed tried st' hlen hz hne htried =>
    exact @PostEnds.failed page _ (⟨page, st⟩ :: tried) st' (by simpa using hlen) hz hne
      (hcons htried)
  | exhausted hlen htried => exact .exhausted (by simpa using hlen) (hcons htried)

theorem postLoop_ends (status : ℕ → UInt64) (page : List UInt8) (retries : ℕ) :
    ∀ calls, ∃ new, (postLoop status page retries calls).2 = calls ++ new ∧
      PostEnds page retries new (postLoop status page retries calls).1 := by
  induction retries with
  | zero => exact fun calls => ⟨[], (List.append_nil _).symm, .exhausted rfl (by simp)⟩
  | succ retries ih =>
    intro calls
    by_cases hz : (status calls.length).toUInt16 = 0
    · have heq : postLoop status page (retries + 1) calls =
          (.ok (), calls ++ [⟨page, status calls.length⟩]) := by
        simp [postLoop, Call.code, hz]
      rw [heq]
      exact ⟨_, rfl, @PostEnds.taken page _ [] _ (Nat.succ_pos _) hz (by simp)⟩
    · by_cases hb : (status calls.length).toUInt16 = hvStatusInsufficientBuffers
      · have heq : postLoop status page (retries + 1) calls =
            postLoop status page retries (calls ++ [⟨page, status calls.length⟩]) := by
          simp [postLoop, Call.code, hb, show hvStatusInsufficientBuffers ≠ 0 by decide]
        rw [heq]
        obtain ⟨new, hnew, hends⟩ := ih (calls ++ [⟨page, status calls.length⟩])
        exact ⟨⟨page, status calls.length⟩ :: new, by rw [hnew]; simp, hends.cons hb⟩
      · have heq : postLoop status page (retries + 1) calls =
            (.err (.hypercallFailed (status calls.length).toUInt16),
              calls ++ [⟨page, status calls.length⟩]) := by
          simp [postLoop, Call.code, hz, hb]
        rw [heq]
        exact ⟨_, rfl, @PostEnds.failed page _ [] _ (Nat.succ_pos _) hz hb (by simp)⟩

/-- The calls that were retried deliver nothing. -/
theorem PostEnds.delivered {page : List UInt8} {retries : ℕ} {new : List Call}
    {out : Outcome HvError Unit} (h : PostEnds page retries new out) :
    delivered new = if out.isOk then [received page] else [] := by
  have hnil : ∀ {tried : List Call},
      (∀ c ∈ tried, c.page = page ∧ c.code = hvStatusInsufficientBuffers) →
      Hypercall.delivered tried = [] := by
    intro tried htried
    refine delivered_eq_nil fun c hc => ?_
    rw [(htried c hc).2]
    decide
  cases h with
  | taken _ hz htried =>
    rw [delivered_append, hnil htried]
    simp [Hypercall.delivered, Call.code, hz, Outcome.isOk]
  | failed _ hz _ htried =>
    rw [delivered_append, hnil htried]
    simp [Hypercall.delivered, Call.code, hz, Outcome.isOk]
  | exhausted _ htried =>
    rw [hnil htried]
    simp [Outcome.isOk]

theorem postMessage_ends (status : ℕ → UInt64) (connectionId msgType : UInt32)
    {data : List UInt8} (h : data.length ≤ payloadMax) (calls : List Call) :
    ∃ new, (postMessage status connectionId msgType data calls).2 = calls ++ new ∧
      PostEnds (postInput connectionId msgType data) postRetries new
        (postMessage status connectionId msgType data calls).1 := by
  have hmax : ¬ payloadMax < data.length := by omega
  rw [postMessage, if_neg hmax]
  exact postLoop_ends status (postInput connectionId msgType data) postRetries calls

/-- The messages that are delivered after `post_message` has made the calls `new`. -/
theorem PostEnds.delivered_after {connectionId msgType : UInt32} {data : List UInt8}
    {new : List Call} {out : Outcome HvError Unit} (hlen : data.length ≤ payloadMax)
    (h : PostEnds (postInput connectionId msgType data) postRetries new out)
    (calls : List Call) :
    Hypercall.delivered (calls ++ new) = Hypercall.delivered calls ++
      if out.isOk then [⟨connectionId, msgType, data⟩] else [] := by
  rw [delivered_append, h.delivered, received_postInput _ _ hlen]

/-- **A message is delivered once or not at all.**  For every message that fits and every
sequence of statuses, `post_message` makes at most ten calls, all with the one input
page and all but the last for want of a buffer; it adds the message to those delivered
if it returns `Ok`, and nothing otherwise. -/
theorem postMessage_exact (status : ℕ → UInt64) (connectionId msgType : UInt32)
    {data : List UInt8} (h : data.length ≤ payloadMax) (calls : List Call) :
    ∃ new, (postMessage status connectionId msgType data calls).2 = calls ++ new ∧
      PostEnds (postInput connectionId msgType data) postRetries new
        (postMessage status connectionId msgType data calls).1 ∧
      delivered (calls ++ new) = delivered calls ++
        if (postMessage status connectionId msgType data calls).1.isOk
        then [⟨connectionId, msgType, data⟩] else [] := by
  obtain ⟨new, hnew, hends⟩ := postMessage_ends status connectionId msgType h calls
  exact ⟨new, hnew, hends, hends.delivered_after h calls⟩

/-- A message that gets through at the third call. -/
theorem postMessage_third_call : ∃ new,
    (postMessage (fun n => if n < 2 then 0x13 else 0) 1 1 [7, 8] []).2 = [] ++ new ∧
    new.length = 3 ∧ delivered new = [⟨1, 1, [7, 8]⟩] := by
  obtain ⟨new, hnew, -, hdel⟩ := postMessage_exact (fun n => if n < 2 then 0x13 else 0) 1 1
    (show ([7, 8] : List UInt8).length ≤ payloadMax by decide) []
  refine ⟨new, hnew, ?_, hdel⟩
  have hlen : (postMessage (fun n => if n < 2 then 0x13 else 0) 1 1 [7, 8] []).2.length = 3 := by
    decide +kernel
  rwa [hnew, List.nil_append] at hlen

/-- `post_message` fails with a status or when it gives up. -/
theorem postMessage_error {status : ℕ → UInt64} {connectionId msgType : UInt32}
    {data : List UInt8} {calls : List Call} {e : HvError}
    (h : (postMessage status connectionId msgType data calls).1 = .err e) :
    (∃ st, e = .hypercallFailed st) ∨ e = .hypercallRetryExhausted := by
  unfold postMessage at h
  by_cases hmax : payloadMax < data.length
  · rw [if_pos hmax] at h
    exact absurd h (by simp [Prog.panic])
  · rw [if_neg hmax] at h
    obtain ⟨_, -, hends⟩ :=
      postLoop_ends status (postInput connectionId msgType data) postRetries calls
    rw [h] at hends
    cases hends with
    | failed => exact .inl ⟨_, rfl⟩
    | exhausted => exact .inr rfl

/-- **The control channel counts the messages that are delivered**: its `post_message`
does the same on the payloads. -/
theorem postMessage_refines (status : ℕ → UInt64) (connectionId msgType : UInt32)
    (data : List UInt8) (calls : List Call) :
    ∃ fails : ℕ → Option HvError,
      Channel.postMessage fails data ((delivered calls).map Message.payload) =
        ((postMessage status connectionId msgType data calls).1,
          (delivered (postMessage status connectionId msgType data calls).2).map
            Message.payload) := by
  by_cases hmax : payloadMax < data.length
  · refine ⟨fun _ => none, ?_⟩
    rw [Channel.postMessage, postMessage, if_pos hmax, if_pos hmax]
    rfl
  · have hlen := Nat.le_of_not_lt hmax
    obtain ⟨new, hnew, hends⟩ := postMessage_ends status connectionId msgType hlen calls
    rw [hnew, hends.delivered_after hlen]
    cases hout : (postMessage status connectionId msgType data calls).1 with
    | ok =>
      refine ⟨fun _ => none, ?_⟩
      simp [Channel.postMessage, hmax, Outcome.isOk]
    | err e =>
      refine ⟨fun _ => some e, ?_⟩
      simp [Channel.postMessage, hmax, Outcome.isOk]
    | panic =>
      rw [hout] at hends
      cases hends

end Hypercall
