/-
VMBus requests: `create_gpadl` and `open_channel_msg`.

A call posts its messages to the host and waits for the answer with `wait_for_match`,
which hands every message in the SynIC slot to a matcher and acknowledges it.  The
matchers look at the type of the answer and at its status, not at the handle or the
channel that it names, and an answer to a call that timed out may arrive during a
later one.

* `ResultsBelong` — a call succeeds only if the host has reported success for its
  handle or channel;
* `resultsBelong_of_answersWaiter` — this holds in every run in which the answers that
  a matcher accepts name what the call waits for;
* `late_answer_taken` — a late answer to a call that timed out completes the next one.
-/
import Embclox.Netvsc
import Embclox.Synic

open Bytes Run
open Netvsc (HvError)
open Synic (HvMessage pollMessage payloadMax)

namespace Channel

def channelmsgOpenchannel : UInt32 := 5
def channelmsgOpenchannelResult : UInt32 := 6
def channelmsgGpadlHeader : UInt32 := 8
def channelmsgGpadlBody : UInt32 := 9
def channelmsgGpadlCreated : UInt32 := 10

/-! ### Requests -/

/-- The PFNs that fit into a header and into a body message. -/
def maxPfnsInHeader : ℕ := (240 - 28) / 8
def maxPfnsPerBody : ℕ := (240 - 16) / 8

def gpadlHeader (childRelid gpadlHandle : UInt32) (byteCount : ℕ) (pfns : List UInt64) :
    List UInt8 :=
  le32 channelmsgGpadlHeader ++ le32 0 ++ le32 childRelid ++ le32 gpadlHandle ++
    le16 (UInt16.ofNat (8 + pfns.length * 8)) ++ le16 1 ++ le32 (UInt32.ofNat byteCount) ++
    le32 0 ++ (pfns.take maxPfnsInHeader).flatMap le64

def gpadlBody (gpadlHandle msgNumber : UInt32) (pfns : List UInt64) : List UInt8 :=
  le32 channelmsgGpadlBody ++ le32 0 ++ le32 msgNumber ++ le32 gpadlHandle ++ pfns.flatMap le64

/-- The body messages for the PFNs that the header has no room for. -/
def gpadlBodies (gpadlHandle msgNumber : UInt32) (remaining : List UInt64) : List (List UInt8) :=
  if h : remaining = [] then []
  else
    gpadlBody gpadlHandle msgNumber (remaining.take maxPfnsPerBody) ::
      gpadlBodies gpadlHandle (msgNumber + 1) (remaining.drop maxPfnsPerBody)
termination_by remaining.length
decreasing_by
  rw [List.length_drop]
  have := List.length_pos_iff.mpr h
  unfold maxPfnsPerBody
  omega

/-- The open id is the channel id, and the first byte of the user data asks for
message pipes. -/
def openchannel (childRelid gpadlHandle downstreamPageOffset : UInt32) : List UInt8 :=
  le32 channelmsgOpenchannel ++ le32 0 ++ le32 childRelid ++ le32 childRelid ++
    le32 gpadlHandle ++ le32 0 ++ le32 downstreamPageOffset ++ [1] ++ List.replicate 119 0

inductive Request
  | createGpadl (childRelid gpadlHandle : UInt32) (byteCount : ℕ) (pfns : List UInt64)
  | openChannel (childRelid gpadlHandle downstreamPageOffset : UInt32)
  deriving DecidableEq

namespace Request

/-- The messages that a call posts, in order. -/
def messages : Request → List (List UInt8)
  | createGpadl relid handle byteCount pfns =>
      gpadlHeader relid handle byteCount pfns ::
        gpadlBodies handle 0 (pfns.drop maxPfnsInHeader)
  | openChannel relid handle offset => [openchannel relid handle offset]

/-- The type of the answer. -/
def answerType : Request → UInt32
  | createGpadl .. => channelmsgGpadlCreated
  | openChannel .. => channelmsgOpenchannelResult

/-- The matcher: the status of a long enough message of the right type. -/
def answer (req : Request) (payload : List UInt8) : Option UInt32 :=
  if payload.length < 20 then none
  else if u32At payload 0 ≠ req.answerType then none
  else some (u32At payload 16)

/-- The answer names the handle, or the channel, of the request. -/
def Named : Request → List UInt8 → Prop
  | createGpadl _ handle _ _, payload => u32At payload 12 = handle
  | openChannel relid _ _, payload => u32At payload 8 = relid

instance : ∀ (req : Request) (payload : List UInt8), Decidable (req.Named payload)
  | createGpadl .., _ => inferInstanceAs (Decidable (_ = _))
  | openChannel .., _ => inferInstanceAs (Decidable (_ = _))

end Request

/-! ### The messages of a request -/

theorem length_flatMap_le64 (pfns : List UInt64) :
    (pfns.flatMap le64).length = 8 * pfns.length := by
  induction pfns with
  | nil => rfl
  | cons pfn rest ih =>
    rw [List.flatMap_cons, List.length_append, length_le64, ih, List.length_cons]
    omega

theorem length_gpadlHeader_le (relid handle : UInt32) (byteCount : ℕ) (pfns : List UInt64) :
    (gpadlHeader relid handle byteCount pfns).length ≤ payloadMax := by
  simp only [gpadlHeader, List.length_append, length_le32, length_le16, length_flatMap_le64,
    List.length_take, maxPfnsInHeader, payloadMax]
  omega

theorem length_gpadlBody_le (handle k : UInt32) (pfns : List UInt64) :
    (gpadlBody handle k (pfns.take maxPfnsPerBody)).length ≤ payloadMax := by
  simp only [gpadlBody, List.length_append, length_le32, length_flatMap_le64,
    List.length_take, maxPfnsPerBody, payloadMax]
  omega

theorem length_gpadlBodies_le (handle k : UInt32) (remaining : List UInt64) :
    ∀ m ∈ gpadlBodies handle k remaining, m.length ≤ payloadMax := by
  fun_induction gpadlBodies handle k remaining with
  | case1 => simp
  | case2 k remaining h ih =>
    intro m hm
    rcases List.mem_cons.mp hm with rfl | hm
    · exact length_gpadlBody_le handle k remaining
    · exact ih m hm

/-- Every message fits into one slot of the SynIC. -/
theorem Request.length_messages_le (req : Request) : ∀ m ∈ req.messages, m.length ≤ payloadMax := by
  intro m hm
  cases req with
  | createGpadl relid handle byteCount pfns =>
    rcases List.mem_cons.mp hm with rfl | hm
    · exact length_gpadlHeader_le relid handle byteCount pfns
    · exact length_gpadlBodies_le _ _ _ m hm
  | openChannel relid handle offset =>
    rw [List.mem_singleton.mp hm]
    simp [openchannel, payloadMax]

theorem drop_gpadlHeader (relid handle : UInt32) (byteCount : ℕ) (pfns : List UInt64) :
    (gpadlHeader relid handle byteCount pfns).drop 28 =
      (pfns.take maxPfnsInHeader).flatMap le64 :=
  List.drop_left' (by simp)

/-! ### Runs of the guest and the host -/

/-- The SynIC, the call that waits with what its matcher made of the message in hand,
and the history: the messages posted, those that the host sent and the results. -/
structure Sys where
  synic : Synic.Sys
  waiting : Option Request
  matched : Option UInt32
  posted : List (List UInt8)
  reported : List (List UInt8)
  results : List (Request × Except HvError Unit)

/-- The payload that `poll_message` makes of a message. -/
def payloadOf (m : HvMessage) : List UInt8 :=
  m.payload.toList.take (min m.payloadSize.toNat payloadMax)

inductive Act
  /-- A call; `fails` is the message whose posting fails, with the error. -/
  | call (req : Request) (fails : Option (ℕ × HvError))
  /-- One access of the waiting guest; `expired` says that the deadline has passed. -/
  | guest (expired : Bool)
  /-- The host sends a message, whose type is not 0. -/
  | queue (m : HvMessage)

/-- The call returns. -/
def finish (s : Sys) (req : Request) (r : Except HvError Unit) : Sys :=
  { s with waiting := none, matched := none, results := s.results ++ [(req, r)] }

def statusResult (status : UInt32) : Except HvError Unit :=
  if status = 0 then .ok () else .error (.hypercallFailed status.toUInt16)

/-- One access of `wait_for_match`. -/
def waitStep (s : Sys) (req : Request) (expired : Bool) : Sys :=
  match s.synic.ctl with
  | .idle =>
      match pollMessage s.synic.slot with
      | some payload => { s with synic := Synic.guestStep s.synic, matched := req.answer payload }
      | none => if expired then finish s req (.error .timeout) else s
  | .cleared _ =>
      -- the acknowledgement ends, and a match is returned
      let s := { s with synic := Synic.guestStep s.synic }
      match s.matched with
      | some status => finish s req (statusResult status)
      | none => s
  | _ => { s with synic := Synic.guestStep s.synic }

def step (s : Sys) : Act → Option Sys
  | .call req fails =>
      match s.waiting with
      | some _ => none
      | none =>
          match fails with
          | some (k, e) =>
              if k < req.messages.length then
                some (finish { s with posted := s.posted ++ req.messages.take k } req (.error e))
              else none
          | none => some { s with waiting := some req, posted := s.posted ++ req.messages }
  | .guest expired =>
      match s.waiting with
      | some req => some (waitStep s req expired)
      | none => none
  | .queue m =>
      if m.messageType = 0 then none
      else some { s with
        synic := Synic.hostQueue s.synic m, reported := s.reported ++ [payloadOf m] }

def init (slot : HvMessage) : Sys := ⟨Synic.init slot, none, none, [], [], []⟩

/-- The host has reported this status for the handle or the channel of the request. -/
def Reported (s : Sys) (req : Request) (status : UInt32) : Prop :=
  ∃ payload ∈ s.reported, req.Named payload ∧ req.answer payload = some status

/-- A call succeeds only if the host has reported success for it. -/
def ResultsBelong (s : Sys) : Prop := ∀ req, (req, .ok ()) ∈ s.results → Reported s req 0

/-- A success that the matcher of the waiting call accepts names what it waits for. -/
def AnswersWaiter (s : Sys) : Act → Prop
  | .guest _ => s.synic.ctl = .idle → ∀ req ∈ s.waiting, ∀ payload ∈ pollMessage s.synic.slot,
      req.answer payload = some 0 → req.Named payload
  | _ => True

instance (s : Sys) : ∀ a : Act, Decidable (AnswersWaiter s a)
  | .guest _ => by unfold AnswersWaiter; infer_instance
  | .call .. => .isTrue trivial
  | .queue _ => .isTrue trivial

/-! ### The messages of the host -/

theorem pollMessage_eq_some {slot : HvMessage} {payload : List UInt8}
    (h : pollMessage slot = some payload) : slot.messageType ≠ 0 ∧ payload = payloadOf slot := by
  rw [pollMessage] at h
  by_cases h0 : slot.messageType = 0
  · rw [if_pos h0] at h
    exact absurd h (by simp)
  · rw [if_neg h0] at h
    exact ⟨h0, (Option.some_inj.mp h).symm⟩

/-- What the slot and the queue hold, the host has sent. -/
structure Sent (s : Synic.Sys) (reported : List (List UInt8)) : Prop where
  slot : s.slot.messageType ≠ 0 → payloadOf s.slot ∈ reported
  queue : ∀ m ∈ s.queue, payloadOf m ∈ reported

theorem Sent.deliver {s : Synic.Sys} {reported : List (List UInt8)} (h : Sent s reported) :
    Sent (Synic.deliver s) reported := by
  rw [Synic.deliver]
  by_cases h0 : s.slot.messageType = 0
  · rw [if_pos h0]
    cases hq : s.queue with
    | nil => exact h
    | cons m rest =>
      have hall := h.queue
      rw [hq] at hall
      exact ⟨fun _ => hall m (by simp), fun m' hm' => hall m' (List.mem_cons_of_mem _ hm')⟩
  · rw [if_neg h0]
    exact h

theorem Sent.guestStep {s : Synic.Sys} {reported : List (List UInt8)} (h : Sent s reported) :
    Sent (Synic.guestStep s) reported := by
  rw [Synic.guestStep]
  cases s.ctl with
  | idle =>
    cases pollMessage s.slot with
    | none => exact h
    | some payload => exact ⟨h.slot, h.queue⟩
  | polled payload => exact ⟨h.slot, h.queue⟩
  | flagsRead flags => exact ⟨fun h0 => absurd rfl h0, h.queue⟩
  | cleared flags =>
    have hidle : Sent { s with ctl := .idle } reported := ⟨h.slot, h.queue⟩
    by_cases hf : Synic.messagePending flags = true
    · simp only [if_pos hf]
      exact hidle.deliver
    · simp only [if_neg hf]
      exact hidle

theorem Sent.hostQueue {s : Synic.Sys} {reported : List (List UInt8)} (h : Sent s reported)
    (m : HvMessage) : Sent (Synic.hostQueue s m) (reported ++ [payloadOf m]) := by
  have hqueue : ∀ m' ∈ s.queue ++ [m], payloadOf m' ∈ reported ++ [payloadOf m] := by
    intro m' hm'
    rcases List.mem_append.mp hm' with hm' | hm'
    · exact List.mem_append_left _ (h.queue m' hm')
    · rw [List.mem_singleton.mp hm']
      exact List.mem_append_right _ (by simp)
  have hslot : s.slot.messageType ≠ 0 → payloadOf s.slot ∈ reported ++ [payloadOf m] :=
    fun h0 => List.mem_append_left _ (h.slot h0)
  rw [Synic.hostQueue]
  by_cases h0 : s.slot.messageType = 0
  · rw [if_pos h0]
    exact Sent.deliver (s := { s with queue := s.queue ++ [m] }) ⟨hslot, hqueue⟩
  · rw [if_neg h0]
    exact ⟨hslot, hqueue⟩

/-! ### The invariant -/

structure Inv (s : Sys) : Prop where
  sent : Sent s.synic s.reported
  /-- Nothing is matched outside a call. -/
  idle : s.waiting = none → s.matched = none
  /-- A success that is matched and not yet returned was reported for the waiting call. -/
  matched : ∀ req, s.waiting = some req → s.matched = some 0 → Reported s req 0
  results : ResultsBelong s

theorem init_inv (slot : HvMessage) : Inv (init slot) where
  sent := ⟨fun h => absurd rfl h, fun _ h => absurd h (by simp [init, Synic.init])⟩
  idle := fun _ => rfl
  matched := fun _ h => absurd h (by simp [init])
  results := fun _ h => absurd h (by simp [init])

/-- A call may return what its request was promised. -/
theorem Inv.finish {s : Sys} {req : Request} {r : Except HvError Unit} (hi : Inv s)
    (hr : r = .ok () → Reported s req 0) : Inv (finish s req r) where
  sent := hi.sent
  idle := fun _ => rfl
  matched := fun _ h => absurd h (by simp [Channel.finish])
  results := by
    intro req' h
    rcases List.mem_append.mp h with h | h
    · exact hi.results req' h
    · obtain ⟨rfl, rfl⟩ := Prod.mk.inj (List.mem_singleton.mp h)
      exact hr rfl

theorem statusResult_ok {status : UInt32} (h : statusResult status = .ok ()) : status = 0 := by
  rw [statusResult] at h
  by_cases h0 : status = 0
  · exact h0
  · rw [if_neg h0] at h
    exact absurd h (by simp)

/-- A step of the SynIC alone. -/
theorem Inv.synic {s : Sys} (hi : Inv s) : Inv { s with synic := Synic.guestStep s.synic } :=
  ⟨hi.sent.guestStep, hi.idle, hi.matched, hi.results⟩

theorem Inv.waitStep {s : Sys} {req : Request} {expired : Bool} (hi : Inv s)
    (hw : s.waiting = some req) (hg : AnswersWaiter s (.guest expired)) :
    Inv (waitStep s req expired) := by
  rw [Channel.waitStep]
  cases hc : s.synic.ctl with
  | idle =>
    cases hp : pollMessage s.synic.slot with
    | some payload =>
      obtain ⟨hfull, rfl⟩ := pollMessage_eq_some hp
      refine ⟨hi.sent.guestStep, fun h => absurd (hw.symm.trans h) (by simp), ?_, hi.results⟩
      intro req' hw' hm
      obtain rfl := Option.some_inj.mp (hw.symm.trans hw')
      exact ⟨_, hi.sent.slot hfull, hg hc req hw _ hp hm, hm⟩
    | none =>
      cases expired with
      | true => exact hi.finish (fun h => absurd h (by simp))
      | false => exact hi
  | polled payload => exact hi.synic
  | flagsRead flags => exact hi.synic
  | cleared flags =>
    -- the acknowledgement is over, so a match becomes the result of the call
    dsimp only
    split
    · rename_i status hm
      refine hi.synic.finish fun hok => hi.matched req hw ?_
      rw [hm, statusResult_ok hok]
    · exact hi.synic

/-- A call is made; it waits for the answer, or fails while its messages are posted. -/
theorem Inv.call {s u : Sys} (hi : Inv s) {req : Request} {fails : Option (ℕ × HvError)}
    (h : step s (.call req fails) = some u) : Inv u := by
  cases hw : s.waiting with
  | some _ => simp [Channel.step, hw] at h
  | none =>
    cases fails with
    | none =>
      simp only [Channel.step, hw, Option.some.injEq] at h
      subst h
      refine ⟨hi.sent, fun h => absurd h (by simp), fun _ _ hm => ?_, hi.results⟩
      exact absurd ((hi.idle hw).symm.trans hm) (by simp)
    | some f =>
      obtain ⟨k, e⟩ := f
      simp only [Channel.step, hw] at h
      by_cases hk : k < req.messages.length
      · rw [if_pos hk, Option.some.injEq] at h
        subst h
        have hposted : Inv { s with posted := s.posted ++ req.messages.take k } :=
          ⟨hi.sent, hi.idle, hi.matched, hi.results⟩
        exact hposted.finish (fun h => absurd h (by simp))
      · rw [if_neg hk] at h
        exact absurd h (by simp)

theorem Inv.queue {s u : Sys} (hi : Inv s) {m : HvMessage} (h : step s (.queue m) = some u) :
    Inv u := by
  rw [Channel.step] at h
  by_cases h0 : m.messageType = 0
  · rw [if_pos h0] at h
    exact absurd h (by simp)
  · rw [if_neg h0, Option.some.injEq] at h
    subst h
    have hmono : ∀ {req status}, Reported s req status →
        ∃ payload ∈ s.reported ++ [payloadOf m],
          req.Named payload ∧ req.answer payload = some status :=
      fun h => h.imp fun _ hp => ⟨List.mem_append_left _ hp.1, hp.2⟩
    exact ⟨hi.sent.hostQueue m, hi.idle, fun req hw hm => hmono (hi.matched req hw hm),
      fun req hr => hmono (hi.results req hr)⟩

theorem Inv.step {s u : Sys} {a : Act} (hi : Inv s) (hg : AnswersWaiter s a)
    (h : step s a = some u) : Inv u := by
  cases a with
  | call req fails => exact hi.call h
  | guest expired =>
    cases hw : s.waiting with
    | none => simp [Channel.step, hw] at h
    | some req =>
      simp only [Channel.step, hw, Option.some.injEq] at h
      subst h
      exact hi.waitStep hw hg
  | queue m => exact hi.queue h

/-- **Results belong to their requests if the answers do.**  In every run of calls,
host messages and timeouts in which each success that a matcher accepts names the
handle, or the channel, of the call that waits, a call returns `Ok` only if the host
has reported success for that handle or channel. -/
theorem resultsBelong_of_answersWaiter (slot : HvMessage) {l : List Act} {s : Sys}
    (h : Exec step AnswersWaiter (init slot) l s) : ResultsBelong s :=
  (h.invariant (init_inv slot) Inv.step).results

/-! ### A late answer -/

/-- A channel message with this payload. -/
def channelMessage (payload : List UInt8) : HvMessage :=
  ⟨1, UInt8.ofNat payload.length, 0, Vector.ofFn fun i => payload.getD i 0⟩

def gpadlCreated (childRelid gpadl status : UInt32) : HvMessage :=
  channelMessage (le32 channelmsgGpadlCreated ++ le32 0 ++ le32 childRelid ++ le32 gpadl ++
    le32 status)

/-- Poll, match and acknowledge one message. -/
def matchOne : List Act := List.replicate 4 (.guest false)

theorem resultsBelong_one_gpadl :
    ∃ s, Exec step AnswersWaiter (init (gpadlCreated 0 0 0))
        (.call (.createGpadl 5 1 4096 [7]) none :: .queue (gpadlCreated 5 1 0) :: matchOne) s ∧
      s.results = [(.createGpadl 5 1 4096 [7], .ok ())] ∧ ResultsBelong s := by
  obtain ⟨s, hs, hr⟩ : ∃ s, Exec step AnswersWaiter (init (gpadlCreated 0 0 0))
      (.call (.createGpadl 5 1 4096 [7]) none :: .queue (gpadlCreated 5 1 0) :: matchOne) s ∧
        s.results = [(.createGpadl 5 1 4096 [7], .ok ())] :=
    Exec.exists_of_run (by decide +kernel)
  exact ⟨s, hs, hr, resultsBelong_of_answersWaiter _ hs⟩

/-- The answer for handle 1 arrives after its call has timed out, while the call for
handle 2 waits, and completes it: the host has said nothing about handle 2. -/
theorem late_answer_taken :
    ∃ s, Exec step (fun _ _ => True) (init (gpadlCreated 0 0 0))
        (.call (.createGpadl 5 1 4096 [7]) none :: .guest true ::
          .call (.createGpadl 5 2 4096 [8]) none :: .queue (gpadlCreated 5 1 0) :: matchOne) s ∧
      s.results = [(.createGpadl 5 1 4096 [7], .error .timeout),
        (.createGpadl 5 2 4096 [8], .ok ())] ∧
      ¬ ResultsBelong s := by
  obtain ⟨s, hs, hr, hall⟩ : ∃ s, Exec step (fun _ _ => True) (init (gpadlCreated 0 0 0))
      (.call (.createGpadl 5 1 4096 [7]) none :: .guest true ::
        .call (.createGpadl 5 2 4096 [8]) none :: .queue (gpadlCreated 5 1 0) :: matchOne) s ∧
        s.results = [(.createGpadl 5 1 4096 [7], .error .timeout),
          (.createGpadl 5 2 4096 [8], .ok ())] ∧
        ∀ payload ∈ s.reported, ¬ (Request.createGpadl 5 2 4096 [8]).Named payload :=
    Exec.exists_of_run (by decide +kernel)
  refine ⟨s, hs, hr, fun hb => ?_⟩
  obtain ⟨payload, hp, hnamed, -⟩ := hb (.createGpadl 5 2 4096 [8]) (by simp [hr])
  exact hall payload hp hnamed

end Channel
