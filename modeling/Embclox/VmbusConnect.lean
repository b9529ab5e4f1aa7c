/-
`connect`: the version of the VMBus protocol.

The guest posts INITIATE_CONTACT with a version and waits for a VERSION_RESPONSE, which
does not say which request it answers; after a rejection it tries the next version.  The
host answers each request at most once and may send other messages at any time.

* `Sys`, `step` — the requests, the wait for each of them and the host;
* `Inv` — the responses that the guest has not seen are those to the last request;
* `Agreed`, `agreed_of_run` — a version that `connect` returns is the one that the host
  accepted, after it had rejected the versions before it.
-/
import Embclox.Hypercall
import Embclox.WaitMatch

open Bytes Effect Matching Run WaitMatch
open Netvsc (HvError)
open Synic (HvMessage)

namespace VmbusConnect

def vmbusMessageConnectionId : UInt32 := 1
def vmbusMessageTypeChannel : UInt32 := 1
def channelmsgInitiateContact : UInt32 := 14
def channelmsgVersionResponse : UInt32 := 15
def versionWin10 : UInt32 := (4 : UInt32) <<< 16
def versionWin81 : UInt32 := (3 : UInt32) <<< 16

/-- The versions that `connect` tries, in order. -/
def versions : List UInt32 := [versionWin10, versionWin81]

def targetInfoForVersion (version : UInt32) : UInt64 :=
  if versionWin81 ≤ version then 0x0000000000000100 else 0

/-- `VmbusInitiateContact` -/
def initiateContact (monitor1 monitor2 : UInt64) (version : UInt32) : List UInt8 :=
  [channelmsgInitiateContact, 0, version, 0].flatMap le32 ++
    [targetInfoForVersion version, monitor1, monitor2].flatMap le64

/-- The matcher of `try_version`; `VmbusVersionResponse` has 12 bytes. -/
def versionMatcher (_ : Unit) (payload : List UInt8) : Unit × Option (Except HvError Unit) :=
  if payload.length < 12 then ((), none)
  else if u32At payload 0 ≠ channelmsgVersionResponse then ((), none)
  else ((), some (if payload.getD 8 0 ≠ 0 then .ok () else .error .versionRejected))

/-- What the matcher makes of a message. -/
def response (payload : List UInt8) : Option (Except HvError Unit) := (versionMatcher () payload).2

/-- The host's decision, as the guest reads it. -/
def verdict (accepted : Bool) : Except HvError Unit :=
  if accepted then .ok () else .error .versionRejected

inductive Pc
  /-- The first of the versions that are left is posted next. -/
  | posting
  | waiting
  | returned (result : Except HvError UInt32)
  deriving DecidableEq

/-- The wait, the versions that are left, and the history: the requests that were
delivered and the host's decisions. -/
structure Sys where
  wait : WaitMatch.Sys Unit (Except HvError Unit)
  left : List UInt32
  pc : Pc
  contacts : List (List UInt8)
  answers : List Bool

inductive Act
  /-- Post the request; the hypercalls return `status`. -/
  | post (status : ℕ → UInt64)
  /-- A step of the wait, or the host shows a message. -/
  | wait (a : WaitMatch.Act)
  /-- `try_version` returns. -/
  | finish
  /-- The host answers a request with `m`. -/
  | answer (m : Message) (accepted : Bool)
  /-- The host sends a message that is no VERSION_RESPONSE. -/
  | other (m : Message)

/-- A future that has not been polled yet, on the same slot. -/
def freshWait (w : WaitMatch.Sys Unit (Except HvError Unit)) :
    WaitMatch.Sys Unit (Except HvError Unit) :=
  { w with captured := (), ctl := .parked, calls := [], acked := [] }

/-- The body of the loop of `connect`, once `try_version` has returned. -/
def attemptEnds (s : Sys) (result : Except HvError Unit) : Sys :=
  match s.left, result with
  | v :: _, .ok () => { s with pc := .returned (.ok v) }
  | _ :: [], .error .versionRejected => { s with pc := .returned (.error .versionRejected) }
  | _ :: rest, .error .versionRejected =>
      { s with wait := freshWait s.wait, left := rest, pc := .posting }
  | _, .error e => { s with pc := .returned (.error e) }
  | [], .ok () => s

def queue (s : Sys) (m : Message) : Sys :=
  { s with wait := { s.wait with upcoming := s.wait.upcoming ++ [m] } }

/-- The hypercall page is used by nobody else, so each request starts with no calls. -/
def step (monitor1 monitor2 : UInt64) (s : Sys) : Act → Option Sys
  | .post status =>
      match s.pc, s.left with
      | .posting, v :: _ =>
          let msg := initiateContact monitor1 monitor2 v
          match (Hypercall.postMessage status vmbusMessageConnectionId vmbusMessageTypeChannel
            msg []).1 with
          | .ok () => some { s with pc := .waiting, contacts := s.contacts ++ [msg] }
          | .err e => some (attemptEnds s (.error e))
          | .panic => none
      | _, _ => none
  | .wait a =>
      -- nobody polls the future before the request is posted
      if s.pc = .waiting ∨ a = .present ∨ a = .mark then
        (WaitMatch.step versionMatcher s.wait a).map fun w => { s with wait := w }
      else none
  | .finish =>
      match s.pc, s.wait.ctl with
      | .waiting, .done (.ok result) => some (attemptEnds s result)
      | .waiting, .done (.error e) => some (attemptEnds s (.error e))
      | _, _ => none
  | .answer m accepted =>
      if s.answers.length < s.contacts.length ∧ response m.bytes = some (verdict accepted) then
        some { queue s m with answers := s.answers ++ [accepted] }
      else none
  | .other m => if response m.bytes = none then some (queue s m) else none

/-- Nothing is requested yet, and the slot is empty. -/
def start (slot : HvMessage) : Sys := ⟨WaitMatch.init slot () [], versions, .posting, [], []⟩

/-- What a result of `connect` says about the requests and the host's decisions. -/
structure Agreed (monitor1 monitor2 : UInt64) (s : Sys) : Prop where
  /-- A version is the last one that was requested; the host accepted it and rejected
  the others. -/
  accepted : ∀ v, s.pc = .returned (.ok v) → ∃ tried, tried ++ [v] <+: versions ∧
    s.contacts = (tried ++ [v]).map (initiateContact monitor1 monitor2) ∧
    s.contacts.map (u32At · 8) = tried ++ [v] ∧
    s.answers = tried.map (fun _ => false) ++ [true]
  /-- `VersionRejected` means that the host rejected them all. -/
  rejected : s.pc = .returned (.error .versionRejected) →
    s.contacts = versions.map (initiateContact monitor1 monitor2) ∧
    s.answers = versions.map fun _ => false

/-! ### The responses in a sequence of messages -/

def responses (payloads : List (List UInt8)) : List (Except HvError Unit) :=
  payloads.filterMap response

theorem responses_append (ps ps' : List (List UInt8)) :
    responses (ps ++ ps') = responses ps ++ responses ps' :=
  List.filterMap_append

theorem responses_singleton (p : List UInt8) : responses [p] = (response p).toList := by
  cases h : response p with
  | none => exact List.filterMap_cons_none h
  | some r => exact List.filterMap_cons_some h

theorem versionMatcher_eq (payload : List UInt8) :
    versionMatcher () payload = ((), response payload) := rfl

theorem responses_of_feed_none {payloads : List (List UInt8)}
    (h : (feed versionMatcher () payloads).2 = none) : responses payloads = [] := by
  induction payloads with
  | nil => rfl
  | cons p rest ih =>
    have hm := versionMatcher_eq p
    cases hp : response p with
    | some r =>
      rw [hp] at hm
      rw [feed_cons_of_some hm] at h
      exact absurd h (by simp)
    | none =>
      rw [hp] at hm
      rw [feed_cons_of_none hm] at h
      rw [responses, List.filterMap_cons_none hp]
      exact ih h

/-- Up to the first match there is one response. -/
theorem responses_of_feed_some {payloads : List (List UInt8)} {r : Except HvError Unit}
    (h : (feed versionMatcher () payloads).2 = some r)
    (hupTo : upTo versionMatcher () payloads = payloads) : responses payloads = [r] := by
  induction payloads with
  | nil => exact absurd h (by simp [feed])
  | cons p rest ih =>
    cases hp : response p with
    | some r' =>
      have hm : versionMatcher () p = ((), some r') := by rw [versionMatcher_eq, hp]
      rw [feed_cons_of_some hm] at h
      rw [upTo_cons_of_some hm, List.cons.injEq] at hupTo
      obtain rfl := Option.some.inj h
      rw [← hupTo.2, responses, List.filterMap_cons_some hp]
      rfl
    | none =>
      have hm : versionMatcher () p = ((), none) := by rw [versionMatcher_eq, hp]
      rw [feed_cons_of_none hm] at h
      rw [upTo_cons_of_none hm, List.cons.injEq] at hupTo
      rw [responses, List.filterMap_cons_none hp]
      exact ih h hupTo.2

/-! ### The messages of a wait -/

/-- What the guest has not seen yet. -/
def unread (w : WaitMatch.Sys Unit (Except HvError Unit)) : List (List UInt8) :=
  w.unseen ++ w.upcoming.map Message.bytes

/-- `WaitMatch.Inv` with the messages that came so far. -/
def Waits (w : WaitMatch.Sys Unit (Except HvError Unit)) : Prop :=
  ∃ ms, WaitMatch.Inv versionMatcher () ms w

section

variable {w w' : WaitMatch.Sys Unit (Except HvError Unit)}

/-- The responses are those that the matcher saw, at most one, and those to come. -/
theorem Waits.calls (h : Waits w) :
    responses w.calls = w.ctl.result.toList := by
  obtain ⟨ms, hi⟩ := h
  have hfed := congrArg Prod.snd hi.fed
  cases hr : w.ctl.result with
  | none => exact responses_of_feed_none (hfed.trans hr)
  | some r => exact responses_of_feed_some (hfed.trans hr) hi.seen

/-- A step of the wait moves no message. -/
theorem Waits.step {a : WaitMatch.Act} (h : Waits w)
    (hstep : WaitMatch.step versionMatcher w a = some w') :
    Waits w' ∧ w'.calls ++ unread w' = w.calls ++ unread w := by
  obtain ⟨ms, hi⟩ := h
  have hi' := hi.step hstep
  exact ⟨⟨ms, hi'⟩, hi'.order.trans hi.order.symm⟩

theorem Waits.arrive (h : Waits w) (m : Message) :
    Waits { w with upcoming := w.upcoming ++ [m] } := by
  obtain ⟨ms, hi⟩ := h
  refine ⟨ms ++ [m], ⟨?_, hi.acked, hi.fed, hi.seen, hi.full, hi.timeout⟩⟩
  have horder := congrArg (· ++ [m.bytes]) hi.order
  simpa [Sys.unseen] using horder

theorem unread_arrive (m : Message) :
    unread { w with upcoming := w.upcoming ++ [m] } = unread w ++ [m.bytes] := by
  simp [unread, Sys.unseen]

/-- The next wait starts with what is left. -/
theorem waits_freshWait (hdone : w.ctl.handling = false) :
    Waits (freshWait w) ∧ unread (freshWait w) = unread w := by
  have hunread : unread (freshWait w) = unread w := by
    have hparked : (Ctl.parked : Ctl (Except HvError Unit)).handling = false := rfl
    simp [unread, freshWait, Sys.unseen, hdone, hparked]
  refine ⟨?_, hunread⟩
  by_cases h0 : w.slot.messageType = 0
  · refine ⟨w.upcoming, ⟨?_, rfl, rfl, rfl, ?_, ?_⟩⟩
    · simp [freshWait, Sys.unseen, Ctl.handling, inSlot, h0]
    · exact fun h => absurd h (by simp [freshWait, Ctl.handling])
    · exact fun _ h => absurd h (by simp [freshWait])
  · refine ⟨⟨w.slot, h0⟩ :: w.upcoming, ⟨?_, rfl, rfl, rfl, ?_, ?_⟩⟩
    · simp [freshWait, Sys.unseen, Ctl.handling, inSlot, h0, Message.bytes]
    · exact fun h => absurd h (by simp [freshWait, Ctl.handling])
    · exact fun _ h => absurd h (by simp [freshWait])

end

/-! ### The conversation -/

variable {monitor1 monitor2 : UInt64} {s u : Sys}

/-- `tried` are the versions that were rejected. -/
structure Talks (monitor1 monitor2 : UInt64) (tried : List UInt32) (s : Sys) : Prop where
  waits : Waits s.wait
  order : tried ++ s.left = versions
  /-- The guest waits for at most one answer. -/
  contacts : s.contacts =
    (if s.pc = .waiting then tried ++ s.left.take 1 else tried).map
      (initiateContact monitor1 monitor2)
  answered : s.answers.length ≤ s.contacts.length
  rejections : ∃ rest, s.answers = tried.map (fun _ => false) ++ rest ∧
    responses (s.wait.calls ++ unread s.wait) = rest.map verdict
  idle : s.pc = .posting → s.wait.ctl = .parked ∧ s.wait.calls = []
  some_left : s.left ≠ []

/-- The guest is still talking, or has a result. -/
def Inv (monitor1 monitor2 : UInt64) (s : Sys) : Prop :=
  match s.pc with
  | .returned _ => Agreed monitor1 monitor2 s
  | _ => ∃ tried, Talks monitor1 monitor2 tried s

theorem start_inv (slot : HvMessage) : Inv monitor1 monitor2 (start slot) :=
  ⟨[], ⟨⟨[], WaitMatch.init_inv slot⟩, rfl, rfl, Nat.le_refl _, ⟨[], rfl, rfl⟩,
    fun _ => ⟨rfl, rfl⟩, List.cons_ne_nil _ _⟩⟩

/-- The request fits into a message. -/
theorem length_initiateContact (v : UInt32) :
    (initiateContact monitor1 monitor2 v).length = 40 := by
  simp [initiateContact]

/-- The host finds the version at offset 8. -/
theorem version_initiateContact (v : UInt32) :
    u32At (initiateContact monitor1 monitor2 v) 8 = v :=
  u32At_flatMap_le32 (i := 2) rfl _

/-- Posting a request does not panic. -/
theorem post_isSome (hpc : s.pc = .posting) (hleft : s.left ≠ []) (status : ℕ → UInt64) :
    (step monitor1 monitor2 s (.post status)).isSome = true := by
  obtain ⟨v, rest, hv⟩ := List.exists_cons_of_ne_nil hleft
  have hlen : (initiateContact monitor1 monitor2 v).length ≤ Synic.payloadMax := by
    rw [length_initiateContact]
    decide
  obtain ⟨_, -, hends⟩ := Hypercall.postMessage_ends status vmbusMessageConnectionId
    vmbusMessageTypeChannel hlen []
  simp only [step, hpc, hv]
  cases hout : (Hypercall.postMessage status vmbusMessageConnectionId vmbusMessageTypeChannel
      (initiateContact monitor1 monitor2 v) []).1 with
  | ok => rfl
  | err e => rfl
  | panic =>
    rw [hout] at hends
    cases hends

/-- The request is posted, or `connect` returns an error that is not a rejection. -/
theorem Talks.post {tried : List UInt32} {v : UInt32} {rest : List UInt32}
    (ht : Talks monitor1 monitor2 tried s) (hpc : s.pc = .posting) (hleft : s.left = v :: rest) :
    Talks monitor1 monitor2 tried
      { s with
        pc := .waiting
        contacts := s.contacts ++ [initiateContact monitor1 monitor2 v] } where
  waits := ht.waits
  order := ht.order
  contacts := by simp [ht.contacts, hpc, hleft]
  answered := by
    rw [List.length_append]
    exact Nat.le_trans ht.answered (Nat.le_add_right _ _)
  rejections := ht.rejections
  idle := fun h => absurd h (by simp)
  some_left := ht.some_left

/-- A message that is no response. -/
theorem Talks.other {tried : List UInt32} (ht : Talks monitor1 monitor2 tried s) {m : Message}
    (hm : response m.bytes = none) : Talks monitor1 monitor2 tried (queue s m) where
  waits := ht.waits.arrive m
  order := ht.order
  contacts := ht.contacts
  answered := ht.answered
  rejections := by
    obtain ⟨rest, hans, hresp⟩ := ht.rejections
    refine ⟨rest, hans, ?_⟩
    simp only [queue, unread_arrive]
    rw [← List.append_assoc, responses_append, hresp, responses_singleton, hm]
    exact List.append_nil _
  idle := ht.idle
  some_left := ht.some_left

theorem Talks.answer {tried : List UInt32} (ht : Talks monitor1 monitor2 tried s) {m : Message}
    {accepted : Bool} (hroom : s.answers.length < s.contacts.length)
    (hm : response m.bytes = some (verdict accepted)) :
    Talks monitor1 monitor2 tried { queue s m with answers := s.answers ++ [accepted] } where
  waits := ht.waits.arrive m
  order := ht.order
  contacts := ht.contacts
  answered := by
    rw [List.length_append]
    exact hroom
  rejections := by
    obtain ⟨rest, hans, hresp⟩ := ht.rejections
    refine ⟨rest ++ [accepted], by simp [hans], ?_⟩
    simp only [queue, unread_arrive]
    rw [← List.append_assoc, responses_append, hresp, responses_singleton, hm, List.map_append]
    rfl
  idle := ht.idle
  some_left := ht.some_left

theorem Talks.wait {tried : List UInt32} (ht : Talks monitor1 monitor2 tried s)
    {a : WaitMatch.Act} {w : WaitMatch.Sys Unit (Except HvError Unit)}
    (hpc : s.pc = .waiting ∨ a = .present ∨ a = .mark)
    (hstep : WaitMatch.step versionMatcher s.wait a = some w) :
    Talks monitor1 monitor2 tried { s with wait := w } where
  waits := (ht.waits.step hstep).1
  order := ht.order
  contacts := ht.contacts
  answered := ht.answered
  rejections := by
    obtain ⟨rest, hans, hresp⟩ := ht.rejections
    exact ⟨rest, hans, by rw [(ht.waits.step hstep).2, hresp]⟩
  idle := by
    intro hpost
    have hidle := ht.idle hpost
    have hnot : s.pc ≠ .waiting := fun h => absurd (hpost.symm.trans h) (by simp)
    rcases WaitMatch.step_cases hstep with ⟨rfl, -, rfl⟩ | ⟨e, rfl, -, rfl⟩ | ⟨m, r, -, -, -, rfl⟩ |
      ⟨-, rfl⟩
    · exact absurd hpc (by simp [hnot])
    · exact absurd hpc (by simp [hnot])
    · exact hidle
    · exact hidle
  some_left := ht.some_left

/-- **The answer is to the last request**: when the wait has found a response, the host has
answered all requests, and this is its last decision. -/
theorem Talks.matched {tried : List UInt32} (ht : Talks monitor1 monitor2 tried s)
    (hpc : s.pc = .waiting) {v : UInt32} {rest : List UInt32} (hleft : s.left = v :: rest)
    {r : Except HvError Unit} (hdone : s.wait.ctl = .done (.ok r)) :
    ∃ accepted, r = verdict accepted ∧ s.answers = tried.map (fun _ => false) ++ [accepted] ∧
      responses (unread s.wait) = [] := by
  obtain ⟨later, hans, hresp⟩ := ht.rejections
  have hcalls := ht.waits.calls
  rw [hdone] at hcalls
  have hcontacts : s.contacts.length = tried.length + 1 := by
    simp [ht.contacts, hpc, hleft]
  have hlen : later.length ≤ 1 := by
    have h := ht.answered
    rw [hcontacts, hans, List.length_append, List.length_map] at h
    omega
  have hsum : r :: responses (unread s.wait) = later.map verdict := by
    rw [← hresp, responses_append, hcalls]
    rfl
  cases later with
  | nil => exact absurd hsum (by simp)
  | cons accepted more =>
    obtain rfl : more = [] := List.length_eq_zero_iff.mp (by simpa using hlen)
    rw [List.map_singleton, List.cons.injEq] at hsum
    exact ⟨accepted, hsum.1, hans, hsum.2⟩

/-- `connect` returns the version. -/
theorem Talks.accepted {tried : List UInt32} (ht : Talks monitor1 monitor2 tried s)
    (hpc : s.pc = .waiting) {v : UInt32} {rest : List UInt32} (hleft : s.left = v :: rest)
    (hans : s.answers = tried.map (fun _ => false) ++ [true]) :
    Agreed monitor1 monitor2 { s with pc := .returned (.ok v) } where
  accepted := by
    intro v' hv'
    obtain rfl := Except.ok.inj (Pc.returned.inj hv')
    have hcontacts : s.contacts = (tried ++ [v]).map (initiateContact monitor1 monitor2) := by
      simp [ht.contacts, hpc, hleft]
    refine ⟨tried, ⟨rest, ?_⟩, hcontacts, ?_, hans⟩
    · rw [← ht.order, hleft, List.append_assoc]
      rfl
    · rw [hcontacts, List.map_map]
      exact List.map_id'' version_initiateContact _
  rejected := fun h => absurd h (by simp)

/-- The last version is rejected. -/
theorem Talks.allRejected {tried : List UInt32} (ht : Talks monitor1 monitor2 tried s)
    (hpc : s.pc = .waiting) {v : UInt32} (hleft : s.left = [v])
    (hans : s.answers = tried.map (fun _ => false) ++ [false]) :
    Agreed monitor1 monitor2 { s with pc := .returned (.error .versionRejected) } where
  accepted := fun _ h => absurd h (by simp)
  rejected := fun _ => by
    have hv : tried ++ [v] = versions := by rw [← hleft, ht.order]
    refine ⟨?_, ?_⟩
    · simp [ht.contacts, hpc, hleft, ← hv]
    · simp [hans, ← hv]

/-- The next version is tried. -/
theorem Talks.next {tried : List UInt32} (ht : Talks monitor1 monitor2 tried s)
    (hpc : s.pc = .waiting) {v v' : UInt32} {rest : List UInt32} (hleft : s.left = v :: v' :: rest)
    (hans : s.answers = tried.map (fun _ => false) ++ [false])
    (hdone : s.wait.ctl.handling = false) (hunread : responses (unread s.wait) = []) :
    Talks monitor1 monitor2 (tried ++ [v])
      { s with wait := freshWait s.wait, left := v' :: rest, pc := .posting } where
  waits := (waits_freshWait hdone).1
  order := by
    rw [← ht.order, hleft, List.append_assoc]
    rfl
  contacts := by simp [ht.contacts, hpc, hleft]
  answered := ht.answered
  rejections := by
    refine ⟨[], by simp [hans], ?_⟩
    rw [(waits_freshWait hdone).2]
    exact hunread
  idle := fun _ => ⟨rfl, rfl⟩
  some_left := by simp

/-- An error that is not a rejection says nothing about the host. -/
theorem agreed_of_error {e : HvError} (he : e ≠ .versionRejected) :
    Agreed monitor1 monitor2 { s with pc := .returned (.error e) } where
  accepted := fun _ h => absurd h (by simp)
  rejected := fun h => absurd (Except.error.inj (Pc.returned.inj h)) he

theorem attemptEnds_of_error (hleft : s.left ≠ []) {e : HvError} (he : e ≠ .versionRejected) :
    attemptEnds s (.error e) = { s with pc := .returned (.error e) } := by
  obtain ⟨v, rest, hv⟩ := List.exists_cons_of_ne_nil hleft
  unfold attemptEnds
  rw [hv]
  cases e <;> cases rest <;> first | rfl | exact absurd rfl he

/-- **The end of an attempt.** -/
theorem Talks.attemptEnds {tried : List UInt32} (ht : Talks monitor1 monitor2 tried s)
    (hpc : s.pc = .waiting) {r : Except HvError Unit} (hdone : s.wait.ctl = .done (.ok r)) :
    Inv monitor1 monitor2 (attemptEnds s r) := by
  obtain ⟨v, rest, hleft⟩ := List.exists_cons_of_ne_nil ht.some_left
  obtain ⟨accepted, rfl, hans, hunread⟩ := ht.matched hpc hleft hdone
  cases accepted with
  | true =>
    have heq : VmbusConnect.attemptEnds s (verdict true) = { s with pc := .returned (.ok v) } := by
      simp only [VmbusConnect.attemptEnds, hleft, verdict, if_true]
    rw [heq]
    exact ht.accepted hpc hleft hans
  | false =>
    cases rest with
    | nil =>
      have heq : VmbusConnect.attemptEnds s (verdict false) =
          { s with pc := .returned (.error .versionRejected) } := by
        simp [VmbusConnect.attemptEnds, hleft, verdict]
      rw [heq]
      exact ht.allRejected hpc hleft hans
    | cons v' rest =>
      have heq : VmbusConnect.attemptEnds s (verdict false) =
          { s with wait := freshWait s.wait, left := v' :: rest, pc := .posting } := by
        simp [VmbusConnect.attemptEnds, hleft, verdict]
      rw [heq]
      exact ⟨_, ht.next hpc hleft hans (by rw [hdone]; rfl) hunread⟩

/-- A result is not changed by what the host does later: all requests are answered. -/
theorem Agreed.later (ha : Agreed monitor1 monitor2 s)
    {w : WaitMatch.Sys Unit (Except HvError Unit)} {answers : List Bool}
    (h : answers = s.answers ∨ s.answers.length < s.contacts.length) :
    Agreed monitor1 monitor2 { s with wait := w, answers } where
  accepted := by
    intro v hv
    obtain ⟨tried, hpre, hcontacts, hversions, hans⟩ := ha.accepted v hv
    refine ⟨tried, hpre, hcontacts, hversions, ?_⟩
    rcases h with rfl | hlt
    · exact hans
    · rw [hans, hcontacts] at hlt
      exact absurd hlt (by simp)
  rejected := by
    intro hr
    obtain ⟨hcontacts, hans⟩ := ha.rejected hr
    refine ⟨hcontacts, ?_⟩
    rcases h with rfl | hlt
    · exact hans
    · rw [hans, hcontacts] at hlt
      exact absurd hlt (by simp)

/-- What holds of a state of which nothing is known but that `connect` has not returned. -/
theorem inv_of_talks {tried : List UInt32} (ht : Talks monitor1 monitor2 tried s)
    (hpc : ∀ r, s.pc ≠ .returned r) : Inv monitor1 monitor2 s := by
  unfold Inv
  cases h : s.pc with
  | posting => exact ⟨tried, ht⟩
  | waiting => exact ⟨tried, ht⟩
  | returned r => exact absurd h (hpc r)

theorem Inv.talks (hi : Inv monitor1 monitor2 s) (hpc : ∀ r, s.pc ≠ .returned r) :
    ∃ tried, Talks monitor1 monitor2 tried s := by
  unfold Inv at hi
  cases h : s.pc with
  | posting =>
    rw [h] at hi
    exact hi
  | waiting =>
    rw [h] at hi
    exact hi
  | returned r => exact absurd h (hpc r)

theorem Inv.agreed (hi : Inv monitor1 monitor2 s) : Agreed monitor1 monitor2 s := by
  unfold Inv at hi
  cases h : s.pc with
  | posting => exact ⟨fun v hv => absurd (h.symm.trans hv) (by simp),
      fun hv => absurd (h.symm.trans hv) (by simp)⟩
  | waiting => exact ⟨fun v hv => absurd (h.symm.trans hv) (by simp),
      fun hv => absurd (h.symm.trans hv) (by simp)⟩
  | returned r =>
    rw [h] at hi
    exact hi

theorem inv_of_agreed {r : Except HvError UInt32} (hpc : s.pc = .returned r)
    (ha : Agreed monitor1 monitor2 s) : Inv monitor1 monitor2 s := by
  unfold Inv
  rw [hpc]
  exact ha

theorem Inv.post (hi : Inv monitor1 monitor2 s) {status : ℕ → UInt64}
    (h : step monitor1 monitor2 s (.post status) = some u) : Inv monitor1 monitor2 u := by
  cases hpc : s.pc with
  | posting =>
    obtain ⟨tried, ht⟩ := hi.talks (by simp [hpc])
    obtain ⟨v, rest, hleft⟩ := List.exists_cons_of_ne_nil ht.some_left
    simp only [step, hpc, hleft] at h
    cases hout : (Hypercall.postMessage status vmbusMessageConnectionId vmbusMessageTypeChannel
        (initiateContact monitor1 monitor2 v) []).1 with
    | ok =>
      simp only [hout, Option.some.injEq] at h
      subst h
      exact ⟨tried, by simpa [hpc, hleft] using ht.post hpc hleft⟩
    | err e =>
      simp only [hout, Option.some.injEq] at h
      subst h
      -- `post_message` itself never reports a rejected version
      have he : e ≠ .versionRejected := by
        rcases Hypercall.postMessage_error hout with ⟨st, rfl⟩ | rfl <;> simp
      rw [attemptEnds_of_error (by simp [hleft]) he]
      exact agreed_of_error he
    | panic => simp [hout] at h
  | waiting => simp [step, hpc] at h
  | returned r => simp [step, hpc] at h

theorem Inv.finish (hi : Inv monitor1 monitor2 s)
    (h : step monitor1 monitor2 s .finish = some u) : Inv monitor1 monitor2 u := by
  cases hpc : s.pc with
  | waiting =>
    obtain ⟨tried, ht⟩ := hi.talks (by simp [hpc])
    cases hctl : s.wait.ctl with
    | done result =>
      cases result with
      | ok r =>
        simp only [step, hpc, hctl, Option.some.injEq] at h
        subst h
        exact ht.attemptEnds hpc hctl
      | error e =>
        simp only [step, hpc, hctl, Option.some.injEq] at h
        subst h
        obtain ⟨ms, hw⟩ := ht.waits
        obtain rfl := hw.timeout e hctl
        rw [attemptEnds_of_error ht.some_left (by simp)]
        exact agreed_of_error (by simp)
    | _ => simp [step, hpc, hctl] at h
  | posting => simp [step, hpc] at h
  | returned r => simp [step, hpc] at h

theorem Inv.wait (hi : Inv monitor1 monitor2 s) {a : WaitMatch.Act}
    (h : step monitor1 monitor2 s (.wait a) = some u) : Inv monitor1 monitor2 u := by
  by_cases hcan : s.pc = .waiting ∨ a = .present ∨ a = .mark
  · simp only [step, if_pos hcan, Option.map_eq_some_iff] at h
    obtain ⟨w, hw, rfl⟩ := h
    by_cases hret : ∃ r, s.pc = .returned r
    · obtain ⟨r, hpc⟩ := hret
      exact inv_of_agreed hpc (hi.agreed.later (.inl rfl))
    · rw [not_exists] at hret
      obtain ⟨tried, ht⟩ := hi.talks hret
      exact inv_of_talks (ht.wait hcan hw) hret
  · simp [step, hcan] at h

/-- A message from the host. -/
theorem Inv.arrive (hi : Inv monitor1 monitor2 s) {m : Message} {answers : List Bool}
    (hlater : answers = s.answers ∨ s.answers.length < s.contacts.length)
    (htalks : ∀ {tried}, Talks monitor1 monitor2 tried s →
      Talks monitor1 monitor2 tried { queue s m with answers }) :
    Inv monitor1 monitor2 { queue s m with answers } := by
  by_cases hret : ∃ r, s.pc = .returned r
  · obtain ⟨r, hpc⟩ := hret
    exact inv_of_agreed hpc (hi.agreed.later hlater)
  · rw [not_exists] at hret
    obtain ⟨tried, ht⟩ := hi.talks hret
    exact inv_of_talks (htalks ht) hret

theorem Inv.step {a : Act} (hi : Inv monitor1 monitor2 s)
    (h : step monitor1 monitor2 s a = some u) : Inv monitor1 monitor2 u := by
  cases a with
  | post status => exact hi.post h
  | wait a => exact hi.wait h
  | finish => exact hi.finish h
  | answer m accepted =>
    by_cases hc : s.answers.length < s.contacts.length ∧ response m.bytes = some (verdict accepted)
    · simp only [VmbusConnect.step, if_pos hc, Option.some.injEq] at h
      subst h
      exact hi.arrive (.inr hc.1) fun ht => ht.answer hc.1 hc.2
    · simp [VmbusConnect.step, hc] at h
  | other m =>
    by_cases hm : response m.bytes = none
    · simp only [VmbusConnect.step, if_pos hm, Option.some.injEq] at h
      subst h
      exact hi.arrive (.inl (rfl : s.answers = s.answers)) fun ht => ht.other hm
    · simp [VmbusConnect.step, hm] at h

/-- **The guest and the host agree on the version**, for every host that answers each
request at most once, whatever else it sends and whenever it does so, and for every
outcome of the hypercalls. -/
theorem agreed_of_run {slot : HvMessage} {l : List Act}
    (h : Exec (VmbusConnect.step monitor1 monitor2) (fun _ _ => True) (start slot) l s) :
    Agreed monitor1 monitor2 s :=
  (h.invariant (start_inv slot) fun hi _ hstep => hi.step hstep).agreed

theorem channelType_ne_zero : (1 : UInt32) ≠ 0 := by decide

/-- A VERSION_RESPONSE, or with another type some other message. -/
def responseMessage (type supported : UInt8) : Message where
  messageType := 1
  payloadSize := 12
  messageFlags := 0
  payload := ⟨⟨type :: List.replicate 7 0 ++ supported :: List.replicate 231 0⟩, rfl⟩
  typed := channelType_ne_zero

/-- The host rejects the first version, with another message in between, and accepts the
second; the second request gets through after two retries. -/
theorem agreed_second_version : ∃ l s,
    Exec (step 0x5000 0x6000) (fun _ _ => True) (start Synic.channelMessage) l s ∧
    s.pc = .returned (.ok versionWin81) ∧ Agreed 0x5000 0x6000 s := by
  obtain ⟨s, hs, hpc⟩ : ∃ s,
      Exec (step 0x5000 0x6000) (fun _ _ => True) (start Synic.channelMessage)
        ([.post (fun _ => 0), .other (responseMessage 1 0), .answer (responseMessage 15 0) false,
            .wait .present, .wait .poll] ++
          List.replicate 4 (.wait (.guest false)) ++ [.wait .present] ++
          List.replicate 4 (.wait (.guest false)) ++
          [.finish, .post (fun n => if n < 2 then 0x13 else 0),
            .answer (responseMessage 15 1) true, .wait .present, .wait .poll] ++
          List.replicate 4 (.wait (.guest false)) ++ [.finish]) s ∧
        s.pc = .returned (.ok versionWin81) := Exec.exists_of_map (by decide +kernel)
  exact ⟨_, s, hs, hpc, agreed_of_run hs⟩

end VmbusConnect
