/-
`wait_for_match`: a future that hands the messages of the SynIC slot to a matcher.

Each poll drains the slot: a message goes to the matcher and is acknowledged, and when
the slot is empty the waker is registered, the slot is looked at once more and the
deadline is checked.  The host may put the next message into the slot whenever it is
empty, so the messages may come in any way between, and during, the polls.

* `Sys`, `step` — the future and the host, one access at a time;
* `Inv` — the calls of the matcher are the messages in order, each acknowledged;
* `exact_of_exec` — in every state of a run the matcher was called for a first part of
  the messages up to the first match, and those were acknowledged;
* `guests_le` — every poll comes to an end;
* `Inv.drains` — a poll during which the host shows nothing takes what is there, and
  ends the wait on a match or past the deadline.
-/
import Embclox.Channel
import Embclox.Matching

open Matching Run
open Netvsc (HvError)
open Synic (HvMessage pollMessage messagePending)
open Channel (payloadOf)

namespace WaitMatch

/-- A message has a type that is not 0. -/
structure Message extends HvMessage where
  typed : messageType ≠ 0

/-- The payload that `poll_message` makes of it. -/
def Message.bytes (m : Message) : List UInt8 := payloadOf m.toHvMessage

/-- Where the future stands between two accesses to shared state. -/
inductive Ctl (ρ : Type)
  /-- Not polled yet, or `Pending` was returned. -/
  | parked
  /-- At the head of the loop: `poll_message` comes next. -/
  | top
  /-- The matcher has returned this; `ack_message` comes next. -/
  | acking (result : Option ρ)
  /-- `ack_message` has read the flags. -/
  | flagsRead (result : Option ρ) (flags : UInt8)
  /-- `ack_message` has cleared the message type. -/
  | cleared (result : Option ρ) (flags : UInt8)
  /-- The slot was empty: the waker is registered next. -/
  | register
  /-- The slot is polled once more. -/
  | recheck
  /-- The deadline is checked. -/
  | deadline
  | done (result : Except HvError ρ)
  deriving DecidableEq

namespace Ctl

variable {ρ : Type}

/-- The message in the slot was passed to the matcher and is not yet acknowledged. -/
def handling : Ctl ρ → Bool
  | acking _ | flagsRead .. => true
  | _ => false

/-- The match that was found. -/
def result : Ctl ρ → Option ρ
  | acking r | flagsRead r _ | cleared r _ => r
  | done (.ok r) => some r
  | _ => none

/-- A poll is going on. -/
def polling : Ctl ρ → Bool
  | parked | done _ => false
  | _ => true

end Ctl

/-- The slot, the messages that the host is yet to show, the future with the state that
its matcher captures, and the history: the payloads that the matcher was called with,
those that were acknowledged, and the number of writes to `EOM`. -/
structure Sys (σ ρ : Type) where
  slot : HvMessage
  upcoming : List Message
  captured : σ
  ctl : Ctl ρ
  calls : List (List UInt8)
  acked : List (List UInt8)
  eoms : ℕ

variable {σ ρ : Type}

/-- One access of `WaitForMatch::poll`; `expired` says that the deadline has passed. -/
def guestStep (matcher : σ → List UInt8 → σ × Option ρ) (expired : Bool) (s : Sys σ ρ) :
    Sys σ ρ :=
  match s.ctl with
  | .top =>
      match pollMessage s.slot with
      | some payload => { s with
          captured := (matcher s.captured payload).1
          ctl := .acking (matcher s.captured payload).2
          calls := s.calls ++ [payload] }
      | none => { s with ctl := .register }
  | .acking r => { s with ctl := .flagsRead r s.slot.messageFlags }
  | .flagsRead r flags => { s with
      slot := { s.slot with messageType := 0 }
      acked := s.acked ++ [payloadOf s.slot]
      ctl := .cleared r flags }
  | .cleared r flags => { s with
      eoms := s.eoms + (messagePending flags).toNat
      ctl := match r with
        | some v => .done (.ok v)
        | none => .top }
  | .register => { s with ctl := .recheck }
  | .recheck => { s with ctl := if (pollMessage s.slot).isSome then .top else .deadline }
  | .deadline => { s with ctl := if expired then .done (.error .timeout) else .parked }
  | .parked | .done _ => s

inductive Act
  /-- The executor polls the future. -/
  | poll
  /-- One access of a poll that is going on. -/
  | guest (expired : Bool)
  /-- The host shows the next message in the empty slot. -/
  | present
  /-- The host marks an occupied slot: more messages are waiting. -/
  | mark
  deriving DecidableEq

def step (matcher : σ → List UInt8 → σ × Option ρ) (s : Sys σ ρ) : Act → Option (Sys σ ρ)
  | .poll =>
      match s.ctl with
      | .parked => some { s with ctl := .top }
      | _ => none
  | .guest expired => if s.ctl.polling then some (guestStep matcher expired s) else none
  | .present =>
      match s.upcoming with
      | [] => none
      | m :: rest =>
          if s.slot.messageType = 0 then some { s with slot := m.toHvMessage, upcoming := rest }
          else none
  | .mark =>
      if s.slot.messageType = 0 then none
      else some { s with slot := { s.slot with messageFlags := s.slot.messageFlags ||| 1 } }

/-- The host is about to show `ms`, and the future is not polled yet. -/
def init (slot : HvMessage) (c₀ : σ) (ms : List Message) : Sys σ ρ :=
  ⟨{ slot with messageType := 0 }, ms, c₀, .parked, [], [], 0⟩

/-! ### The invariant -/

section

variable {matcher : σ → List UInt8 → σ × Option ρ} {c₀ : σ} {ms : List Message} {s u : Sys σ ρ}

/-- The message in the slot. -/
def inSlot (slot : HvMessage) : List (List UInt8) :=
  if slot.messageType = 0 then [] else [payloadOf slot]

theorem inSlot_of_ne {slot : HvMessage} (h : slot.messageType ≠ 0) :
    inSlot slot = [payloadOf slot] :=
  if_neg h

/-- What is in the slot and the matcher has not seen. -/
def Sys.unseen (s : Sys σ ρ) : List (List UInt8) := if s.ctl.handling then [] else inSlot s.slot

/-- What the matcher has seen and is not acknowledged. -/
def Sys.inHand (s : Sys σ ρ) : List (List UInt8) := if s.ctl.handling then inSlot s.slot else []

/-- The matcher was called for a first part of the messages, none of them a match but
perhaps the last, and all of them are acknowledged but perhaps the one in hand. -/
structure Inv (matcher : σ → List UInt8 → σ × Option ρ) (c₀ : σ) (ms : List Message)
    (s : Sys σ ρ) : Prop where
  order : s.calls ++ (s.unseen ++ s.upcoming.map Message.bytes) = ms.map Message.bytes
  acked : s.calls = s.acked ++ s.inHand
  fed : feed matcher c₀ s.calls = (s.captured, s.ctl.result)
  seen : upTo matcher c₀ s.calls = s.calls
  full : s.ctl.handling = true → s.slot.messageType ≠ 0
  timeout : ∀ e, s.ctl = .done (.error e) → e = .timeout

theorem init_inv (slot : HvMessage) : Inv matcher c₀ ms (init slot c₀ ms) where
  order := rfl
  acked := rfl
  fed := rfl
  seen := rfl
  full := fun h => absurd h (by simp [init, Ctl.handling])
  timeout := fun _ h => absurd h (by simp [init])

/-- Only the position changes, and not what it says about the message in the slot. -/
theorem Inv.move (hi : Inv matcher c₀ ms s) {k₀ k : Ctl ρ} (n : ℕ) (hc : s.ctl = k₀)
    (hh : k₀.handling = k.handling) (hr : k₀.result = k.result)
    (ht : ∀ e, k = .done (.error e) → e = .timeout) :
    Inv matcher c₀ ms { s with ctl := k, eoms := n } := by
  subst hc
  refine ⟨?_, ?_, ?_, hi.seen, fun h => hi.full (hh.trans h), ht⟩
  · rw [show Sys.unseen { s with ctl := k, eoms := n } = s.unseen by simp only [Sys.unseen, hh]]
    exact hi.order
  · rw [show Sys.inHand { s with ctl := k, eoms := n } = s.inHand by simp only [Sys.inHand, hh]]
    exact hi.acked
  · rw [← hr]
    exact hi.fed

/-- The message in the slot is passed to the matcher. -/
theorem Inv.call (hi : Inv matcher c₀ ms s) (hc : s.ctl = .top) (hfull : s.slot.messageType ≠ 0) :
    Inv matcher c₀ ms { s with
      captured := (matcher s.captured (payloadOf s.slot)).1
      ctl := .acking (matcher s.captured (payloadOf s.slot)).2
      calls := s.calls ++ [payloadOf s.slot] } := by
  have hfed : feed matcher c₀ s.calls = (s.captured, none) := by
    rw [hi.fed, hc]
    rfl
  refine ⟨?_, ?_, feed_snoc hfed _, upTo_snoc hfed _, fun _ => hfull, fun _ h => absurd h (by simp)⟩
  · have horder := hi.order
    simp only [Sys.unseen, hc, Ctl.handling, inSlot_of_ne hfull] at horder
    simp only [Sys.unseen, Ctl.handling, List.append_assoc]
    exact horder
  · have hacked := hi.acked
    simp only [Sys.inHand, hc, Ctl.handling] at hacked
    simp only [Sys.inHand, Ctl.handling, inSlot_of_ne hfull, hacked]
    simp

/-- The type is cleared: the message is acknowledged. -/
theorem Inv.clear (hi : Inv matcher c₀ ms s) {r : Option ρ} {flags : UInt8}
    (hc : s.ctl = .flagsRead r flags) :
    Inv matcher c₀ ms { s with
      slot := { s.slot with messageType := 0 }
      acked := s.acked ++ [payloadOf s.slot]
      ctl := .cleared r flags } := by
  have hfull : s.slot.messageType ≠ 0 := hi.full (by rw [hc]; rfl)
  have horder := hi.order
  have hacked := hi.acked
  have hfed := hi.fed
  rw [hc] at hfed
  simp only [Sys.unseen, hc, Ctl.handling] at horder
  simp only [Sys.inHand, hc, Ctl.handling, inSlot_of_ne hfull] at hacked
  refine ⟨?_, ?_, hfed, hi.seen, fun h => absurd h (by simp [Ctl.handling]),
    fun _ h => absurd h (by simp)⟩
  · simp only [Sys.unseen, Ctl.handling, inSlot]
    exact horder
  · simp only [Sys.inHand, Ctl.handling, hacked]
    simp

theorem Inv.guestStep (hi : Inv matcher c₀ ms s) (expired : Bool) :
    Inv matcher c₀ ms (guestStep matcher expired s) := by
  unfold WaitMatch.guestStep
  cases hc : s.ctl with
  | parked => exact hi
  | done _ => exact hi
  | top =>
    cases hp : pollMessage s.slot with
    | none => exact hi.move s.eoms hc rfl rfl (by simp)
    | some payload =>
      obtain ⟨hfull, rfl⟩ := Channel.pollMessage_eq_some hp
      exact hi.call hc hfull
  | acking r => exact hi.move s.eoms hc rfl rfl (by simp)
  | flagsRead r flags => exact hi.clear hc
  | cleared r flags =>
    cases r with
    | none => exact hi.move _ hc rfl rfl (by simp)
    | some v => exact hi.move _ hc rfl rfl (by simp)
  | register => exact hi.move s.eoms hc rfl rfl (by simp)
  | recheck =>
    -- the second look decides only whether the loop goes on
    cases (pollMessage s.slot).isSome with
    | true => exact hi.move s.eoms hc rfl rfl (by simp)
    | false => exact hi.move s.eoms hc rfl rfl (by simp)
  | deadline =>
    cases expired with
    | true =>
      refine hi.move s.eoms hc rfl rfl fun e he => ?_
      obtain rfl := Except.error.inj (Ctl.done.inj he)
      rfl
    | false => exact hi.move s.eoms hc rfl rfl (by simp)

/-- The slot is empty, so no message is in hand. -/
theorem Inv.not_handling (hi : Inv matcher c₀ ms s) (h0 : s.slot.messageType = 0) :
    s.ctl.handling = false := by
  by_contra h
  exact hi.full (by simpa using h) h0

theorem Inv.present (hi : Inv matcher c₀ ms s) {m : Message} {rest : List Message}
    (hup : s.upcoming = m :: rest) (h0 : s.slot.messageType = 0) :
    Inv matcher c₀ ms { s with slot := m.toHvMessage, upcoming := rest } := by
  have hnot := hi.not_handling h0
  have horder := hi.order
  have hacked := hi.acked
  simp only [Sys.unseen, hnot, inSlot, h0, hup] at horder
  simp only [Sys.inHand, hnot] at hacked
  refine ⟨?_, ?_, hi.fed, hi.seen, fun h => absurd (hnot.symm.trans h) (by simp), hi.timeout⟩
  · simp only [Sys.unseen, hnot, inSlot_of_ne m.typed]
    exact horder
  · simp only [Sys.inHand, hnot]
    exact hacked

/-- The mark leaves the message as it is. -/
theorem Inv.mark (hi : Inv matcher c₀ ms s) :
    Inv matcher c₀ ms
      { s with slot := { s.slot with messageFlags := s.slot.messageFlags ||| 1 } } :=
  ⟨hi.order, hi.acked, hi.fed, hi.seen, hi.full, hi.timeout⟩

/-- What a step does, and when it is possible. -/
theorem step_cases {a : Act} (h : step matcher s a = some u) :
    (a = .poll ∧ s.ctl = .parked ∧ u = { s with ctl := .top }) ∨
    (∃ expired, a = .guest expired ∧ s.ctl.polling = true ∧ u = guestStep matcher expired s) ∨
    (∃ m rest, a = .present ∧ s.upcoming = m :: rest ∧ s.slot.messageType = 0 ∧
      u = { s with slot := m.toHvMessage, upcoming := rest }) ∨
    (a = .mark ∧
      u = { s with slot := { s.slot with messageFlags := s.slot.messageFlags ||| 1 } }) := by
  cases a with
  | poll =>
    cases hc : s.ctl with
    | parked =>
      simp only [WaitMatch.step, hc, Option.some.injEq] at h
      exact .inl ⟨rfl, rfl, h.symm⟩
    | _ => simp [WaitMatch.step, hc] at h
  | guest expired =>
    cases hpoll : s.ctl.polling with
    | true =>
      simp only [WaitMatch.step, hpoll, if_true, Option.some.injEq] at h
      exact .inr (.inl ⟨expired, rfl, rfl, h.symm⟩)
    | false => simp [WaitMatch.step, hpoll] at h
  | present =>
    cases hup : s.upcoming with
    | nil => simp [WaitMatch.step, hup] at h
    | cons m rest =>
      by_cases h0 : s.slot.messageType = 0
      · simp only [WaitMatch.step, hup, if_pos h0, Option.some.injEq] at h
        exact .inr (.inr (.inl ⟨m, rest, rfl, rfl, h0, h.symm⟩))
      · simp [WaitMatch.step, hup, h0] at h
  | mark =>
    by_cases h0 : s.slot.messageType = 0
    · simp [WaitMatch.step, h0] at h
    · simp only [WaitMatch.step, if_neg h0, Option.some.injEq] at h
      exact .inr (.inr (.inr ⟨rfl, h.symm⟩))

theorem Inv.step {a : Act} (hi : Inv matcher c₀ ms s) (h : step matcher s a = some u) :
    Inv matcher c₀ ms u := by
  rcases step_cases h with
    ⟨-, hc, rfl⟩ | ⟨expired, -, -, rfl⟩ | ⟨m, rest, -, hup, h0, rfl⟩ | ⟨-, rfl⟩
  · exact hi.move s.eoms hc rfl rfl (by simp)
  · exact hi.guestStep expired
  · exact hi.present hup h0
  · exact hi.mark

/-! ### What the matcher sees -/

/-- What a state of the wait must say about the messages `ms`. -/
structure Exact (matcher : σ → List UInt8 → σ × Option ρ) (c₀ : σ) (ms : List Message)
    (s : Sys σ ρ) : Prop where
  /-- The matcher was called in order, once for each message, up to the first match. -/
  passed : s.calls <+: upTo matcher c₀ (ms.map Message.bytes)
  /-- What it was called with is acknowledged, but for a message in hand. -/
  acked : s.calls = s.acked ++ s.inHand
  /-- No message was skipped: the others are in the slot or yet to be shown. -/
  shown : s.calls ++ (s.unseen ++ s.upcoming.map Message.bytes) = ms.map Message.bytes
  /-- A match ends the wait, after the first match and not before. -/
  matched : ∀ r, s.ctl = .done (.ok r) → s.calls = upTo matcher c₀ (ms.map Message.bytes) ∧
    feed matcher c₀ (ms.map Message.bytes) = (s.captured, some r)
  /-- Before a match the only error is the timeout. -/
  unmatched : ∀ e, s.ctl = .done (.error e) →
    e = .timeout ∧ feed matcher c₀ s.calls = (s.captured, none)

theorem Inv.exact (hi : Inv matcher c₀ ms s) : Exact matcher c₀ ms s where
  passed := by
    rw [← hi.order]
    exact prefix_upTo hi.seen _
  acked := hi.acked
  shown := hi.order
  matched := by
    intro r hr
    have hfed : feed matcher c₀ s.calls = (s.captured, some r) := by
      rw [hi.fed, hr]
      rfl
    rw [← hi.order]
    obtain ⟨hfeed, hupTo⟩ := feed_append_of_some hfed (s.unseen ++ s.upcoming.map Message.bytes)
    exact ⟨(hupTo.trans hi.seen).symm, hfeed⟩
  unmatched := by
    intro e he
    refine ⟨hi.timeout e he, ?_⟩
    rw [hi.fed, he]
    rfl

theorem inv_of_exec {slot : HvMessage} {l : List Act}
    (h : Exec (step matcher) (fun _ _ => True) (init slot c₀ ms) l s) : Inv matcher c₀ ms s :=
  h.invariant (init_inv slot) fun hi _ hs => hi.step hs

/-- **Every message once, in order, up to the first match**, in every state of every
run. -/
theorem exact_of_exec {slot : HvMessage} {l : List Act}
    (h : Exec (step matcher) (fun _ _ => True) (init slot c₀ ms) l s) : Exact matcher c₀ ms s :=
  (inv_of_exec h).exact

/-- Without a look at the clock past the deadline an access does not end in a timeout. -/
theorem guestStep_ne_timeout (hpoll : s.ctl.polling = true) (e : HvError) :
    (guestStep matcher false s).ctl ≠ .done (.error e) := by
  unfold WaitMatch.guestStep
  cases hc : s.ctl with
  | parked => simp [hc, Ctl.polling] at hpoll
  | done _ => simp [hc, Ctl.polling] at hpoll
  | top => cases pollMessage s.slot <;> simp
  | cleared r _ => cases r <;> simp
  | recheck => cases (pollMessage s.slot).isSome <;> simp
  | _ => simp

theorem step_timeout {a : Act} {e : HvError} (h : step matcher s a = some u)
    (he : u.ctl = .done (.error e)) : s.ctl = .done (.error e) ∨ a = .guest true := by
  rcases step_cases h with
    ⟨-, -, rfl⟩ | ⟨expired, rfl, hpoll, rfl⟩ | ⟨m, rest, -, -, -, rfl⟩ | ⟨-, rfl⟩
  · exact absurd he (by simp)
  · cases expired with
    | true => exact .inr rfl
    | false => exact absurd he (guestStep_ne_timeout hpoll e)
  · exact .inl he
  · exact .inl he

theorem expired_of_timeout {slot : HvMessage} {l : List Act} {e : HvError}
    (h : Exec (step matcher) (fun _ _ => True) (init slot c₀ ms) l s)
    (he : s.ctl = .done (.error e)) : Act.guest true ∈ l := by
  induction h with
  | nil => exact absurd he (by simp [init])
  | snoc _ _ hs ih =>
    rcases step_timeout hs he with hprev | rfl
    · exact List.mem_append_left _ (ih hprev)
    · exact List.mem_append_right _ (by simp)

/-! ### Every poll ends -/

/-- The accesses that are left until the poll returns, if the host shows nothing. -/
def Ctl.weight (occupied : Bool) : Ctl ρ → ℕ
  | .parked | .done _ => 0
  | .deadline => 1
  | .recheck => if occupied then 11 else 2
  | .register => if occupied then 12 else 3
  | .top => if occupied then 10 else 4
  | .acking _ => 9
  | .flagsRead .. => 8
  | .cleared .. => if occupied then 13 else 7

def Sys.weight (s : Sys σ ρ) : ℕ :=
  s.ctl.weight (s.slot.messageType ≠ 0) + 13 * s.upcoming.length

def Act.isGuest : Act → Bool
  | .guest _ => true
  | _ => false

theorem upcoming_guestStep (expired : Bool) :
    (WaitMatch.guestStep matcher expired s).upcoming = s.upcoming := by
  unfold WaitMatch.guestStep
  cases s.ctl with
  | top => cases pollMessage s.slot <;> rfl
  | _ => rfl

/-- Each access brings the poll closer to its end. -/
theorem ctlWeight_guestStep (matcher : σ → List UInt8 → σ × Option ρ) (expired : Bool)
    (hpoll : s.ctl.polling = true) :
    (WaitMatch.guestStep matcher expired s).ctl.weight
        ((WaitMatch.guestStep matcher expired s).slot.messageType ≠ 0) + 1 ≤
      s.ctl.weight (s.slot.messageType ≠ 0) := by
  unfold WaitMatch.guestStep
  by_cases h0 : s.slot.messageType = 0
  all_goals
    cases hc : s.ctl with
    | parked => simp [hc, Ctl.polling] at hpoll
    | done _ => simp [hc, Ctl.polling] at hpoll
    | cleared r flags => cases r <;> simp [Ctl.weight, h0]
    | deadline => cases expired <;> simp [Ctl.weight]
    | _ => simp [pollMessage, Ctl.weight, h0]

theorem weight_step {a : Act} (h : step matcher s a = some u) :
    u.weight + (if a.isGuest then 1 else 0) ≤ s.weight + (if a = .poll then 10 else 0) := by
  unfold Sys.weight
  rcases step_cases h with
    ⟨rfl, hc, rfl⟩ | ⟨expired, rfl, hpoll, rfl⟩ | ⟨m, rest, rfl, hup, h0, rfl⟩ | ⟨rfl, rfl⟩
  · rw [hc]
    by_cases h0 : s.slot.messageType = 0 <;> simp [Ctl.weight, Act.isGuest, h0] <;> omega
  · have hctl := ctlWeight_guestStep matcher expired hpoll
    rw [upcoming_guestStep]
    simp only [Act.isGuest, if_true]
    omega
  · -- a message more in the slot costs less than it did before it was shown
    have hle : s.ctl.weight true ≤ s.ctl.weight false + 13 := by
      cases s.ctl <;> simp [Ctl.weight]
    rw [hup, List.length_cons, decide_eq_true m.typed, decide_eq_false (not_not.mpr h0)]
    simp only [Act.isGuest, Bool.false_eq_true, if_false, reduceCtorEq]
    omega
  · exact Nat.le_refl _

/-- **Every poll ends**: in a run from `s` to `u` the polls make at most 10 accesses each,
and 13 for each message that is yet to be shown, whatever the host does meanwhile. -/
theorem guests_le {G : Sys σ ρ → Act → Prop} {l : List Act} (h : Exec (step matcher) G s l u) :
    l.countP Act.isGuest + u.weight ≤ s.weight + 10 * l.count .poll := by
  induction h with
  | nil => simp
  | snoc _ _ hs ih =>
    have hstep := weight_step hs
    rw [List.countP_append, List.count_append, List.countP_singleton, List.count_singleton]
    simp only [beq_iff_eq]
    split_ifs at hstep ⊢ <;> omega

/-! ### A poll that the host does not disturb -/

/-- With an empty slot the poll looks at the clock and returns. -/
theorem quiet_empty (matcher : σ → List UInt8 → σ × Option ρ) (hc : s.ctl = .top)
    (h0 : s.slot.messageType = 0) (expired : Bool) :
    Exec (step matcher) (fun _ _ => True) s (List.replicate 4 (.guest expired))
      { s with ctl := if expired then .done (.error .timeout) else .parked } := by
  apply Exec.of_run
  simp [run, List.replicate, WaitMatch.step, WaitMatch.guestStep, Ctl.polling, hc, pollMessage, h0]

/-- The state after the message in the slot was passed on and acknowledged. -/
def taken (matcher : σ → List UInt8 → σ × Option ρ) (s : Sys σ ρ) : Sys σ ρ := { s with
  slot := { s.slot with messageType := 0 }
  captured := (matcher s.captured (payloadOf s.slot)).1
  ctl := match (matcher s.captured (payloadOf s.slot)).2 with
    | some v => .done (.ok v)
    | none => .top
  calls := s.calls ++ [payloadOf s.slot]
  acked := s.acked ++ [payloadOf s.slot]
  eoms := s.eoms + (messagePending s.slot.messageFlags).toNat }

theorem quiet_message (matcher : σ → List UInt8 → σ × Option ρ) (hc : s.ctl = .top)
    (hfull : s.slot.messageType ≠ 0) (expired : Bool) :
    Exec (step matcher) (fun _ _ => True) s (List.replicate 4 (.guest expired))
      (taken matcher s) := by
  have hpoll : pollMessage s.slot = some (payloadOf s.slot) := if_neg hfull
  apply Exec.of_run
  simp [run, List.replicate, WaitMatch.step, WaitMatch.guestStep, Ctl.polling, hc, hpoll, taken]

/-- **A poll during which the host shows nothing** empties the slot.  It ends the wait
with a match or past the deadline, and is pending otherwise. -/
theorem quiet_poll (matcher : σ → List UInt8 → σ × Option ρ) (hp : s.ctl = .parked)
    (expired : Bool) :
    ∃ n t, Exec (step matcher) (fun _ _ => True) s (.poll :: List.replicate n (.guest expired)) t ∧
      t.slot.messageType = 0 ∧ t.upcoming = s.upcoming ∧
      ((∃ r, t.ctl = .done (.ok r)) ∨
        t.ctl = if expired then .done (.error .timeout) else .parked) := by
  have hstart : WaitMatch.step matcher s .poll = some { s with ctl := .top } := by
    simp only [WaitMatch.step, hp]
  by_cases h0 : s.slot.messageType = 0
  · have hempty := quiet_empty matcher (s := { s with ctl := .top }) rfl h0 expired
    exact ⟨4, _, .cons trivial hstart hempty, h0, rfl, .inr rfl⟩
  · have hmsg := quiet_message matcher (s := { s with ctl := .top }) rfl h0 expired
    cases hr : (matcher s.captured (payloadOf s.slot)).2 with
    | some v =>
      refine ⟨4, _, .cons trivial hstart hmsg, rfl, rfl, .inl ⟨v, ?_⟩⟩
      simp only [taken, hr]
    | none =>
      -- the loop goes round once more and finds the slot empty
      have hrest := quiet_empty matcher (s := taken matcher { s with ctl := .top })
        (by simp only [taken, hr]) rfl expired
      refine ⟨8, _, .cons trivial hstart (hmsg.trans hrest), rfl, rfl, .inr rfl⟩

/-- A poll that the host does not disturb passes on and acknowledges all that was shown,
and then ends the wait or leaves it pending. -/
def Drains (matcher : σ → List UInt8 → σ × Option ρ) (c₀ : σ) (ms : List Message)
    (s : Sys σ ρ) : Prop :=
  s.ctl = .parked → ∀ expired, ∃ n t,
    Exec (step matcher) (fun _ _ => True) s (.poll :: List.replicate n (.guest expired)) t ∧
    t.calls ++ s.upcoming.map Message.bytes = ms.map Message.bytes ∧ t.acked = t.calls ∧
    feed matcher c₀ t.calls = (t.captured, t.ctl.result) ∧
    ((∃ r, t.ctl = .done (.ok r)) ∨
      t.ctl = if expired then .done (.error .timeout) else .parked)

theorem Inv.drains (hi : Inv matcher c₀ ms s) : Drains matcher c₀ ms s := by
  intro hp expired
  obtain ⟨n, t, hrun, hempty, hup, hctl⟩ := quiet_poll matcher hp expired
  have ht : Inv matcher c₀ ms t := hrun.invariant hi fun hi _ hs => hi.step hs
  have hnot := ht.not_handling hempty
  have horder := ht.order
  have hacked := ht.acked
  simp only [Sys.unseen, hnot, inSlot, hempty, hup] at horder
  simp only [Sys.inHand, hnot] at hacked
  refine ⟨n, t, hrun, horder, ?_, ht.fed, hctl⟩
  rw [hacked]
  exact (List.append_nil _).symm

end

end WaitMatch
