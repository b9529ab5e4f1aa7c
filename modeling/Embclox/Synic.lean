/-
The SynIC message slot of SINT2.

The hypervisor owns a queue of messages and one slot of the SIMP page; the guest
polls the slot and acknowledges what it finds.  `ack_message` is three accesses to
shared state (read the flags, clear the type, write `EOM` if a message was
pending), and the hypervisor may queue a message between any two of them.

* `NotStranded` — a guest that is between two messages and sees an empty slot has
  an empty queue behind it;
* `notStranded_of_noRace` — it holds in every state of a run in which no message
  is queued after the flags were read without `MessagePending` and before the type
  is cleared;
* `stranded_of_race` — such a message is stranded as soon as the guest finishes
  the acknowledgement undisturbed.
-/
import Embclox.Bits
import Embclox.Exec
import Mathlib.Tactic.Common

open Run

namespace Synic

/-- The size of the payload of a slot. -/
def payloadMax : ℕ := 240

/-- SynIC message; the reserved word and the origination id are never read. -/
structure HvMessage where
  messageType : UInt32
  payloadSize : UInt8
  messageFlags : UInt8
  payload : Vector UInt8 payloadMax

/-- Bit 0 of the flags, `MessagePending`. -/
def messagePending (flags : UInt8) : Bool := flags &&& 1 != 0

/-- `poll_message`: the payload, if the slot holds a message. -/
def pollMessage (slot : HvMessage) : Option (List UInt8) :=
  if slot.messageType = 0 then none
  else some (slot.payload.toList.take (min slot.payloadSize.toNat payloadMax))

/-! ### The guest and the hypervisor -/

/-- Where the guest stands between two accesses to the slot. -/
inductive AckCtl
  /-- Between two messages: `poll_message` comes next. -/
  | idle
  /-- `poll_message` returned this payload; `ack_message` comes next. -/
  | polled (payload : List UInt8)
  /-- `ack_message` has read the flags. -/
  | flagsRead (flags : UInt8)
  /-- `ack_message` has cleared the message type. -/
  | cleared (flags : UInt8)
  deriving DecidableEq

/-- The slot, the messages the hypervisor holds back, and the guest. -/
structure Sys where
  slot : HvMessage
  queue : List HvMessage
  ctl : AckCtl

/-- The hypervisor fills an empty slot with its oldest message, flagged when more
are waiting. -/
def deliver (s : Sys) : Sys :=
  if s.slot.messageType = 0 then
    match s.queue with
    | [] => s
    | m :: rest => { s with
        slot := { m with messageFlags := if rest.isEmpty then 0 else 1 }
        queue := rest }
  else s

/-- The hypervisor queues a message: behind an occupied slot it waits, and the
slot is marked; an empty slot is filled at once. -/
def hostQueue (s : Sys) (m : HvMessage) : Sys :=
  if s.slot.messageType = 0 then deliver { s with queue := s.queue ++ [m] }
  else { s with
    slot := { s.slot with messageFlags := s.slot.messageFlags ||| 1 }
    queue := s.queue ++ [m] }

/-- One access of the guest: the loop of `poll_message` and `ack_message`. -/
def guestStep (s : Sys) : Sys :=
  match s.ctl with
  | .idle =>
      match pollMessage s.slot with
      | none => s
      | some payload => { s with ctl := .polled payload }
  | .polled _ => { s with ctl := .flagsRead s.slot.messageFlags }
  | .flagsRead flags =>
      { s with slot := { s.slot with messageType := 0 }, ctl := .cleared flags }
  | .cleared flags =>
      -- the write of `EOM` is the hypervisor's cue to deliver
      if messagePending flags then deliver { s with ctl := .idle } else { s with ctl := .idle }

inductive Act
  | guest
  /-- The hypervisor queues a message, whose type is not 0. -/
  | queue (m : HvMessage)

def step (s : Sys) : Act → Option Sys
  | .guest => some (guestStep s)
  | .queue m => if m.messageType = 0 then none else some (hostQueue s m)

/-- An empty slot, an empty queue and a guest about to poll. -/
def init (slot : HvMessage) : Sys := ⟨{ slot with messageType := 0 }, [], .idle⟩

/-- Nothing waits behind an empty slot once the guest is done with a message. -/
def NotStranded (s : Sys) : Prop := s.ctl = .idle → s.slot.messageType = 0 → s.queue = []

/-- The step does not queue a message between the read of flags without
`MessagePending` and the clearing of the type. -/
def NoRace (s : Sys) : Act → Prop
  | .guest => True
  | .queue _ => ∀ flags, s.ctl = .flagsRead flags → messagePending flags = true

/-! ### The invariant -/

/-- What the guest's position says about the slot and the queue behind it. -/
def CtlOk (s : Sys) : Prop :=
  match s.ctl with
  | .idle => s.slot.messageType = 0 → s.queue = []
  | .polled _ => s.slot.messageType ≠ 0
  | .flagsRead flags => s.slot.messageType ≠ 0 ∧ (s.queue ≠ [] → messagePending flags = true)
  | .cleared flags => s.slot.messageType = 0 → s.queue ≠ [] → messagePending flags = true

structure Inv (s : Sys) : Prop where
  /-- A queue behind an occupied slot is announced in the slot. -/
  pending : s.slot.messageType ≠ 0 → s.queue ≠ [] → messagePending s.slot.messageFlags = true
  typed : ∀ m ∈ s.queue, m.messageType ≠ 0
  ctl : CtlOk s

theorem Inv.notStranded {s : Sys} (hi : Inv s) : NotStranded s := by
  intro hidle
  have hctl := hi.ctl
  rw [CtlOk, hidle] at hctl
  exact hctl

theorem init_inv (slot : HvMessage) : Inv (init slot) :=
  ⟨fun h => absurd rfl h, fun _ h => absurd h (by simp [init]), fun _ => rfl⟩

theorem messagePending_or (flags : UInt8) : messagePending (flags ||| 1) = true := by
  rw [messagePending, Bits.or_and_self]
  decide

/-- A delivery moves the head of the queue into the slot and announces the rest. -/
theorem deliver_spec {s : Sys} (hempty : s.slot.messageType = 0)
    (htyped : ∀ m ∈ s.queue, m.messageType ≠ 0) :
    (deliver s).ctl = s.ctl ∧
    ((deliver s).slot.messageType = 0 → (deliver s).queue = []) ∧
    ((deliver s).slot.messageType ≠ 0 → (deliver s).queue ≠ [] →
      messagePending (deliver s).slot.messageFlags = true) ∧
    (∀ m ∈ (deliver s).queue, m.messageType ≠ 0) ∧
    (s.queue ≠ [] → (deliver s).slot.messageType ≠ 0) := by
  rw [deliver, if_pos hempty]
  cases hq : s.queue with
  | nil => simp [hempty, hq]
  | cons m rest =>
    rw [hq] at htyped
    have hm : m.messageType ≠ 0 := htyped m (by simp)
    refine ⟨rfl, fun h => absurd h hm, fun _ hrest => ?_, ?_, fun _ => hm⟩
    · cases rest with
      | nil => exact absurd rfl hrest
      | cons _ _ => simp [messagePending]
    · exact fun m' hm' => htyped m' (List.mem_cons_of_mem _ hm')

theorem guestStep_inv {s : Sys} (hi : Inv s) : Inv (guestStep s) := by
  obtain ⟨hpend, htyped, hctl⟩ := hi
  rw [CtlOk] at hctl
  rw [guestStep]
  cases hc : s.ctl with
  | idle =>
    rw [hc] at hctl
    by_cases h0 : s.slot.messageType = 0
    · simp only [pollMessage, if_pos h0]
      exact ⟨hpend, htyped, by rw [CtlOk, hc]; exact hctl⟩
    · simp only [pollMessage, if_neg h0]
      exact ⟨hpend, htyped, h0⟩
  | polled payload =>
    rw [hc] at hctl
    exact ⟨hpend, htyped, hctl, hpend hctl⟩
  | flagsRead flags =>
    rw [hc] at hctl
    exact ⟨fun h => absurd rfl h, htyped, fun _ => hctl.2⟩
  | cleared flags =>
    rw [hc] at hctl
    by_cases h0 : s.slot.messageType = 0
    · by_cases hf : messagePending flags = true
      · simp only [if_pos hf]
        obtain ⟨hidle, hq, hp, ht, -⟩ := deliver_spec (s := { s with ctl := .idle }) h0 htyped
        exact ⟨hp, ht, by rw [CtlOk, hidle]; exact hq⟩
      · -- without the flag the queue is empty, so no `EOM` is needed
        simp only [if_neg hf]
        refine ⟨hpend, htyped, fun _ => ?_⟩
        by_contra hne
        exact hf (hctl h0 hne)
    · -- a message arrived in the empty slot: an `EOM` changes nothing
      have hsame : deliver { s with ctl := .idle } = { s with ctl := .idle } := if_neg h0
      simp only [hsame, ite_self]
      exact ⟨hpend, htyped, fun h => absurd h h0⟩

theorem hostQueue_inv {s : Sys} {m : HvMessage} (hi : Inv s) (hm : m.messageType ≠ 0)
    (hrace : NoRace s (.queue m)) : Inv (hostQueue s m) := by
  obtain ⟨hpend, htyped, hctl⟩ := hi
  have htyped' : ∀ m' ∈ s.queue ++ [m], m'.messageType ≠ 0 := by
    intro m' hm'
    rcases List.mem_append.mp hm' with h | h
    · exact htyped m' h
    · rwa [List.mem_singleton.mp h]
  rw [CtlOk] at hctl
  by_cases h0 : s.slot.messageType = 0
  · rw [hostQueue, if_pos h0]
    obtain ⟨hsame, -, hp, ht, hfull⟩ :=
      deliver_spec (s := { s with queue := s.queue ++ [m] }) h0 htyped'
    have hslot := hfull (by simp)
    generalize deliver { s with queue := s.queue ++ [m] } = u at hsame hp ht hslot
    refine ⟨hp, ht, ?_⟩
    rw [CtlOk, hsame]
    cases hc : s.ctl with
    | idle => exact fun h => absurd h hslot
    | polled _ => exact hslot
    | flagsRead flags =>
      rw [hc] at hctl
      exact absurd h0 hctl.1
    | cleared flags => exact fun h => absurd h hslot
  · rw [hostQueue, if_neg h0]
    refine ⟨fun _ _ => messagePending_or _, htyped', ?_⟩
    rw [CtlOk]
    cases hc : s.ctl with
    | idle => exact fun h => absurd h h0
    | polled _ => exact h0
    | flagsRead flags => exact ⟨h0, fun _ => hrace flags hc⟩
    | cleared flags => exact fun h => absurd h h0

theorem step_inv {s u : Sys} {a : Act} (hi : Inv s) (hrace : NoRace s a)
    (h : step s a = some u) : Inv u := by
  cases a with
  | guest =>
    obtain rfl := Option.some_inj.mp h
    exact guestStep_inv hi
  | queue m =>
    rw [step] at h
    by_cases hm : m.messageType = 0
    · rw [if_pos hm] at h
      exact absurd h (by simp)
    · rw [if_neg hm] at h
      obtain rfl := Option.some_inj.mp h
      exact hostQueue_inv hi hm hrace

/-! ### Stranded messages -/

/-- **No message is stranded in a run without the race.**  If no message is
queued between the read of flags without `MessagePending` and the clearing of the
type, then in every state reached a guest that has finished an acknowledgement and
sees an empty slot has an empty queue behind it. -/
theorem notStranded_of_noRace (slot : HvMessage) {l : List Act} {s : Sys}
    (h : Exec step NoRace (init slot) l s) : NotStranded s :=
  (h.invariant (init_inv slot) step_inv).notStranded

/-- A message that wins the race is stranded once the guest takes its next two
steps. -/
theorem stranded_of_race {s u v w : Sys} {m : HvMessage} {flags : UInt8}
    (hc : s.ctl = .flagsRead flags) (hf : messagePending flags = false)
    (hfull : s.slot.messageType ≠ 0) (hu : step s (.queue m) = some u)
    (hv : step u .guest = some v) (hw : step v .guest = some w) :
    ¬ NotStranded w := by
  rw [step] at hu
  by_cases hm : m.messageType = 0
  · rw [if_pos hm] at hu
    exact absurd hu (by simp)
  · rw [if_neg hm, hostQueue, if_neg hfull] at hu
    obtain rfl := Option.some_inj.mp hu
    simp only [step, guestStep, hc, Option.some.injEq] at hv
    subst hv
    simp only [step, guestStep, hf, Option.some.injEq] at hw
    subst hw
    exact fun hn => absurd (hn rfl rfl) (by simp)

/-- A message of type 1 with an empty payload. -/
def channelMessage : HvMessage := ⟨1, 0, 0, Vector.replicate payloadMax 0⟩

instance (s : Sys) (a : Act) : Decidable (NoRace s a) := by
  cases a with
  | guest => exact .isTrue trivial
  | queue m =>
    cases hc : s.ctl with
    | flagsRead flags =>
      exact decidable_of_iff (messagePending flags = true) (by simp [NoRace, hc])
    | _ => exact .isTrue (by simp [NoRace, hc])

theorem notStranded_of_noRace_two_messages :
    ∃ s, Exec step NoRace (init channelMessage)
        [.queue channelMessage, .guest, .queue channelMessage, .guest, .guest, .guest] s ∧
      NotStranded s := by
  obtain ⟨s, hs, -⟩ : ∃ s, Exec step NoRace (init channelMessage)
      [.queue channelMessage, .guest, .queue channelMessage, .guest, .guest, .guest] s ∧ True :=
    Exec.exists_of_run (by decide +kernel)
  exact ⟨s, hs, notStranded_of_noRace channelMessage hs⟩

/-- The second message arrives after the flags were read: the acknowledgement
ends with an empty slot, no `EOM`, and the message still queued. -/
theorem stranded_between_flags_and_clear :
    ∃ s, Exec step (fun _ _ => True) (init channelMessage)
        [.queue channelMessage, .guest, .guest, .queue channelMessage, .guest, .guest] s ∧
      s.queue.length = 1 ∧ ¬ NotStranded s := by
  obtain ⟨s, hs, hlen, hslot, hidle⟩ : ∃ s, Exec step (fun _ _ => True) (init channelMessage)
      [.queue channelMessage, .guest, .guest, .queue channelMessage, .guest, .guest] s ∧
        s.queue.length = 1 ∧ s.slot.messageType = 0 ∧ s.ctl = .idle :=
    Exec.exists_of_run (by decide +kernel)
  refine ⟨s, hs, hlen, fun hn => ?_⟩
  rw [hn hidle hslot] at hlen
  exact absurd hlen (by simp)

end Synic
