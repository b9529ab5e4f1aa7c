/-
`recv_with_timeout`: a packet of a channel, or a timeout.

`block_on_hlt` polls the future `WaitForPacket` and halts between two polls.  A poll
looks at the receive ring, registers the waker, looks at the ring once more and then
checks the deadline.  The waker does nothing; what ends a halt is an interrupt.  The host
puts packets on the ring at any time, and interrupts come at any time.

* `RecvOk` — the packet that is returned is the oldest one, nothing is lost, a timeout
  means that the deadline has passed and every packet came after the last look, the CPU
  sleeps at most once while a packet is there, and at most once past the deadline, and
  from then on the call returns as soon as an interrupt wakes the CPU;
* `recvOk_of_run` — it holds in every state of every run with well-formed packets.
-/
import Embclox.Exec
import Embclox.Netvsc
import Embclox.RingFifo

open Effect Ring Run
open Netvsc (HvError)

namespace RecvTimeout

/-- Where the CPU stands. -/
inductive Pc
  /-- The future is polled: the first `try_recv` comes next. -/
  | poll
  | register
  /-- The second `try_recv` comes next. -/
  | recheck
  | deadline
  /-- `Pending` was returned. -/
  | pending
  /-- Before `sti; hlt`. -/
  | masked
  | asleep
  | done (res : Except HvError (VmPacketDescriptor × List UInt8))
  | panicked
  deriving DecidableEq

/-- The ring has been looked at for the last time before the CPU sleeps or returns. -/
def Pc.late : Pc → Bool
  | .poll | .register | .recheck | .asleep => false
  | .deadline | .pending | .masked | .done _ | .panicked => true

/-- A packet that the host has put on the ring, with the number of sleeps and of looks at
the ring by then. -/
structure Post where
  packet : Packet
  sleeps : ℕ
  looks : ℕ
  late : Bool

structure Sys where
  ring : RingHalf
  now : ℕ
  pc : Pc
  /-- Interrupts are enabled. -/
  enabled : Bool
  /-- An interrupt waits. -/
  latched : Bool
  sleeps : ℕ
  /-- The number of looks at the ring. -/
  looks : ℕ
  /-- The number of sleeps that began after the deadline. -/
  overslept : ℕ
  posted : List Post

inductive Act
  /-- The next access or instruction of the CPU. -/
  | cpu
  | put (p : Packet)
  | irq
  /-- The clock goes on. -/
  | tick

/-- `try_recv`, and where the future goes on if the ring is empty. -/
def tryRecv (bufLen : ℕ) (empty : Pc) (s : Sys) : Sys :=
  match recvPacket bufLen s.ring with
  | (.ok (some x), r) => { s with ring := r, looks := s.looks + 1, pc := .done (.ok x) }
  | (.ok none, r) => { s with ring := r, looks := s.looks + 1, pc := empty }
  | (.err _, r) => { s with
      ring := r
      looks := s.looks + 1
      pc := .done (.error (.hypercallFailed 0xFFFF)) }
  | (.panic, r) => { s with ring := r, looks := s.looks + 1, pc := .panicked }

def cpuStep (bufLen deadline : ℕ) (s : Sys) : Option Sys :=
  match s.pc with
  | .poll => some (tryRecv bufLen .register s)
  | .register => some { s with pc := .recheck }
  | .recheck => some (tryRecv bufLen .deadline s)
  | .deadline =>
      some { s with pc := if deadline ≤ s.now then .done (.error .timeout) else .pending }
  | .pending => some { s with pc := .masked, enabled := false }
  | .masked =>
      -- an interrupt that waits ends the halt at once
      if s.latched then some { s with pc := .poll, enabled := true, latched := false }
      else some { s with
        pc := .asleep
        enabled := true
        sleeps := s.sleeps + 1
        overslept := s.overslept + if deadline ≤ s.now then 1 else 0 }
  | .asleep | .done _ | .panicked => none

/-- The handlers of interrupts wake nobody else. -/
def takeIrq (s : Sys) : Sys :=
  if s.enabled then
    match s.pc with
    | .asleep => { s with pc := .poll }
    | _ => s
  else { s with latched := true }

def hostPut (p : Packet) (s : Sys) : Option Sys :=
  match sendAvail s.ring with
  | none => none
  | some avail =>
    if p.toBytes.length + 8 < avail then
      some { s with
        ring := push s.ring p (List.replicate 8 0)
        posted := s.posted ++ [⟨p, s.sleeps, s.looks, s.pc.late⟩] }
    else none

def step (bufLen deadline : ℕ) (s : Sys) : Act → Option Sys
  | .cpu => cpuStep bufLen deadline s
  | .put p => hostPut p s
  | .irq => some (takeIrq s)
  | .tick => some { s with now := s.now + 1 }

/-- The payload lies in the packet, behind its descriptor and at most 64 bytes of a further
header. -/
def WellFormed (p : Packet) : Prop := p.readable = true ∧ 2 ≤ p.desc.offset8.toNat

instance (p : Packet) : Decidable (WellFormed p) := inferInstanceAs (Decidable (_ ∧ _))

/-- The packets of the host are well formed. -/
def GoodHost (_ : Sys) : Act → Prop
  | .put p => WellFormed p
  | _ => True

instance (s : Sys) : (a : Act) → Decidable (GoodHost s a)
  | .put p => inferInstanceAs (Decidable (WellFormed p))
  | .cpu | .irq | .tick => .isTrue trivial

/-- The call begins with these packets on the ring, with interrupts enabled or not. -/
def start (ring : RingHalf) (q : List Packet) (now : ℕ) (enabled latched : Bool) : Sys :=
  ⟨ring, now, .poll, enabled, latched, 0, 0, 0, q.map fun p => ⟨p, 0, 0, false⟩⟩

/-- What the caller gets for a packet. -/
def answer (bufLen : ℕ) (p : Packet) : VmPacketDescriptor × List UInt8 :=
  (p.desc, p.payload.take bufLen)

/-- By the time of `n` sleeps the CPU has not slept since the packet was put; once, if
that was after the last look at the ring. -/
def InTime (x : Post) (n : ℕ) : Prop := n = x.sleeps ∨ x.late = true ∧ n = x.sleeps + 1

/-- What is on the ring, and what was taken from it. -/
def Kept (bufLen : ℕ) (s : Sys) : Prop :=
  match s.pc with
  | .done (.ok res) => ∃ x rest, s.posted = x :: rest ∧ Repr s.ring (rest.map Post.packet) ∧
      res = answer bufLen x.packet ∧ InTime x s.sleeps
  | _ => Repr s.ring (s.posted.map Post.packet)

/-- There is something to return. -/
def Ready (deadline : ℕ) (s : Sys) : Prop := s.posted ≠ [] ∨ deadline ≤ s.now

/-- The CPU goes on with nothing but interrupts. -/
def Alone (_ : Sys) (a : Act) : Prop := a = .cpu ∨ a = .irq

def Returns (bufLen deadline : ℕ) (s : Sys) : Prop :=
  ∃ l u res, Exec (step bufLen deadline) Alone s l u ∧ u.pc = .done res

structure RecvOk (bufLen deadline : ℕ) (s : Sys) : Prop where
  /-- The oldest packet is returned, in time, and the others stay on the ring. -/
  kept : Kept bufLen s
  /-- The only error is a timeout, past the deadline; whatever is on the ring then came
  after the last look at it. -/
  timeout : ∀ e, s.pc = .done (.error e) →
    e = .timeout ∧ deadline ≤ s.now ∧ ∀ x ∈ s.posted, x.looks = s.looks
  /-- Before a second sleep the packet is returned. -/
  waiting : (∀ res, s.pc ≠ .done res) → ∀ x ∈ s.posted, InTime x s.sleeps
  /-- Only a packet that came after the last look at the ring lets the CPU sleep. -/
  asleep : s.pc = .asleep → ∀ x ∈ s.posted, x.late = true ∨ x.sleeps = s.sleeps
  overslept : s.overslept ≤ 1
  safe : s.pc ≠ .panicked
  /-- With a packet or past the deadline, the call returns. -/
  returns : Ready deadline s → Returns bufLen deadline s

/-! ### The invariant -/

/-- What holds of the packets on the ring at each point of the call. -/
def PostOk (pc : Pc) (sleeps looks : ℕ) (x : Post) : Prop :=
  match pc with
  | .poll => InTime x sleeps
  | .register | .recheck => sleeps = x.sleeps
  | .deadline | .pending | .masked => x.looks = looks ∧ x.late = true ∧ sleeps = x.sleeps
  | .asleep => x.late = true ∧ sleeps = x.sleeps + 1 ∨ sleeps = x.sleeps
  | .done (.error _) => x.looks = looks
  | .done (.ok _) | .panicked => True

structure Inv (bufLen deadline : ℕ) (s : Sys) : Prop where
  kept : Kept bufLen s
  wellFormed : ∀ x ∈ s.posted, WellFormed x.packet
  posts : ∀ x ∈ s.posted, PostOk s.pc s.sleeps s.looks x
  clock : s.overslept = 0 ∨
    s.overslept = 1 ∧ deadline ≤ s.now ∧ s.pc ≠ .pending ∧ s.pc ≠ .masked
  timeout : ∀ e, s.pc = .done (.error e) → e = .timeout ∧ deadline ≤ s.now
  safe : s.pc ≠ .panicked
  enabled : s.pc = .asleep → s.enabled = true

variable {bufLen deadline : ℕ} {s u : Sys}

theorem PostOk.inTime {pc : Pc} {sleeps looks : ℕ} {x : Post} (h : PostOk pc sleeps looks x)
    (hdone : ∀ res, pc ≠ .done res) (hsafe : pc ≠ .panicked) : InTime x sleeps := by
  cases pc with
  | poll => exact h
  | register => exact .inl h
  | recheck => exact .inl h
  | deadline => exact .inl h.2.2
  | pending => exact .inl h.2.2
  | masked => exact .inl h.2.2
  | asleep => exact h.symm
  | done res => exact absurd rfl (hdone res)
  | panicked => exact absurd rfl hsafe

/-- Without a result, all packets are on the ring. -/
theorem Inv.repr (hi : Inv bufLen deadline s) (hdone : ∀ res, s.pc ≠ .done res) :
    Repr s.ring (s.posted.map Post.packet) := by
  have hkept := hi.kept
  unfold Kept at hkept
  split at hkept
  · rename_i res hpc
    exact absurd hpc (hdone _)
  · exact hkept

theorem kept_of_repr (hdone : ∀ res, s.pc ≠ .done (.ok res))
    (h : Repr s.ring (s.posted.map Post.packet)) : Kept bufLen s := by
  unfold Kept
  split
  · rename_i res hpc
    exact absurd hpc (hdone res)
  · exact h

/-! ### Looking at the ring -/

theorem tryRecv_nil (empty : Pc) (h : Repr s.ring []) :
    tryRecv bufLen empty s = { s with looks := s.looks + 1, pc := empty } := by
  rw [tryRecv, recvPacket, recvWith_nil h]

theorem tryRecv_cons (empty : Pc) {p : Packet} {q : List Packet} (h : Repr s.ring (p :: q))
    (hp : WellFormed p) :
    tryRecv bufLen empty s =
      { s with
        ring := pop s.ring p
        looks := s.looks + 1
        pc := .done (.ok (answer bufLen p)) } := by
  rcases recvPacket_cons h bufLen with ⟨-, extra, hextra, heq⟩ | ⟨hbad, -⟩
  · rw [tryRecv, heq, hextra hp.2, List.append_nil]
    rfl
  · exact absurd hp.1 (by rw [hbad]; decide)

/-- **A look at the ring** finds the oldest packet, if there is one. -/
theorem Inv.tryRecv (hi : Inv bufLen deadline s) (hpc : s.pc = .poll ∨ s.pc = .recheck)
    {empty : Pc} (hempty : empty = .register ∨ empty = .deadline) :
    Inv bufLen deadline (tryRecv bufLen empty s) := by
  have hdone : ∀ res, s.pc ≠ .done res := by
    rintro res h
    rcases hpc with hpc | hpc <;> exact absurd (hpc.symm.trans h) (by simp)
  have hclock : ∀ pc : Pc, pc ≠ .pending ∧ pc ≠ .masked → s.overslept = 0 ∨
      s.overslept = 1 ∧ deadline ≤ s.now ∧ pc ≠ .pending ∧ pc ≠ .masked :=
    fun pc h => hi.clock.imp id fun hc => ⟨hc.1, hc.2.1, h⟩
  have hrepr := hi.repr hdone
  rcases hposted : s.posted with _ | ⟨x, rest⟩ <;> rw [hposted] at hrepr
  · rw [tryRecv_nil _ hrepr]
    have hnone : ∀ y ∈ s.posted, False := fun y hy => by simp [hposted] at hy
    refine ⟨kept_of_repr ?_ (by rw [hposted]; exact hrepr), fun y hy => (hnone y hy).elim,
      fun y hy => (hnone y hy).elim, hclock _ ?_, ?_, ?_, ?_⟩ <;>
      rcases hempty with rfl | rfl <;> simp
  · have hx : x ∈ s.posted := by rw [hposted]; exact List.mem_cons_self
    rw [tryRecv_cons _ hrepr (hi.wellFormed x hx)]
    refine ⟨⟨x, rest, hposted, hrepr.pop, rfl, (hi.posts x hx).inTime hdone hi.safe⟩,
      hi.wellFormed, fun _ _ => trivial, hclock _ ?_, ?_, ?_, ?_⟩ <;> simp

/-! ### Steps -/

/-- A step of the CPU that does not look at the ring. -/
theorem Inv.move (hi : Inv bufLen deadline s) {pc : Pc} {enabled latched : Bool}
    (hdone : ∀ res, s.pc ≠ .done res) (hpc : ∀ res, pc ≠ .done res)
    (hsafe : pc ≠ .panicked ∧ pc ≠ .asleep) (hposts : ∀ x ∈ s.posted, PostOk pc s.sleeps s.looks x)
    (hclock : s.overslept = 0 ∨
      s.overslept = 1 ∧ deadline ≤ s.now ∧ pc ≠ .pending ∧ pc ≠ .masked) :
    Inv bufLen deadline { s with pc, enabled, latched } :=
  ⟨kept_of_repr (fun _ => hpc _) (hi.repr hdone), hi.wellFormed, hposts, hclock,
    fun _ h => absurd h (hpc _), hsafe.1, fun h => absurd h hsafe.2⟩

theorem Inv.checkDeadline (hi : Inv bufLen deadline s) (hpc : s.pc = .deadline) :
    Inv bufLen deadline
      { s with pc := if deadline ≤ s.now then .done (.error .timeout) else .pending } := by
  have hdone : ∀ res, s.pc ≠ .done res := by simp [hpc]
  have hposts := hi.posts
  rw [hpc] at hposts
  by_cases hlate : deadline ≤ s.now
  · rw [if_pos hlate]
    refine ⟨kept_of_repr (by simp) (hi.repr hdone), hi.wellFormed,
      fun x hx => (hposts x hx).1, hi.clock.imp id fun hc => ⟨hc.1, hc.2.1, by simp⟩, ?_, by simp,
      by simp⟩
    intro e he
    obtain rfl : HvError.timeout = e := by simpa using he
    exact ⟨rfl, hlate⟩
  · rw [if_neg hlate]
    -- before the deadline the CPU has not overslept
    have hzero : s.overslept = 0 := hi.clock.resolve_right fun hc => hlate hc.2.1
    exact hi.move hdone (by simp) (by simp) hposts (.inl hzero)

/-- **The CPU goes to sleep**: what is on the ring came after the last look at it. -/
theorem Inv.sleep (hi : Inv bufLen deadline s) (hpc : s.pc = .masked) :
    Inv bufLen deadline { s with
      pc := .asleep
      enabled := true
      sleeps := s.sleeps + 1
      overslept := s.overslept + if deadline ≤ s.now then 1 else 0 } := by
  have hdone : ∀ res, s.pc ≠ .done res := by simp [hpc]
  have hposts := hi.posts
  rw [hpc] at hposts
  have hzero : s.overslept = 0 := hi.clock.resolve_right fun hc => hc.2.2.2 hpc
  refine ⟨kept_of_repr (by simp) (hi.repr hdone), hi.wellFormed, fun x hx => ?_, ?_, by simp,
    by simp, fun _ => rfl⟩
  · obtain ⟨-, hlate, hsleeps⟩ := hposts x hx
    exact .inl ⟨hlate, by rw [hsleeps]⟩
  · rw [hzero, Nat.zero_add]
    by_cases hnow : deadline ≤ s.now
    · exact .inr ⟨if_pos hnow, hnow, by simp, by simp⟩
    · exact .inl (if_neg hnow)

theorem Inv.cpu (hi : Inv bufLen deadline s) (h : cpuStep bufLen deadline s = some u) :
    Inv bufLen deadline u := by
  unfold cpuStep at h
  have hposts := hi.posts
  have hclock := hi.clock
  cases hpc : s.pc with
  | poll =>
    simp only [hpc, Option.some.injEq] at h
    subst h
    exact hi.tryRecv (.inl hpc) (.inl rfl)
  | register =>
    simp only [hpc, Option.some.injEq] at h
    subst h
    rw [hpc] at hposts
    exact hi.move (by simp [hpc]) (by simp) (by simp) hposts
      (hclock.imp id fun hc => ⟨hc.1, hc.2.1, by simp⟩)
  | recheck =>
    simp only [hpc, Option.some.injEq] at h
    subst h
    exact hi.tryRecv (.inr hpc) (.inr rfl)
  | deadline =>
    simp only [hpc, Option.some.injEq] at h
    subst h
    exact hi.checkDeadline hpc
  | pending =>
    simp only [hpc, Option.some.injEq] at h
    subst h
    rw [hpc] at hposts
    exact hi.move (by simp [hpc]) (by simp) (by simp) hposts
      (.inl (hclock.resolve_right fun hc => hc.2.2.1 hpc))
  | masked =>
    simp only [hpc] at h
    by_cases hlatched : s.latched = true
    · -- the interrupt ends the halt, and the ring is looked at again
      rw [if_pos hlatched, Option.some.injEq] at h
      subst h
      refine hi.move (by simp [hpc]) (by simp) (by simp) (fun x hx => ?_)
        (.inl (hclock.resolve_right fun hc => hc.2.2.2 hpc))
      exact (hposts x hx).inTime (by simp [hpc]) hi.safe
    · rw [if_neg hlatched, Option.some.injEq] at h
      subst h
      exact hi.sleep hpc
  | asleep | done | panicked => simp [hpc] at h

theorem Inv.irq (hi : Inv bufLen deadline s) : Inv bufLen deadline (takeIrq s) := by
  unfold takeIrq
  by_cases henabled : s.enabled = true
  · rw [if_pos henabled]
    cases hpc : s.pc with
    | asleep =>
      refine hi.move (by simp [hpc]) (by simp) (by simp) (fun x hx => ?_)
        (hi.clock.imp id fun hc => ⟨hc.1, hc.2.1, by simp⟩)
      exact (hi.posts x hx).inTime (by simp [hpc]) hi.safe
    | _ => exact hi
  · rw [if_neg henabled]
    exact ⟨hi.kept, hi.wellFormed, hi.posts, hi.clock, hi.timeout, hi.safe, hi.enabled⟩

/-- A packet that has just been put. -/
theorem postOk_new (pc : Pc) (sleeps looks : ℕ) (p : Packet) :
    PostOk pc sleeps looks ⟨p, sleeps, looks, pc.late⟩ := by
  cases pc with
  | poll => exact .inl rfl
  | register => exact rfl
  | recheck => exact rfl
  | deadline => exact ⟨rfl, rfl, rfl⟩
  | pending => exact ⟨rfl, rfl, rfl⟩
  | masked => exact ⟨rfl, rfl, rfl⟩
  | asleep => exact .inr rfl
  | done res => cases res with
    | error e => exact rfl
    | ok x => trivial
  | panicked => trivial

/-- The system with one more packet on the ring. -/
def posting (p : Packet) (s : Sys) : Sys :=
  { s with
    ring := push s.ring p (List.replicate 8 0)
    posted := s.posted ++ [⟨p, s.sleeps, s.looks, s.pc.late⟩] }

/-- What was on the ring is still there, and the new packet behind it. -/
theorem hostPut_repr {p : Packet} {q : List Packet} (hq : Repr s.ring q)
    (h : hostPut p s = some u) : u = posting p s ∧ Repr (posting p s).ring (q ++ [p]) := by
  simp only [hostPut, hq.sendAvail, Option.ite_none_right_eq_some, Option.some.injEq] at h
  refine ⟨h.2.symm, hq.push (List.length_replicate ..) ?_⟩
  rw [packetSpan_concat]
  omega

theorem Inv.kept_put (hi : Inv bufLen deadline s) {p : Packet} (h : hostPut p s = some u) :
    u = posting p s ∧ Kept bufLen (posting p s) := by
  have hkept := hi.kept
  unfold Kept at hkept
  split at hkept
  · rename_i res hpc
    obtain ⟨x, rest, hposted, hrepr, hres, htime⟩ := hkept
    obtain ⟨hu, hnew⟩ := hostPut_repr hrepr h
    refine ⟨hu, ?_⟩
    simp only [Kept, posting, hpc]
    exact ⟨x, rest ++ [⟨p, s.sleeps, s.looks, s.pc.late⟩], by rw [hposted, List.cons_append, hpc],
      by rwa [List.map_append], hres, htime⟩
  · rename_i hnot
    obtain ⟨hu, hnew⟩ := hostPut_repr hkept h
    exact ⟨hu, kept_of_repr hnot (by rwa [posting, List.map_append])⟩

theorem Inv.put (hi : Inv bufLen deadline s) {p : Packet} (hp : WellFormed p)
    (h : hostPut p s = some u) : Inv bufLen deadline u := by
  obtain ⟨rfl, hkept⟩ := hi.kept_put h
  refine ⟨hkept, ?_, ?_, hi.clock, hi.timeout, hi.safe, hi.enabled⟩
  · intro x hx
    rcases List.mem_append.mp hx with hx | hx
    · exact hi.wellFormed x hx
    · obtain rfl := List.mem_singleton.mp hx
      exact hp
  · intro x hx
    rcases List.mem_append.mp hx with hx | hx
    · exact hi.posts x hx
    · obtain rfl := List.mem_singleton.mp hx
      exact postOk_new _ _ _ _

theorem Inv.tick (hi : Inv bufLen deadline s) :
    Inv bufLen deadline { s with now := s.now + 1 } :=
  ⟨hi.kept, hi.wellFormed, hi.posts,
    hi.clock.imp id fun hc => ⟨hc.1, Nat.le_succ_of_le hc.2.1, hc.2.2⟩,
    fun e he => (hi.timeout e he).imp id Nat.le_succ_of_le, hi.safe, hi.enabled⟩

theorem Inv.step {a : Act} (hi : Inv bufLen deadline s) (hg : GoodHost s a)
    (h : step bufLen deadline s a = some u) : Inv bufLen deadline u := by
  cases a with
  | cpu => exact hi.cpu h
  | put p => exact hi.put hg h
  | irq =>
    obtain rfl := Option.some.inj h
    exact hi.irq
  | tick =>
    obtain rfl := Option.some.inj h
    exact hi.tick

/-! ### The call returns -/

theorem Returns.cpu (hu : cpuStep bufLen deadline s = some u) (h : Returns bufLen deadline u) :
    Returns bufLen deadline s := by
  obtain ⟨l, v, res, hrun, hres⟩ := h
  exact ⟨.cpu :: l, v, res, .cons (.inl rfl) hu hrun, hres⟩

theorem Returns.of_done {res} (h : s.pc = .done res) : Returns bufLen deadline s :=
  ⟨[], s, res, .nil, h⟩

/-- A look at the ring returns the oldest packet; without one, the future goes on. -/
theorem Inv.returns_tryRecv (hi : Inv bufLen deadline s) (hready : Ready deadline s)
    (hpc : s.pc = .poll ∨ s.pc = .recheck) {empty : Pc}
    (hempty : empty = .register ∨ empty = .deadline)
    (hnext : deadline ≤ s.now → Inv bufLen deadline { s with looks := s.looks + 1, pc := empty } →
      Returns bufLen deadline { s with looks := s.looks + 1, pc := empty }) :
    Returns bufLen deadline (RecvTimeout.tryRecv bufLen empty s) := by
  have hdone : ∀ res, s.pc ≠ .done res := by
    rintro res h
    rcases hpc with hpc | hpc <;> exact absurd (hpc.symm.trans h) (by simp)
  have hi' := hi.tryRecv hpc hempty
  have hrepr := hi.repr hdone
  rcases hposted : s.posted with _ | ⟨x, rest⟩ <;> rw [hposted] at hrepr
  · rw [tryRecv_nil _ hrepr] at hi' ⊢
    exact hnext (hready.resolve_left fun h => h hposted) hi'
  · rw [tryRecv_cons _ hrepr (hi.wellFormed x (by rw [hposted]; exact List.mem_cons_self))]
    exact .of_done rfl

theorem Inv.returns_recheck (hi : Inv bufLen deadline s) (hready : Ready deadline s)
    (hpc : s.pc = .recheck) : Returns bufLen deadline s := by
  refine .cpu (by rw [cpuStep, hpc]) (hi.returns_tryRecv hready (.inr hpc) (.inr rfl) ?_)
  intro hnow _
  exact .cpu rfl (.of_done (if_pos hnow))

theorem Inv.returns_register (hi : Inv bufLen deadline s) (hready : Ready deadline s)
    (hpc : s.pc = .register) : Returns bufLen deadline s := by
  have hstep : cpuStep bufLen deadline s = some { s with pc := .recheck } := by rw [cpuStep, hpc]
  exact .cpu hstep ((hi.cpu hstep).returns_recheck hready rfl)

theorem Inv.returns_poll (hi : Inv bufLen deadline s) (hready : Ready deadline s)
    (hpc : s.pc = .poll) : Returns bufLen deadline s := by
  refine .cpu (by rw [cpuStep, hpc]) (hi.returns_tryRecv hready (.inl hpc) (.inl rfl) ?_)
  intro _ hi'
  exact hi'.returns_register hready rfl

/-- An interrupt wakes the CPU. -/
theorem Inv.returns_asleep (hi : Inv bufLen deadline s) (hready : Ready deadline s)
    (hpc : s.pc = .asleep) : Returns bufLen deadline s := by
  have hwake : takeIrq s = { s with pc := .poll } := by rw [takeIrq, if_pos (hi.enabled hpc), hpc]
  have hi' := hi.irq
  rw [hwake] at hi'
  obtain ⟨l, v, res, hrun, hres⟩ := hi'.returns_poll hready rfl
  exact ⟨.irq :: l, v, res, .cons (.inr rfl) (congrArg some hwake) hrun, hres⟩

theorem Inv.returns_masked (hi : Inv bufLen deadline s) (hready : Ready deadline s)
    (hpc : s.pc = .masked) : Returns bufLen deadline s := by
  by_cases hlatched : s.latched = true
  · have hstep : cpuStep bufLen deadline s =
        some { s with pc := .poll, enabled := true, latched := false } := by
      simp only [cpuStep, hpc, if_pos hlatched]
    exact .cpu hstep ((hi.cpu hstep).returns_poll hready rfl)
  · refine .cpu ?_ ((hi.sleep hpc).returns_asleep hready rfl)
    simp only [cpuStep, hpc, if_neg hlatched]

theorem Inv.returns_pending (hi : Inv bufLen deadline s) (hready : Ready deadline s)
    (hpc : s.pc = .pending) : Returns bufLen deadline s := by
  have hstep : cpuStep bufLen deadline s = some { s with pc := .masked, enabled := false } := by
    rw [cpuStep, hpc]
  exact .cpu hstep ((hi.cpu hstep).returns_masked hready rfl)

theorem Inv.returns (hi : Inv bufLen deadline s) (hready : Ready deadline s) :
    Returns bufLen deadline s := by
  cases hpc : s.pc with
  | poll => exact hi.returns_poll hready hpc
  | register => exact hi.returns_register hready hpc
  | recheck => exact hi.returns_recheck hready hpc
  | deadline =>
    have hi' := hi.checkDeadline hpc
    refine .cpu (by rw [cpuStep, hpc]) ?_
    by_cases hnow : deadline ≤ s.now
    · exact .of_done (if_pos hnow)
    · rw [if_neg hnow] at hi' ⊢
      exact hi'.returns_pending hready rfl
  | pending => exact hi.returns_pending hready hpc
  | masked => exact hi.returns_masked hready hpc
  | asleep => exact hi.returns_asleep hready hpc
  | done res => exact .of_done hpc
  | panicked => exact absurd hpc hi.safe

theorem Inv.recvOk (hi : Inv bufLen deadline s) : RecvOk bufLen deadline s where
  kept := hi.kept
  timeout := by
    intro e hpc
    obtain ⟨he, hnow⟩ := hi.timeout e hpc
    refine ⟨he, hnow, fun x hx => ?_⟩
    have hok := hi.posts x hx
    rwa [hpc] at hok
  waiting := fun hdone x hx => (hi.posts x hx).inTime hdone hi.safe
  asleep := by
    intro hpc x hx
    have hok := hi.posts x hx
    rw [hpc] at hok
    exact hok.imp And.left Eq.symm
  overslept := by
    rcases hi.clock with h | ⟨h, -⟩ <;> omega
  safe := hi.safe
  returns := hi.returns

theorem start_inv {ring : RingHalf} {q : List Packet} (hq : Repr ring q)
    (hgood : ∀ p ∈ q, WellFormed p) (now : ℕ) (enabled latched : Bool) :
    Inv bufLen deadline (start ring q now enabled latched) := by
  have hmem : ∀ x ∈ q.map (fun p => (⟨p, 0, 0, false⟩ : Post)), x.packet ∈ q ∧ x.sleeps = 0 := by
    intro x hx
    obtain ⟨p, hp, rfl⟩ := List.mem_map.mp hx
    exact ⟨hp, rfl⟩
  refine ⟨kept_of_repr (by simp [start]) ?_, fun x hx => hgood _ (hmem x hx).1,
    fun x hx => .inl (hmem x hx).2.symm, .inl rfl, by simp [start], by simp [start],
    by simp [start]⟩
  rw [start, List.map_map]
  simpa [Function.comp_def] using hq

/-- **`recv_with_timeout` returns the oldest packet or times out**, whatever the host and
the interrupts do. -/
theorem recvOk_of_run {ring : RingHalf} {q : List Packet} (hq : Repr ring q)
    (hgood : ∀ p ∈ q, WellFormed p) {now : ℕ} {enabled latched : Bool} {l : List Act}
    (h : Exec (RecvTimeout.step bufLen deadline) GoodHost (start ring q now enabled latched) l s) :
    RecvOk bufLen deadline s :=
  (h.invariant (start_inv hq hgood now enabled latched) fun hi hg hs => hi.step hg hs).recvOk

def lateDesc : VmPacketDescriptor := ⟨vmPktComp, 2, 3, 0, 7⟩

def latePacket : Packet := ⟨lateDesc, [1, 2, 3, 4, 5, 6, 7, 8], rfl⟩

/-- The packet and its interrupt come between the second look at the ring and `cli`. -/
def latePut : List Act :=
  [.cpu, .cpu, .cpu, .put latePacket, .irq, .cpu, .cpu, .cpu, .tick, .irq, .cpu]

theorem page_pos : 0 < 4096 := by decide

theorem page_dvd : 4096 ∣ 4096 := Nat.dvd_refl 4096

/-- An empty ring before the first poll. -/
def waitInit : Sys := start (freshRing 4096 (fun _ => 0) page_pos page_dvd) [] 3 true false

theorem recvOk_after_sleep :
    ∃ s, Exec (step 4 9) GoodHost waitInit latePut s ∧
      s.pc = .done (.ok (lateDesc, [1, 2, 3, 4])) ∧ s.sleeps = 1 ∧ RecvOk 4 9 s := by
  obtain ⟨s, hrun, hs⟩ : ∃ s, Exec (step 4 9) GoodHost waitInit latePut s ∧
      (s.pc, s.sleeps) = (.done (.ok (lateDesc, [1, 2, 3, 4])), 1) :=
    Exec.exists_of_map (by decide +kernel)
  obtain ⟨hpc, hsleeps⟩ := Prod.mk.inj hs
  refine ⟨s, hrun, hpc, hsleeps, recvOk_of_run ?_ (by simp) hrun⟩
  exact freshRing_repr page_pos page_dvd (by decide)

end RecvTimeout
