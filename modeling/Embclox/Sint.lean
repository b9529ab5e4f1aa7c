/-
The interrupt of a channel, from the host's signal to the task.

The host signals a channel by its bit in the page of flags and raises SINT2 if the bit was
clear; bits of other channels, messages and further interrupts come at any time.  The
handler is `vmbus_isr` of `Isr`, step by step.  Its wakes for the channel, and for those
that share its slot of the table, go to one waker cell, in which one task registers.

* `Alert` — the handler is going to read a bit that is set, unless the host sets it between
  the handler's read and its write of the word;
* `Rung` — the task is woken, or a signal that has not come to its wake is under way;
* `Rung.step` — no step loses that, unless the wake comes when nobody is registered;
* `Coming.wakes` — the signal gets to the wake without a further one.
-/
import Embclox.Async
import Embclox.Isr

open Async Run

namespace Sint

/-- The wake goes to the slot of this channel. -/
def reaches (relid : ℕ) : Isr.Wake → Bool
  | .simp => false
  | .channel r => Isr.channelWaker r == Isr.channelWaker relid

def idle : Isr.Pc → Bool
  | .idle => true
  | .siefp | .scan _ | .read _ _ | .walk _ _ => false

structure Line (ω : Type) where
  isr : Isr.Sys
  /-- The host is going to signal the channel. -/
  owed : Bool
  irq : Bool
  cell : ω
  /-- The waker of the task was called since it was polled last. -/
  woken : Bool

inductive Act
  /-- The host signals the channel. -/
  | signal
  /-- The host signals another channel or writes a message, or a page is published. -/
  | page (a : Isr.Act)
  /-- An interrupt without a signal of the channel. -/
  | raise
  /-- The CPU takes the interrupt, or the handler makes its next step. -/
  | isr
  /-- Something else wakes the task. -/
  | other

/-- Neither a step of the handler nor a signal of the channel. -/
def ofOthers (relid : ℕ) : Isr.Act → Bool
  | .isr => false
  | .set r => r != relid
  | .message _ | .publishSiefp | .publishSimp => true

/-- The wakers that the next step of the handler calls. -/
def calls (s : Isr.Sys) : List Isr.Wake := (Isr.isrStep s.pages s.pc).2.2

section

variable {ω : Type} (relid : ℕ) (cell : Cell ω)

/-- The handler has made a step to `isr`; it wakes at most once in it. -/
def handle (s : Line ω) (isr : Isr.Sys) : Line ω :=
  if (calls s.isr).any (reaches relid) then
    { s with
      isr
      irq := s.irq && !idle s.isr.pc
      cell := cell.wake s.cell
      woken := s.woken || cell.holds s.cell }
  else { s with isr, irq := s.irq && !idle s.isr.pc }

def step (s : Line ω) : Act → Option (Line ω)
  | .signal =>
      (Isr.step s.isr (.set relid)).map fun isr =>
        { s with
          isr
          owed := false
          irq := s.irq || !(s.isr.pages.flags (relid / 64)).getLsbD (relid % 64) }
  | .page a =>
      if ofOthers relid a then (Isr.step s.isr a).map fun isr => { s with isr } else none
  | .raise => some { s with irq := true }
  | .isr =>
      if idle s.isr.pc && !s.irq then none else (Isr.step s.isr .isr).map (handle relid cell s)
  | .other => some { s with woken := true }

/-- The host does not signal the channel between a read of its word that misses the bit and
the write that clears the word. -/
def Undisturbed (s : Line ω) : Act → Prop
  | .signal => Isr.NoRace s.isr (.set relid)
  | _ => True

/-- The handler does not come to its wake for the channel before the task has registered. -/
def Registered (s : Line ω) : Act → Prop
  | .isr => .channel relid ∈ calls s.isr → s.woken = true ∨ cell.holds s.cell = true
  | _ => True

instance (s : Line ω) : (a : Act) → Decidable (Undisturbed relid s a)
  | .signal => inferInstanceAs (Decidable (Isr.NoRace s.isr (.set relid)))
  | .page _ | .raise | .isr | .other => .isTrue trivial

instance (s : Line ω) : (a : Act) → Decidable (Registered relid cell s a)
  | .isr => inferInstanceAs (Decidable (_ → _))
  | .signal | .page _ | .raise | .other => .isTrue trivial

/-- The handler comes to the word of the channel. -/
def Ahead : Isr.Pc → Prop
  | .idle => False
  | .siefp => True
  | .scan wordIdx => wordIdx ≤ relid / 64
  | .read wordIdx _ | .walk wordIdx _ => wordIdx < relid / 64

/-- A bit that is set gets to the handler. -/
structure Alert (s : Line ω) : Prop where
  siefp : s.isr.pages.siefp = true
  flag : Isr.BitSet s.isr.pages.flags relid →
    s.irq = true ∨ Ahead relid s.isr.pc ∨ ∃ w, s.isr.pc = .read (relid / 64) w
  seen : ∀ w, s.isr.pc = .read (relid / 64) w → Isr.BitSet s.isr.pages.flags relid →
    w.getLsbD (relid % 64) = true

def Rung (s : Line ω) : Prop :=
  s.woken = true ∨ s.owed = true ∨ Isr.BitSet s.isr.pages.flags relid ∨ Isr.Held relid s.isr.pc

/-! ### What a step does -/

/-- The state of the handler after its next step. -/
def isrNext (s : Isr.Sys) : Isr.Sys :=
  ⟨(Isr.isrStep s.pages s.pc).1, (Isr.isrStep s.pages s.pc).2.1, s.log ++ (calls s).map .wake⟩

variable {relid} {cell}

theorem step_isr {s : Line ω} (h : idle s.isr.pc = false ∨ s.irq = true) :
    step relid cell s .isr = some (handle relid cell s (isrNext s.isr)) := by
  rw [step, if_neg (by rcases h with h | h <;> simp [h])]
  rfl

@[simp] theorem handle_isr (s : Line ω) (isr : Isr.Sys) : (handle relid cell s isr).isr = isr := by
  unfold handle
  split <;> rfl

@[simp] theorem handle_owed (s : Line ω) (isr : Isr.Sys) :
    (handle relid cell s isr).owed = s.owed := by
  unfold handle
  split <;> rfl

@[simp] theorem handle_irq (s : Line ω) (isr : Isr.Sys) :
    (handle relid cell s isr).irq = (s.irq && !idle s.isr.pc) := by
  unfold handle
  split <;> rfl

/-- Who was woken stays so. -/
theorem woken_handle {s : Line ω} (isr : Isr.Sys) (h : s.woken = true) :
    (handle relid cell s isr).woken = true := by
  unfold handle
  split
  · simp [h]
  · exact h

/-- Who is in the cell stays there, or is woken. -/
theorem registered_handle {s : Line ω} (isr : Isr.Sys)
    (h : s.woken = true ∨ cell.holds s.cell = true) :
    (handle relid cell s isr).woken = true ∨
      cell.holds (handle relid cell s isr).cell = true := by
  unfold handle
  split
  · exact .inl (by simpa using h)
  · exact h

/-- The wake for the channel. -/
theorem woken_of_calls {s : Line ω} (isr : Isr.Sys) (hcall : .channel relid ∈ calls s.isr)
    (h : s.woken = true ∨ cell.holds s.cell = true) :
    (handle relid cell s isr).woken = true := by
  have hany : (calls s.isr).any (reaches relid) = true :=
    List.any_eq_true.mpr ⟨_, hcall, by simp [reaches]⟩
  rw [handle, if_pos hany]
  simpa using h

/-- The steps of others leave the handler and the bit of the channel alone. -/
theorem page_keeps {a : Isr.Act} {s u : Isr.Sys} (ha : ofOthers relid a = true)
    (h : Isr.step s a = some u) :
    u.pc = s.pc ∧ (Isr.BitSet u.pages.flags relid ↔ Isr.BitSet s.pages.flags relid) ∧
      (s.pages.siefp = true → u.pages.siefp = true) := by
  cases a with
  | isr => exact absurd ha Bool.false_ne_true
  | set r =>
    rw [Isr.step] at h
    split_ifs at h
    obtain rfl := Option.some.inj h
    refine ⟨rfl, ?_, id⟩
    rw [Isr.bitSet_setBit]
    exact or_iff_left fun h => (bne_iff_ne.mp ha) h.1.symm
  | message t | publishSimp =>
    obtain rfl := Option.some.inj h
    exact ⟨rfl, Iff.rfl, id⟩
  | publishSiefp =>
    obtain rfl := Option.some.inj h
    exact ⟨rfl, Iff.rfl, fun _ => rfl⟩

/-- The channel after a signal. -/
theorem signal_sets {s u : Isr.Sys} (h : Isr.step s (.set relid) = some u) :
    u.pc = s.pc ∧ u.pages.siefp = s.pages.siefp ∧ Isr.BitSet u.pages.flags relid := by
  rw [Isr.step] at h
  split_ifs at h with hlt
  obtain rfl := Option.some.inj h
  exact ⟨rfl, rfl, (Isr.bitSet_setBit _ _ _).mpr (.inr ⟨rfl, hlt⟩)⟩

/-! ### A bit that is set -/

theorem siefp_isrNext (s : Isr.Sys) : (isrNext s).pages.siefp = s.pages.siefp := by
  cases hpc : s.pc with
  | scan wordIdx | walk wordIdx w =>
    simp only [isrNext, hpc, Isr.isrStep]
    split_ifs <;> rfl
  | idle | siefp | read => simp [isrNext, hpc, Isr.isrStep]

/-- **The handler comes to the bit**: a step of it leaves the bit to be read, unless it has
read it and clears the word. -/
theorem isrNext_ahead {s : Isr.Sys} (hpub : s.pages.siefp = true)
    (hset : Isr.BitSet (isrNext s).pages.flags relid) :
    Isr.BitSet s.pages.flags relid ∧
      (s.pc = .idle ∨ Ahead relid s.pc ∨ (∃ w, s.pc = .read (relid / 64) w) →
        Ahead relid (isrNext s).pc ∨ ∃ w, (isrNext s).pc = .read (relid / 64) w) := by
  cases hpc : s.pc with
  | idle =>
    rw [isrNext, hpc, Isr.isrStep] at hset ⊢
    exact ⟨hset, fun _ => .inl trivial⟩
  | siefp =>
    simp only [isrNext, hpc, Isr.isrStep, hpub, if_pos] at hset ⊢
    exact ⟨hset, fun _ => .inl (Nat.zero_le _)⟩
  | scan wordIdx =>
    have hflags : (isrNext s).pages = s.pages := by
      simp only [isrNext, hpc, Isr.isrStep]
      split_ifs <;> rfl
    rw [hflags] at hset
    refine ⟨hset, fun hahead => ?_⟩
    have hle : wordIdx ≤ relid / 64 := by simpa [Ahead] using hahead
    have hlt : wordIdx < Isr.siefpWords := Nat.lt_of_le_of_lt hle hset.1
    have hnext : (isrNext s).pc = if s.pages.flags wordIdx = 0#64 then .scan (wordIdx + 1)
        else .read wordIdx (s.pages.flags wordIdx) := by
      simp only [isrNext, hpc, Isr.isrStep, if_pos hlt]
    rcases Nat.lt_or_eq_of_le hle with hless | rfl
    · rw [hnext]
      split_ifs
      · exact .inl hless
      · exact .inl hless
    · -- the word of the channel is not zero
      have hne : s.pages.flags (relid / 64) ≠ 0#64 := fun h0 => by simpa [h0] using hset.2
      rw [hnext, if_neg hne]
      exact .inr ⟨_, rfl⟩
  | read wordIdx w =>
    simp only [isrNext, hpc, Isr.isrStep] at hset ⊢
    have hne : relid / 64 ≠ wordIdx := by
      rintro rfl
      simpa using hset.2
    refine ⟨⟨hset.1, by simpa [Function.update_of_ne hne] using hset.2⟩, fun hahead => .inl ?_⟩
    rcases hahead with h | h | ⟨v, h⟩
    · exact absurd h (by simp)
    · exact h
    · exact absurd (Isr.Pc.read.inj h).1.symm hne
  | walk wordIdx w =>
    have hflags : (isrNext s).pages = s.pages := by
      simp only [isrNext, hpc, Isr.isrStep]
      split_ifs <;> rfl
    rw [hflags] at hset
    refine ⟨hset, fun hahead => .inl ?_⟩
    have hlt : wordIdx < relid / 64 := by simpa [Ahead] using hahead
    simp only [isrNext, hpc, Isr.isrStep]
    split_ifs
    · exact hlt
    · exact hlt

/-- The handler has the value of the word right after it has read it. -/
theorem isrNext_seen {s : Isr.Sys} {w : BitVec 64}
    (hpc : (isrNext s).pc = .read (relid / 64) w)
    (hset : Isr.BitSet (isrNext s).pages.flags relid) : w.getLsbD (relid % 64) = true := by
  cases hs : s.pc with
  | scan wordIdx =>
    simp only [isrNext, hs, Isr.isrStep] at hpc hset
    split_ifs at hpc hset with hlt hw
    obtain ⟨rfl, rfl⟩ := Isr.Pc.read.inj hpc
    exact hset.2
  | idle | read => simp [isrNext, hs, Isr.isrStep] at hpc
  | siefp | walk =>
    simp only [isrNext, hs, Isr.isrStep] at hpc
    split_ifs at hpc

variable {s u : Line ω} {a : Act}

theorem Alert.isr (hs : Alert relid s) : Alert relid (handle relid cell s (isrNext s.isr)) where
  siefp := by
    rw [handle_isr, siefp_isrNext]
    exact hs.siefp
  flag := by
    rw [handle_isr, handle_irq]
    intro hset
    obtain ⟨hold, hahead⟩ := isrNext_ahead hs.siefp hset
    cases hidle : idle s.isr.pc with
    | true =>
      have hpc : s.isr.pc = .idle := by
        cases hpc : s.isr.pc with
        | idle => rfl
        | _ => simp [hpc, idle] at hidle
      exact .inr (hahead (.inl hpc))
    | false =>
      rcases hs.flag hold with hirq | hgo
      · exact .inl (by simp [hirq])
      · exact .inr (hahead (.inr hgo))
  seen := by
    rw [handle_isr]
    exact fun w hpc hset => isrNext_seen hpc hset

/-- **A bit that is set stays on its way to the handler.** -/
theorem Alert.step (hs : Alert relid s) (hg : Undisturbed relid s a)
    (h : step relid cell s a = some u) : Alert relid u := by
  cases a with
  | signal =>
    obtain ⟨isr, hisr, rfl⟩ := Option.map_eq_some_iff.mp h
    obtain ⟨hpc, hpub, -⟩ := signal_sets hisr
    refine ⟨hpub.trans hs.siefp, fun hset => ?_, fun w hw _ => ?_⟩
    · -- without an interrupt the bit was set before
      cases hbit : (s.isr.pages.flags (relid / 64)).getLsbD (relid % 64) with
      | false => exact .inl (by simp)
      | true =>
        simp only [Bool.not_true, Bool.or_false, hpc]
        exact hs.flag ⟨hset.1, hbit⟩
    · exact hg _ w (hpc.symm.trans hw) rfl
  | page a =>
    simp only [Sint.step, Option.ite_none_right_eq_some, Option.map_eq_some_iff] at h
    obtain ⟨ha, isr, hisr, rfl⟩ := h
    obtain ⟨hpc, hset, hpub⟩ := page_keeps ha hisr
    refine ⟨hpub hs.siefp, fun h => ?_, fun w hw h => hs.seen w (hpc.symm.trans hw) (hset.mp h)⟩
    simp only [hpc]
    exact hs.flag (hset.mp h)
  | raise =>
    obtain rfl := Option.some.inj h
    exact ⟨hs.siefp, fun _ => .inl rfl, hs.seen⟩
  | isr =>
    simp only [Sint.step, Option.ite_none_left_eq_some, Option.map_eq_some_iff] at h
    obtain ⟨-, isr, hisr, rfl⟩ := h
    obtain rfl : isrNext s.isr = isr := Option.some.inj hisr
    exact hs.isr
  | other =>
    obtain rfl := Option.some.inj h
    exact ⟨hs.siefp, hs.flag, hs.seen⟩

/-- **One step** keeps the signal on its way. -/
theorem Rung.step (h : Rung relid s) (hs : Alert relid s) (hg : Registered relid cell s a)
    (hstep : step relid cell s a = some u) : Rung relid u := by
  cases a with
  | signal =>
    obtain ⟨isr, hisr, rfl⟩ := Option.map_eq_some_iff.mp hstep
    exact .inr (.inr (.inl (signal_sets hisr).2.2))
  | page a =>
    simp only [Sint.step, Option.ite_none_right_eq_some, Option.map_eq_some_iff] at hstep
    obtain ⟨ha, isr, hisr, rfl⟩ := hstep
    obtain ⟨hpc, hset, -⟩ := page_keeps ha hisr
    unfold Rung at h ⊢
    rwa [hpc, hset]
  | raise =>
    obtain rfl := Option.some.inj hstep
    exact h
  | isr =>
    simp only [Sint.step, Option.ite_none_left_eq_some, Option.map_eq_some_iff] at hstep
    obtain ⟨-, isr, hisr, rfl⟩ := hstep
    obtain rfl : isrNext s.isr = isr := Option.some.inj hisr
    rcases h with hwoken | howed | hsignal
    · exact .inl (woken_handle _ hwoken)
    · exact .inr (.inl (by simpa using howed))
    · -- the bit stays where it is, moves into the handler's hands, or is woken for
      rcases Isr.isrStep_keeps relid hs.seen hsignal with hset | hheld | hcall
      · exact .inr (.inr (.inl (by rwa [handle_isr])))
      · exact .inr (.inr (.inr (by rwa [handle_isr])))
      · exact .inl (woken_of_calls _ hcall (hg hcall))
  | other =>
    obtain rfl := Option.some.inj hstep
    exact .inl rfl

/-- A task in the cell is woken or stays there. -/
theorem registered_step (h : s.woken = true ∨ cell.holds s.cell = true)
    (hstep : step relid cell s a = some u) : u.woken = true ∨ cell.holds u.cell = true := by
  cases a with
  | signal =>
    obtain ⟨isr, -, rfl⟩ := Option.map_eq_some_iff.mp hstep
    exact h
  | page a =>
    simp only [Sint.step, Option.ite_none_right_eq_some, Option.map_eq_some_iff] at hstep
    obtain ⟨-, isr, -, rfl⟩ := hstep
    exact h
  | raise =>
    obtain rfl := Option.some.inj hstep
    exact h
  | isr =>
    simp only [Sint.step, Option.ite_none_left_eq_some, Option.map_eq_some_iff] at hstep
    obtain ⟨-, isr, -, rfl⟩ := hstep
    exact registered_handle isr h
  | other =>
    obtain rfl := Option.some.inj hstep
    exact .inl rfl

/-! ### The wake -/

variable (relid cell) in
/-- The host signals if it owes that, and the handler runs. -/
def Serves (s : Line ω) (a : Act) : Prop :=
  a = .isr ∨ a = .signal ∧ s.owed = true ∧ Isr.NoRace s.isr (.set relid)

theorem Serves.undisturbed (h : Serves relid s a) : Undisturbed relid s a := by
  rcases h with rfl | ⟨rfl, -, hrace⟩
  · trivial
  · exact hrace

/-- A signal is on its way to a task that is registered. -/
structure Coming (relid : ℕ) (cell : Cell ω) (s : Line ω) : Prop where
  rung : Rung relid s
  alert : Alert relid s
  registered : s.woken = true ∨ cell.holds s.cell = true

theorem Coming.step (h : Coming relid cell s) (hg : Serves relid s a)
    (hs : step relid cell s a = some u) : Coming relid cell u where
  rung := by
    refine h.rung.step h.alert ?_ hs
    cases a with
    | isr => exact fun _ => h.registered
    | _ => trivial
  alert := h.alert.step hg.undisturbed hs
  registered := registered_step h.registered hs

variable (relid cell) in
/-- The handler comes to its end by itself. -/
def Ends (s : Line ω) : Prop :=
  ∃ l t, Exec (step relid cell) (Serves relid) s l t ∧ t.isr.pc = .idle ∧ t.owed = s.owed ∧
    (s.irq = false → t.irq = false)

theorem Ends.head (hrun : idle s.isr.pc = false)
    (h : Ends relid cell (handle relid cell s (isrNext s.isr))) : Ends relid cell s := by
  obtain ⟨l, t, ht, hidle, howed, hirq⟩ := h
  refine ⟨.isr :: l, t, .cons (.inl rfl) (step_isr (.inl hrun)) ht, hidle,
    howed.trans (handle_owed s _), fun h => hirq ?_⟩
  rw [handle_irq, h, Bool.false_and]

theorem ends_of_walk {wordIdx : ℕ} {w : BitVec 64}
    (hscan : ∀ t : Line ω, t.isr.pc = .scan (wordIdx + 1) → Ends relid cell t) :
    ∀ {s : Line ω}, s.isr.pc = .walk wordIdx w → Ends relid cell s := by
  induction w using Isr.walkBits.induct with
  | case1 =>
    intro s hpc
    refine .head (by rw [hpc]; rfl) (hscan _ ?_)
    simp [isrNext, hpc, Isr.isrStep]
  | case2 w hw ih =>
    intro s hpc
    refine .head (by rw [hpc]; rfl) (ih ?_)
    simp [isrNext, hpc, Isr.isrStep, hw]

theorem ends_of_read {wordIdx : ℕ} {w : BitVec 64}
    (hscan : ∀ t : Line ω, t.isr.pc = .scan (wordIdx + 1) → Ends relid cell t)
    (hpc : s.isr.pc = .read wordIdx w) : Ends relid cell s := by
  refine .head (by rw [hpc]; rfl) (ends_of_walk hscan (w := w) ?_)
  simp [isrNext, hpc, Isr.isrStep]

theorem ends_of_scan {n : ℕ} : ∀ {wordIdx : ℕ} {s : Line ω}, Isr.siefpWords - wordIdx = n →
    s.isr.pc = .scan wordIdx → Ends relid cell s := by
  induction n with
  | zero =>
    intro wordIdx s hn hpc
    refine .head (by rw [hpc]; rfl) ⟨[], _, .nil, ?_, rfl, id⟩
    simp [isrNext, hpc, Isr.isrStep, show ¬ wordIdx < Isr.siefpWords by omega]
  | succ n ih =>
    intro wordIdx s hn hpc
    have hlt : wordIdx < Isr.siefpWords := by omega
    have hnext : ∀ t : Line ω, t.isr.pc = .scan (wordIdx + 1) → Ends relid cell t :=
      fun t ht => ih (by omega) ht
    refine .head (by rw [hpc]; rfl) ?_
    by_cases hw : s.isr.pages.flags wordIdx = 0#64
    · exact hnext _ (by simp [isrNext, hpc, Isr.isrStep, hlt, hw])
    · exact ends_of_read (w := s.isr.pages.flags wordIdx) hnext
        (by simp [isrNext, hpc, Isr.isrStep, hlt, hw])

/-- **The handler ends**, wherever it stands. -/
theorem exists_idle (s : Line ω) : Ends relid cell s := by
  cases hpc : s.isr.pc with
  | idle => exact ⟨[], s, .nil, hpc, rfl, id⟩
  | siefp =>
    refine .head (by rw [hpc]; rfl) ?_
    by_cases hpub : s.isr.pages.siefp = true
    · have hscan : (isrNext s.isr).pc = .scan 0 := by simp [isrNext, hpc, Isr.isrStep, hpub]
      exact ends_of_scan rfl ((congrArg Isr.Sys.pc (handle_isr s _)).trans hscan)
    · exact ⟨[], _, .nil, by simp [isrNext, hpc, Isr.isrStep, hpub], rfl, id⟩
  | scan wordIdx => exact ends_of_scan rfl hpc
  | read wordIdx w => exact ends_of_read (fun t ht => ends_of_scan rfl ht) hpc
  | walk wordIdx w => exact ends_of_walk (fun t ht => ends_of_scan rfl ht) hpc

/-- From the interrupt to the wake: when the handler has ended again, no bit is left. -/
theorem Coming.wakes_of_irq (h : Coming relid cell s) (hidle : s.isr.pc = .idle)
    (hirq : s.irq = true) (howed : s.owed = false) :
    ∃ l t, Exec (Sint.step relid cell) (Serves relid) s l t ∧ t.woken = true := by
  have hstep : Sint.step relid cell s .isr = some _ := step_isr (.inr hirq)
  have hcoming := h.step (.inl rfl) hstep
  obtain ⟨l, t, hrun, htidle, htowed, htirq⟩ : Ends relid cell (handle relid cell s _) :=
    exists_idle _
  have hquiet : t.irq = false := htirq (by simp [hidle, idle])
  obtain ⟨hrung, halert, -⟩ := hrun.invariant hcoming fun hi hg hs => hi.step hg hs
  refine ⟨.isr :: l, t, .cons (.inl rfl) hstep hrun, ?_⟩
  rcases hrung with hwoken | howed' | hset | hheld
  · exact hwoken
  · rw [htowed, handle_owed, howed] at howed'
    exact absurd howed' Bool.false_ne_true
  · rcases halert.flag hset with h | h | ⟨w, h⟩
    · exact absurd (hquiet.symm.trans h) Bool.false_ne_true
    · exact absurd h (by simp [htidle, Ahead])
    · exact absurd (htidle.symm.trans h) (by simp)
  · exact absurd hheld (by simp [htidle, Isr.Held])

/-- **A signal on its way wakes the task**: nothing else has to happen than that the host
signals if it owes that, and that the handler runs. -/
theorem Coming.wakes (hrelid : relid / 64 < Isr.siefpWords) (h : Coming relid cell s) :
    ∃ l t, Exec (Sint.step relid cell) (Serves relid) s l t ∧ t.woken = true := by
  obtain ⟨l, t, hrun, hidle, -, -⟩ : Ends relid cell s := exists_idle s
  have hcoming := hrun.invariant h fun hi hg hs => hi.step hg hs
  -- without a bit to be read there is no interrupt to wait for
  have hirq : ∀ {v : Line ω}, Coming relid cell v → v.isr.pc = .idle →
      Isr.BitSet v.isr.pages.flags relid → v.irq = true := by
    intro v hv hpc hset
    refine (hv.alert.flag hset).resolve_right ?_
    simp [hpc, Ahead]
  obtain ⟨l', t', hrun', hwoken⟩ : ∃ l t', Exec (Sint.step relid cell) (Serves relid) t l t' ∧
      t'.woken = true := by
    cases howed : t.owed with
    | true =>
      -- the host signals first
      have hserves : Serves relid t .signal :=
        .inr ⟨rfl, howed, fun _ _ h => absurd (hidle.symm.trans h) (by simp)⟩
      obtain ⟨isr, hisr⟩ : ∃ isr, Isr.step t.isr (.set relid) = some isr :=
        ⟨_, by rw [Isr.step, if_pos hrelid]⟩
      have hstep : Sint.step relid cell t .signal = some { t with
          isr
          owed := false
          irq := t.irq || !(t.isr.pages.flags (relid / 64)).getLsbD (relid % 64) } := by
        rw [Sint.step, hisr]
        rfl
      have hnext := hcoming.step hserves hstep
      obtain ⟨hpc, -, hset⟩ := signal_sets hisr
      obtain ⟨l, t', hrun, hwoken⟩ := hnext.wakes_of_irq (hpc.trans hidle)
        (hirq hnext (hpc.trans hidle) hset) rfl
      exact ⟨.signal :: l, t', .cons hserves hstep hrun, hwoken⟩
    | false =>
      rcases hcoming.rung with hwoken | howed' | hset | hheld
      · exact ⟨[], t, .nil, hwoken⟩
      · exact absurd (howed.symm.trans howed') Bool.false_ne_true
      · exact hcoming.wakes_of_irq hidle (hirq hcoming hidle hset) howed
      · exact absurd hheld (by simp [hidle, Isr.Held])
  exact ⟨l ++ l', t', hrun.trans hrun', hwoken⟩

end

end Sint
