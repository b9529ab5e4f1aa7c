/-
The timer of every CPU (`embclox-hal-x86/src/time.rs`, `critical_section_impl.rs`).

`DRIVER` has one alarm table for each slot, and a CPU works on the table of the slot that
its `GS_BASE` names.  `schedule_wake` is called by the tasks of a CPU and `on_timer_tick` by
its timer interrupt; both borrow the table inside a critical section, which masks the
interrupts of this CPU and holds no lock against the others.

* `Sys`, `step` — all CPUs and tables, one access at a time;
* `Apart.step_component` — CPUs with different slots do not meet;
* `honoured_of_booted` — after the boot of the APs no CPU ever panics on a table, and the
  ticks of each CPU honour the deadlines of its tasks.

The body of a call is one step here: nothing interrupts it, by `Critical.atomic_of_run`.
Wakers that enter a critical section of their own are left out.
-/
import Embclox.Critical
import Embclox.Smp
import Embclox.Time

open Run

namespace SmpTime

variable {κ W : Type}

/-- `DRIVER.alarms[slot]`, with the flag of its `RefCell`. -/
structure Table (W : Type) where
  alarms : Time.Sys W
  borrowed : Bool

structure Core (W : Type) where
  enabled : Bool
  thread : Option (Critical.Pc (Time.Act W))
  handler : Option (Critical.Pc (Time.Act W))
  panicked : Bool

structure Sys (κ W : Type) where
  tables : ℕ → Table W
  cores : κ → Core W

/-- The slot of a CPU: `slot_of(current_cpu_id())`. -/
def slot (gs : κ → UInt64) (i : κ) : ℕ := Smp.slotOf (Smp.currentCpuId (gs i))

/-- A CPU and the table it works on. -/
def Sys.cpu (gs : κ → UInt64) (s : Sys κ W) (i : κ) :
    Critical.Cpu (Time.Sys W) (Time.Act W) :=
  ⟨(s.tables (slot gs i)).alarms, (s.tables (slot gs i)).borrowed, (s.cores i).enabled,
    (s.cores i).thread, (s.cores i).handler, (s.cores i).panicked⟩

variable [DecidableEq κ]

def Sys.put (gs : κ → UInt64) (s : Sys κ W) (i : κ)
    (c : Critical.Cpu (Time.Sys W) (Time.Act W)) : Sys κ W :=
  ⟨Function.update s.tables (slot gs i) ⟨c.data, c.borrowed⟩,
    Function.update s.cores i ⟨c.enabled, c.thread, c.handler, c.panicked⟩⟩

/-- A step of one CPU; a slot out of range panics. -/
def step (willWake : W → W → Bool) (gs : κ → UInt64) (s : Sys κ W)
    (a : κ × Critical.Act (Time.Act W)) : Option (Sys κ W) :=
  if Smp.maxCpus ≤ slot gs a.1 then some (s.put gs a.1 { s.cpu gs a.1 with panicked := true })
  else (Critical.step (Time.step willWake) (s.cpu gs a.1) a.2).map (s.put gs a.1)

/-- No alarms, and nobody in a call. -/
def init (W : Type) (enabled : κ → Bool) : Sys κ W :=
  ⟨fun _ => ⟨Time.init W, false⟩, fun i => ⟨enabled i, none, none, false⟩⟩

/-- No call finds an alarm of its own waker with an earlier deadline. -/
def KeepsEarlier (willWake : W → W → Bool) (gs : κ → UInt64) (s : Sys κ W)
    (a : κ × Critical.Act (Time.Act W)) : Prop :=
  ∀ b ∈ a.2.work (s.cpu gs a.1), Time.KeepsEarlier willWake (s.tables (slot gs a.1)).alarms b

instance (willWake : W → W → Bool) (gs : κ → UInt64) (s : Sys κ W)
    (a : κ × Critical.Act (Time.Act W)) : Decidable (KeepsEarlier willWake gs s a) :=
  inferInstanceAs (Decidable (∀ b ∈ a.2.work (s.cpu gs a.1),
    Time.KeepsEarlier willWake (s.tables (slot gs a.1)).alarms b))

/-! ### CPUs with different slots -/

variable {willWake : W → W → Bool} {gs : κ → UInt64} {s u : Sys κ W}

/-- The slots are in range, and no two CPUs share one. -/
structure Apart (gs : κ → UInt64) : Prop where
  inRange : ∀ i, slot gs i < Smp.maxCpus
  distinct : ∀ i j, i ≠ j → slot gs i ≠ slot gs j

theorem Apart.cpu_put (h : Apart gs) (i : κ) (c : Critical.Cpu (Time.Sys W) (Time.Act W)) :
    (s.put gs i c).cpu gs = Function.update (s.cpu gs) i c := by
  funext j
  by_cases hj : j = i
  · subst hj
    simp [Sys.cpu, Sys.put]
  · simp [Sys.cpu, Sys.put, hj, h.distinct j i hj]

/-- A step of the machine is a step of one CPU, with its own table. -/
theorem Apart.step_component (h : Apart gs) {a : κ × Critical.Act (Time.Act W)}
    (hstep : step willWake gs s a = some u) :
    onComponent (Critical.step (Time.step willWake)) (s.cpu gs) a = some (u.cpu gs) := by
  rw [step, if_neg (Nat.not_le.mpr (h.inRange a.1)), Option.map_eq_some_iff] at hstep
  obtain ⟨c, hc, rfl⟩ := hstep
  rw [onComponent, hc, Option.map_some, h.cpu_put]

variable {enabled : κ → Bool} {l : List (κ × Critical.Act (Time.Act W))}

theorem Apart.run_components (h : Apart gs)
    (hrun : Exec (step willWake gs) (KeepsEarlier willWake gs) (init W enabled) l s) :
    Exec (onComponent (Critical.step (Time.step willWake)))
      (fun c a => ∀ b ∈ a.2.work (c a.1), Time.KeepsEarlier willWake (c a.1).data b)
      ((init W enabled).cpu gs) l (s.cpu gs) := by
  induction hrun with
  | nil => exact .nil
  | snoc _ hg hs ih => exact .snoc ih hg (h.step_component hs)

/-- What holds for one CPU in every state. -/
structure Served (willWake : W → W → Bool) (gs : κ → UInt64) (enabled : κ → Bool) (s : Sys κ W)
    (i : κ) : Prop where
  safe : (s.cores i).panicked = false
  /-- Outside the calls the mask is as it was at first. -/
  mask : (s.cores i).thread = none → (s.cores i).handler = none →
    (s.cores i).enabled = enabled i
  honoured : Time.Honoured willWake (s.tables (slot gs i)).alarms.log

theorem Apart.served (h : Apart gs) (hrefl : ∀ w, willWake w w = true)
    (hrun : Exec (step willWake gs) (KeepsEarlier willWake gs) (init W enabled) l s) (i : κ) :
    Served willWake gs enabled s i := by
  obtain ⟨l', hcpu⟩ := (h.run_components hrun).component
    (H := fun c a => ∀ b ∈ a.work c, Time.KeepsEarlier willWake c.data b) (i := i)
    fun c a hg => hg
  have hinit : (init W enabled).cpu gs i = Critical.init (Time.init W) (enabled i) := rfl
  rw [hinit] at hcpu
  refine ⟨Critical.not_panicked_of_run hcpu, fun ht hh => ?_, ?_⟩
  · exact Critical.enabled_of_run hcpu (by simp [Critical.Cpu.active, Sys.cpu, ht, hh])
  · obtain ⟨bodies, hbodies⟩ := Critical.atomic_of_run
      (H := Time.KeepsEarlier willWake) (fun c a b hb hg => hg b hb) hcpu
    exact (hbodies.invariant (Time.init_inv willWake) fun hi hg hs =>
      Time.step_inv hrefl hi hg hs).honoured

/-! ### The CPUs of a boot -/

/-- `GS_BASE` of a CPU: `none` is the BSP, `some i` the AP at entry `i`. -/
def gsBase (b : Smp.State) : Option ℕ → Option UInt64
  | none => some 0
  | some i => (b.aps i).map Smp.Ap.gsBase

omit [DecidableEq κ] in
/-- The CPUs that a boot has set up have slots of their own. -/
theorem apart_of_booted {P : Smp.Params} {b : Smp.State} (hb : Smp.Inv P b)
    {entry : κ → Option ℕ} (hentry : Function.Injective entry)
    (hgs : ∀ i, gsBase b (entry i) = some (gs i)) : Apart gs := by
  have hnum := hb.numbered
  -- the slot of the BSP, and the slot of an AP
  have hbsp : ∀ i, entry i = none → slot gs i = 0 := by
    intro i hi
    have h := hgs i
    rw [hi, gsBase, Option.some.injEq] at h
    rw [slot, ← h]
    rfl
  have hap : ∀ i n, entry i = some n → ∃ ap, b.aps n = some ap ∧ slot gs i = ap.slots.alarms := by
    intro i n hi
    have h := hgs i
    rw [hi, gsBase, Option.map_eq_some_iff] at h
    obtain ⟨ap, hap, hgs'⟩ := h
    exact ⟨ap, hap, by rw [slot, ← hgs']; rfl⟩
  refine ⟨fun i => ?_, fun i j hij => ?_⟩
  · cases hi : entry i with
    | none =>
      rw [hbsp i hi]
      decide
    | some n =>
      obtain ⟨ap, hn, hslot⟩ := hap i n hi
      rw [hslot]
      exact (hnum.inRange n ap hn).2.1.2
  · cases hi : entry i with
    | none =>
      cases hj : entry j with
      | none => exact absurd (hentry (hi.trans hj.symm)) hij
      | some m =>
        obtain ⟨ap, hm, hslot⟩ := hap j m hj
        rw [hbsp i hi, hslot]
        exact (hnum.inRange m ap hm).2.1.1.ne
    | some n =>
      obtain ⟨ap, hn, hslot⟩ := hap i n hi
      cases hj : entry j with
      | none =>
        rw [hbsp j hj, hslot]
        exact (hnum.inRange n ap hn).2.1.1.ne'
      | some m =>
        obtain ⟨ap', hm, hslot'⟩ := hap j m hj
        have hnm : n ≠ m := by
          rintro rfl
          exact hij (hentry (hi.trans hj.symm))
        rw [hslot, hslot']
        exact (hnum.distinct n m ap ap' hnm hn hm).2.1

/-- **Timers on every CPU.**  Take the BSP and APs that some boot has set up, and any
interleaving of the accesses of their tasks and timer interrupts.  Then no CPU panics on a
table, each restores its mask, and the ticks of a CPU honour the deadlines that its own
tasks have set, if no task overwrites an earlier deadline of its own. -/
theorem honoured_of_booted {P : Smp.Params} {bsp : Smp.CpuLocal} {cpus : List Smp.Cpu}
    {boot : List Smp.Act} {b : Smp.State}
    (hboot : Exec (Smp.step P) (fun _ _ => True) (Smp.start bsp cpus) boot b)
    {entry : κ → Option ℕ} (hentry : Function.Injective entry)
    (hgs : ∀ i, gsBase b (entry i) = some (gs i)) (hrefl : ∀ w, willWake w w = true)
    (hrun : Exec (step willWake gs) (KeepsEarlier willWake gs) (init W enabled) l s) (i : κ) :
    Served willWake gs enabled s i :=
  (apart_of_booted (Smp.Inv.of_run hboot) hentry hgs).served hrefl hrun i

/-- The BSP and one AP. -/
def twoCpus : Bool → UInt64
  | false => 0
  | true => 1

/-- Each of two CPUs sets an alarm; the tick of the BSP comes between the first two accesses
of its task's call. -/
def twoCpusRun : List (Bool × Critical.Act (Time.Act ℕ)) :=
  [(false, .call (.scheduleWake 3 5 0)), (true, .call (.scheduleWake 2 4 0)),
    (false, .irq (.onTimerTick 2)), (false, .go), (true, .go), (false, .go), (true, .go),
    (false, .go), (true, .go), (false, .go), (false, .go), (false, .go), (false, .go),
    (true, .go), (false, .go), (false, .go), (false, .go), (true, .go),
    (true, .irq (.onTimerTick 4)), (true, .go), (true, .go), (true, .go)]

theorem honoured_bsp_and_ap : ∃ s,
    Exec (step (· == ·) twoCpus) (KeepsEarlier (· == ·) twoCpus) (init ℕ fun _ => true)
      twoCpusRun s ∧
    (s.tables 0).alarms.log.length = 2 ∧ (s.tables 1).alarms.log.length = 3 ∧
    ∀ i, Served (· == ·) twoCpus (fun _ => true) s i := by
  obtain ⟨b, hb, hap⟩ : ∃ b, Exec (Smp.step ⟨4, 2, 2000⟩) (fun _ _ => True)
      (Smp.start ⟨.bsp, 4⟩ [⟨9, 0⟩, ⟨4, 0⟩]) [.bsp, .setup 0, .bsp] b ∧
      gsBase b (some 0) = some 1 :=
    Exec.exists_of_run (by decide +kernel)
  obtain ⟨s, hs, hbsp, hlog⟩ : ∃ s,
      Exec (step (· == ·) twoCpus) (KeepsEarlier (· == ·) twoCpus) (init ℕ fun _ => true)
        twoCpusRun s ∧
      (s.tables 0).alarms.log.length = 2 ∧ (s.tables 1).alarms.log.length = 3 :=
    Exec.exists_of_run (by decide +kernel)
  have hentry : Function.Injective fun ap : Bool => if ap then some 0 else none := by
    intro i j hij
    cases i <;> cases j <;> first | rfl | exact absurd hij (by decide)
  refine ⟨s, hs, hbsp, hlog, honoured_of_booted hb hentry ?_ (fun w => beq_self_eq_true w) hs⟩
  rintro (_ | _)
  · rfl
  · exact hap

end SmpTime
