/-
The alarm slots of the APIC time driver, for one CPU.

`schedule_wake` keeps at most `MAX_ALARMS` alarms, one per waker; `on_timer_tick`
wakes and frees every slot that is due.  A call leaves an event in the log, and so
do every wake and every finished tick.

* `Honoured` — between a call and a later tick at or after its deadline there is a
  wake of its waker;
* `honoured_of_keepsEarlier` — it holds in every run in which no call finds an alarm
  of its own waker with an earlier deadline;
* `deadline_forgotten` — such a call overwrites the earlier deadline.
-/
import Embclox.Exec
import Embclox.History

open Run History

namespace Time

def maxAlarms : ℕ := 8

variable {W : Type}

structure Alarm (W : Type) where
  at_ : ℕ
  waker : Option W

/-- `will_wake` of the waker in an alarm. -/
def Alarm.isFor (willWake : W → W → Bool) (alarm : Alarm W) (w : W) : Bool :=
  alarm.waker.any fun w' => willWake w' w

/-- The loop of `schedule_wake` from slot `i` on: the slot whose alarm is for this
waker, or else the first empty slot. -/
def findSlot (willWake : W → W → Bool) (w : W) :
    List (Option (Alarm W)) → ℕ → Option ℕ → ℕ ⊕ Option ℕ
  | [], _, emptySlot => .inr emptySlot
  | some alarm :: slots, i, emptySlot =>
      if alarm.isFor willWake w then .inl i else findSlot willWake w slots (i + 1) emptySlot
  | none :: slots, i, emptySlot =>
      findSlot willWake w slots (i + 1) (if emptySlot.isNone then some i else emptySlot)

/-- `schedule_wake`: the slots it leaves and the wakers it wakes. -/
def scheduleWake (willWake : W → W → Bool) (alarms : List (Option (Alarm W))) (now at_ : ℕ)
    (w : W) : List (Option (Alarm W)) × List W :=
  if at_ ≤ now then (alarms, [w])
  else
    match findSlot willWake w alarms 0 none with
    | .inl i => (alarms.modify i (Option.map fun alarm => { alarm with at_ := at_ }), [])
    | .inr (some i) => (alarms.set i (some ⟨at_, some w⟩), [])
    -- all slots are taken: the waker is woken at once
    | .inr none => (alarms, [w])

/-- One slot of `on_timer_tick`. -/
def tickSlot (now : ℕ) : Option (Alarm W) → Option (Alarm W) × List W
  | some alarm => if alarm.at_ ≤ now then (none, alarm.waker.toList) else (some alarm, [])
  | none => (none, [])

/-- `on_timer_tick`: the slots it leaves and the wakers it wakes. -/
def onTimerTick (alarms : List (Option (Alarm W))) (now : ℕ) :
    List (Option (Alarm W)) × List W :=
  (alarms.map fun slot => (tickSlot now slot).1, alarms.flatMap fun slot => (tickSlot now slot).2)

/-! ### Runs -/

inductive Event (W : Type)
  | call (at_ : ℕ) (w : W)
  | woke (w : W)
  /-- A tick that read this time has finished. -/
  | tick (now : ℕ)

/-- The slots, the last time that was read, and what has happened so far. -/
structure Sys (W : Type) where
  alarms : List (Option (Alarm W))
  now : ℕ
  log : List (Event W)

/-- Both calls read the clock. -/
inductive Act (W : Type)
  | scheduleWake (now at_ : ℕ) (w : W)
  | onTimerTick (now : ℕ)

/-- The clock never goes back. -/
def step (willWake : W → W → Bool) (s : Sys W) : Act W → Option (Sys W)
  | .scheduleWake now at_ w =>
      if s.now ≤ now then
        let (alarms, woken) := scheduleWake willWake s.alarms now at_ w
        some ⟨alarms, now, s.log ++ .call at_ w :: woken.map .woke⟩
      else none
  | .onTimerTick now =>
      if s.now ≤ now then
        let (alarms, woken) := onTimerTick s.alarms now
        some ⟨alarms, now, s.log ++ (woken.map .woke ++ [.tick now])⟩
      else none

def init (W : Type) : Sys W := ⟨List.replicate maxAlarms none, 0, []⟩

/-- A waker for the task of `w` was woken after event `i` and before event `j`. -/
def WokenBetween (willWake : W → W → Bool) (log : List (Event W)) (i j : ℕ) (w : W) : Prop :=
  Between (fun e => ∃ w', e = .woke w' ∧ willWake w' w = true) log i j

/-- Every deadline is honoured: a tick at or after the deadline of an earlier call
finishes after a wake of that call's waker. -/
def Honoured (willWake : W → W → Bool) (log : List (Event W)) : Prop :=
  ∀ i j at_ w now, i < j → log[i]? = some (.call at_ w) → log[j]? = some (.tick now) →
    at_ ≤ now → WokenBetween willWake log i j w

/-- The step is not a call that finds an alarm of its own waker with an earlier
deadline. -/
def KeepsEarlier (willWake : W → W → Bool) (s : Sys W) : Act W → Prop
  | .scheduleWake now at_ w =>
      now < at_ → ∀ alarm, some alarm ∈ s.alarms → alarm.isFor willWake w = true →
        at_ ≤ alarm.at_
  | .onTimerTick _ => True

/-! ### What a call leaves in the slots -/

section

variable {willWake : W → W → Bool} {alarms : List (Option (Alarm W))} {now at_ : ℕ} {w : W}

/-- The slot the loop returns is one it has walked over: an alarm of the waker, or
an empty slot. -/
theorem findSlot_spec (willWake : W → W → Bool) (w : W) (slots : List (Option (Alarm W))) :
    ∀ (before : List (Option (Alarm W))) {e : Option ℕ},
      (∀ i, e = some i → before[i]? = some none) →
      (∀ i, findSlot willWake w slots before.length e = .inl i →
        ∃ alarm, (before ++ slots)[i]? = some (some alarm) ∧ alarm.isFor willWake w = true) ∧
      (∀ i, findSlot willWake w slots before.length e = .inr (some i) →
        (before ++ slots)[i]? = some none) := by
  induction slots with
  | nil =>
    intro before e he
    refine ⟨fun i h => absurd h (by simp [findSlot]), fun i h => ?_⟩
    rw [List.append_nil]
    exact he i (Sum.inr.inj h)
  | cons slot slots ih =>
    intro before e he
    -- the walked part grows by one slot
    have hgrow : before ++ slot :: slots = (before ++ [slot]) ++ slots := by simp
    have hkeep : ∀ i, e = some i → (before ++ [slot])[i]? = some none := by
      intro i hi
      have hb := he i hi
      have hlt : i < before.length := (List.getElem?_eq_some_iff.mp hb).1
      rw [List.getElem?_append_left hlt, hb]
    rw [hgrow]
    cases slot with
    | some alarm =>
      by_cases hw : alarm.isFor willWake w = true
      · simp only [findSlot, if_pos hw]
        refine ⟨fun i h => ⟨alarm, ?_, hw⟩, fun i h => absurd h (by simp)⟩
        obtain rfl := Sum.inl.inj h
        simp
      · simp only [findSlot, if_neg hw]
        have := ih (before ++ [some alarm]) hkeep
        rwa [List.length_append, List.length_singleton] at this
    | none =>
      simp only [findSlot]
      have hnew : ∀ i, (if e.isNone then some before.length else e) = some i →
          (before ++ [none])[i]? = some none := by
        intro i hi
        cases e with
        | none =>
          obtain rfl := Option.some_inj.mp hi
          simp
        | some j => exact hkeep i hi
      have := ih (before ++ [none]) hnew
      rwa [List.length_append, List.length_singleton] at this

/-- Some slot wakes the task of `w` at `at_` or earlier. -/
def Covered (willWake : W → W → Bool) (alarms : List (Option (Alarm W))) (at_ : ℕ) (w : W) :
    Prop :=
  ∃ alarm, some alarm ∈ alarms ∧ alarm.at_ ≤ at_ ∧ alarm.isFor willWake w = true

theorem Covered.modify {i at' : ℕ} {alarm : Alarm W} {w' : W}
    (hi : alarms[i]? = some (some alarm)) (hle : at' ≤ alarm.at_)
    (h : Covered willWake alarms at_ w') :
    Covered willWake (alarms.modify i (Option.map fun a => { a with at_ := at' })) at_ w' := by
  obtain ⟨a, ha, hat, hfor⟩ := h
  obtain ⟨j, hj⟩ := List.mem_iff_getElem?.mp ha
  by_cases hij : i = j
  · -- the covering alarm is the one that moves, to an earlier time
    subst hij
    obtain rfl : alarm = a := by simpa [hi] using hj
    refine ⟨{ alarm with at_ := at' }, List.mem_iff_getElem?.mpr ⟨i, ?_⟩, hle.trans hat, hfor⟩
    simp [hi]
  · refine ⟨a, List.mem_iff_getElem?.mpr ⟨j, ?_⟩, hat, hfor⟩
    simp [hij, hj]

theorem Covered.set {i : ℕ} {alarm : Alarm W} {w' : W} (hi : alarms[i]? = some none)
    (h : Covered willWake alarms at_ w') :
    Covered willWake (alarms.set i (some alarm)) at_ w' := by
  obtain ⟨a, ha, hat, hfor⟩ := h
  obtain ⟨j, hj⟩ := List.mem_iff_getElem?.mp ha
  have hij : i ≠ j := by
    rintro rfl
    exact absurd (hi.symm.trans hj) (by simp)
  exact ⟨a, List.mem_iff_getElem?.mpr ⟨j, by rw [List.getElem?_set_ne hij, hj]⟩, hat, hfor⟩

/-- A call that overwrites no earlier deadline keeps every deadline covered, and
its own is covered or its waker was woken. -/
theorem scheduleWake_covered (hrefl : ∀ w, willWake w w = true)
    (hkeep : now < at_ → ∀ alarm, some alarm ∈ alarms → alarm.isFor willWake w = true →
      at_ ≤ alarm.at_) :
    (∀ at' w', Covered willWake alarms at' w' →
      Covered willWake (scheduleWake willWake alarms now at_ w).1 at' w') ∧
    (w ∈ (scheduleWake willWake alarms now at_ w).2 ∨
      Covered willWake (scheduleWake willWake alarms now at_ w).1 at_ w) := by
  rw [scheduleWake]
  by_cases hexp : at_ ≤ now
  · rw [if_pos hexp]
    exact ⟨fun _ _ h => h, .inl (by simp)⟩
  · rw [if_neg hexp]
    obtain ⟨hfound, hempty⟩ :=
      findSlot_spec willWake w alarms [] (e := none) (by simp)
    simp only [List.length_nil, List.nil_append] at hfound hempty
    cases hf : findSlot willWake w alarms 0 none with
    | inl i =>
      obtain ⟨alarm, hi, hfor⟩ := hfound i hf
      have hle := hkeep (by omega) alarm (List.mem_of_getElem? hi) hfor
      refine ⟨fun _ _ h => h.modify hi hle, .inr ⟨{ alarm with at_ := at_ }, ?_, le_rfl, hfor⟩⟩
      exact List.mem_iff_getElem?.mpr ⟨i, by simp [hi]⟩
    | inr e =>
      cases e with
      | some i =>
        have hi := hempty i hf
        have hlt : i < alarms.length := (List.getElem?_eq_some_iff.mp hi).1
        refine ⟨fun _ _ h => h.set hi, .inr ⟨⟨at_, some w⟩, ?_, le_rfl, hrefl w⟩⟩
        exact List.mem_iff_getElem?.mpr ⟨i, List.getElem?_set_self hlt⟩
      | none => exact ⟨fun _ _ h => h, .inl (by simp)⟩

/-- A tick wakes what is due and keeps the rest. -/
theorem onTimerTick_covered {w' : W} (now : ℕ) (h : Covered willWake alarms at_ w') :
    (∃ w'' ∈ (onTimerTick alarms now).2, willWake w'' w' = true) ∨
      now < at_ ∧ Covered willWake (onTimerTick alarms now).1 at_ w' := by
  obtain ⟨alarm, ha, hat, hfor⟩ := h
  by_cases hdue : alarm.at_ ≤ now
  · obtain ⟨w'', hw, hwake⟩ := (Option.any_eq_true _ _).mp hfor
    refine .inl ⟨w'', List.mem_flatMap.mpr ⟨some alarm, ha, ?_⟩, hwake⟩
    simp [tickSlot, hdue, hw]
  · refine .inr ⟨by omega, alarm, List.mem_map.mpr ⟨some alarm, ha, ?_⟩, hat, hfor⟩
    simp [tickSlot, hdue]

/-! ### What the log shows -/

variable {log new : List (Event W)}

/-- New events without a tick owe nothing yet. -/
theorem Honoured.append (h : Honoured willWake log) (hnew : ∀ n, .tick n ∉ new) :
    Honoured willWake (log ++ new) := by
  intro i j at_ w n hij hcall htick hle
  replace htick := getElem?_of_append htick (hnew n)
  have hj : j < log.length := (List.getElem?_eq_some_iff.mp htick).1
  rw [List.getElem?_append_left (by omega)] at hcall
  exact (h i j at_ w n hij hcall htick hle).append

/-- A tick keeps the promise if every call that is due was served before it. -/
theorem Honoured.tick (h : Honoured willWake log)
    (hserved : ∀ i at_ w, log[i]? = some (.call at_ w) → at_ ≤ now →
      WokenBetween willWake log i log.length w) :
    Honoured willWake (log ++ [.tick now]) := by
  intro i j at_ w n hij hcall htick hle
  have hjle : j ≤ log.length := by
    have := (List.getElem?_eq_some_iff.mp htick).1
    simp only [List.length_append, List.length_singleton] at this
    omega
  rw [List.getElem?_append_left (by omega)] at hcall
  by_cases hj : j < log.length
  · rw [List.getElem?_append_left hj] at htick
    exact (h i j at_ w n hij hcall htick hle).append
  · obtain rfl : j = log.length := by omega
    obtain rfl : now = n := by simpa using htick
    exact (hserved i at_ w hcall hle).append

end

/-! ### The invariant -/

/-- Every call so far was served, or some slot still covers its deadline. -/
structure Inv (willWake : W → W → Bool) (s : Sys W) : Prop where
  honoured : Honoured willWake s.log
  owed : ∀ i at_ w, s.log[i]? = some (.call at_ w) →
    WokenBetween willWake s.log i s.log.length w ∨ Covered willWake s.alarms at_ w

theorem init_inv (willWake : W → W → Bool) : Inv willWake (init W) :=
  ⟨fun i j at_ w now _ h => absurd h (by simp [init]), fun i at_ w h => absurd h (by simp [init])⟩

variable {willWake : W → W → Bool}

theorem scheduleWake_inv {s : Sys W} {now at_ : ℕ} {w : W} (hrefl : ∀ w, willWake w w = true)
    (hi : Inv willWake s) (hkeep : KeepsEarlier willWake s (.scheduleWake now at_ w)) :
    Inv willWake ⟨(scheduleWake willWake s.alarms now at_ w).1, now,
      s.log ++ .call at_ w :: (scheduleWake willWake s.alarms now at_ w).2.map .woke⟩ := by
  obtain ⟨hold, hown⟩ := scheduleWake_covered hrefl hkeep
  generalize scheduleWake willWake s.alarms now at_ w = r at hold hown
  refine ⟨hi.honoured.append (by simp), fun i at' w' hcall => ?_⟩
  by_cases hlt : i < s.log.length
  · rw [List.getElem?_append_left hlt] at hcall
    rcases hi.owed i at' w' hcall with h | h
    · exact .inl h.extend
    · exact .inr (hold at' w' h)
  · -- the only new call is the one just made
    have hsplit : s.log ++ .call at_ w :: r.2.map Event.woke =
        (s.log ++ [.call at_ w]) ++ r.2.map Event.woke := by simp
    have hhead : i = s.log.length ∧ at_ = at' ∧ w = w' := by
      rw [List.getElem?_append_right (by omega)] at hcall
      rcases hn : i - s.log.length with _ | n
      · rw [hn] at hcall
        simp only [List.getElem?_cons_zero, Option.some.injEq, Event.call.injEq] at hcall
        exact ⟨by omega, hcall⟩
      · rw [hn, List.getElem?_cons_succ] at hcall
        exact absurd (List.mem_of_getElem? hcall) (by simp)
    obtain ⟨rfl, rfl, rfl⟩ := hhead
    rcases hown with hw | hw
    · left
      simp only [hsplit]
      exact between_of_mem (by simp) (List.mem_map_of_mem hw) ⟨w, rfl, hrefl w⟩
    · exact .inr hw

theorem onTimerTick_inv {s : Sys W} {now : ℕ} (hi : Inv willWake s) :
    Inv willWake ⟨(onTimerTick s.alarms now).1, now,
      s.log ++ ((onTimerTick s.alarms now).2.map .woke ++ [.tick now])⟩ := by
  -- what is owed after the wakes of this tick, and before it is logged
  have hmid : ∀ i at_ w, (s.log ++ (onTimerTick s.alarms now).2.map Event.woke)[i]? =
        some (.call at_ w) →
      WokenBetween willWake (s.log ++ (onTimerTick s.alarms now).2.map Event.woke) i
          (s.log ++ (onTimerTick s.alarms now).2.map Event.woke).length w ∨
        now < at_ ∧ Covered willWake (onTimerTick s.alarms now).1 at_ w := by
    intro i at_ w hcall
    replace hcall := getElem?_of_append hcall (by simp)
    have hlt : i < s.log.length := (List.getElem?_eq_some_iff.mp hcall).1
    rcases hi.owed i at_ w hcall with h | h
    · exact .inl h.extend
    · rcases onTimerTick_covered now h with ⟨w', hw', hwake⟩ | h
      · exact .inl (between_of_mem hlt (List.mem_map_of_mem hw') ⟨w', rfl, hwake⟩)
      · exact .inr h
  have hlog : Honoured willWake (s.log ++ (onTimerTick s.alarms now).2.map Event.woke) :=
    hi.honoured.append (by simp)
  generalize onTimerTick s.alarms now = r at hmid hlog
  rw [← List.append_assoc]
  refine ⟨hlog.tick fun i at_ w hcall hle => ?_, fun i at_ w hcall => ?_⟩
  · rcases hmid i at_ w hcall with h | ⟨hlt, -⟩
    · exact h
    · omega
  · rcases hmid i at_ w (getElem?_of_append hcall (by simp)) with h | ⟨-, h⟩
    · exact .inl h.extend
    · exact .inr h

theorem step_inv {s u : Sys W} {a : Act W} (hrefl : ∀ w, willWake w w = true)
    (hi : Inv willWake s) (hkeep : KeepsEarlier willWake s a) (h : step willWake s a = some u) :
    Inv willWake u := by
  cases a with
  | scheduleWake now at_ w =>
    by_cases hnow : s.now ≤ now
    · simp only [step, if_pos hnow, Option.some.injEq] at h
      obtain rfl := h
      exact scheduleWake_inv hrefl hi hkeep
    · simp [step, if_neg hnow] at h
  | onTimerTick now =>
    by_cases hnow : s.now ≤ now
    · simp only [step, if_pos hnow, Option.some.injEq] at h
      obtain rfl := h
      exact onTimerTick_inv hi
    · simp [step, if_neg hnow] at h

/-! ### Deadlines along a run -/

/-- **Deadlines are honoured in every run that forgets none.**  If no call finds an
alarm of its own waker with an earlier deadline, then every later tick at or after
the deadline of a call finishes after a wake of that call's waker. -/
theorem honoured_of_keepsEarlier (hrefl : ∀ w, willWake w w = true) {l : List (Act W)}
    {s : Sys W} (h : Exec (step willWake) (KeepsEarlier willWake) (init W) l s) :
    Honoured willWake s.log :=
  (h.invariant (init_inv willWake) fun hi hg hs => step_inv hrefl hi hg hs).honoured

instance (s : Sys W) (a : Act W) : Decidable (KeepsEarlier willWake s a) := by
  cases a with
  | onTimerTick now => exact .isTrue trivial
  | scheduleWake now at_ w =>
    refine decidable_of_iff (now < at_ → ∀ slot ∈ s.alarms, ∀ alarm ∈ slot,
      alarm.isFor willWake w = true → at_ ≤ alarm.at_) ?_
    refine forall_congr' fun _ => ⟨fun h alarm ha => h _ ha alarm rfl, ?_⟩
    rintro h slot hslot alarm rfl
    exact h alarm hslot

/-- Two tasks, three calls and two ticks; the second call of task 0 moves its alarm
to an earlier time. -/
theorem honoured_of_keepsEarlier_two_tasks :
    ∃ s, Exec (step (· == ·)) (KeepsEarlier (· == ·)) (init ℕ)
        [.scheduleWake 0 9 0, .scheduleWake 1 5 1, .scheduleWake 2 4 0, .onTimerTick 4,
          .onTimerTick 6] s ∧
      s.log.length = 7 ∧ Honoured (· == ·) s.log := by
  obtain ⟨s, hs, hlen⟩ : ∃ s, Exec (step (· == ·)) (KeepsEarlier (· == ·)) (init ℕ)
      [.scheduleWake 0 9 0, .scheduleWake 1 5 1, .scheduleWake 2 4 0, .onTimerTick 4,
        .onTimerTick 6] s ∧ s.log.length = 7 :=
    Exec.exists_of_run (by decide +kernel)
  exact ⟨s, hs, hlen, honoured_of_keepsEarlier (fun w => beq_self_eq_true w) hs⟩

/-- A task with two deadlines: the call for time 20 overwrites the alarm at time
10, and the tick at time 10 wakes nobody. -/
theorem deadline_forgotten :
    ∃ s, Exec (step (· == ·)) (fun _ _ => True) (init ℕ)
        [.scheduleWake 0 10 0, .scheduleWake 0 20 0, .onTimerTick 10] s ∧
      ¬ Honoured (· == ·) s.log := by
  refine ⟨⟨_, 10, [.call 10 0, .call 20 0, .tick 10]⟩,
    Exec.of_run rfl, fun h => ?_⟩
  obtain ⟨k, e, hk0, hk2, hke, w, rfl, -⟩ := h 0 2 10 0 10 (by decide) rfl rfl le_rfl
  obtain rfl : k = 1 := by omega
  exact absurd hke (by simp)

end Time
