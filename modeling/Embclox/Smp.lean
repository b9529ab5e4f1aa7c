/-
Numbering of the application processors.

`bring_up_aps` walks over the CPU list of the bootloader, writes a number into `extra`
of each entry that is not the BSP and releases that CPU, until the cap is reached.  The
released CPUs run at the same time: each reads its number back, claims its slot of
`CPU_LOCALS` and its executor, and then ticks its counter and its alarm table.

* `bringUpAps` — the loop; `finish_step` says that it is what the steps of the BSP
  compute, whatever the APs do meanwhile;
* `Numbered` — at most `min max_aps (MAX_CPUS - 1)` CPUs are released, never the BSP, the
  `k`-th with number `k`; no CPU panics, and the slots are in range and distinct;
* `numbered_of_run` — `Numbered` holds in every state of every run;
* `cpus_le_of_token` — with `cpus=n` on the command line no more than `n` CPUs run.
-/
import Embclox.Cmdline
import Embclox.Exec
import Embclox.History
import Embclox.Probe

open Run Boot Cmdline

namespace Smp

def maxCpus : ℕ := 8

/-- An entry of the list in the MP response. -/
structure Cpu where
  lapicId : UInt32
  extra : UInt64

structure CpuLocal where
  cpuId : CpuId
  apicId : UInt8

structure ApInit where
  cpuId : CpuId
  apicId : UInt8
  tscPerUs : UInt64

def apInitFrom (tscPerUs : UInt64) (cpu : Cpu) : ApInit :=
  ⟨.ap cpu.extra.toUInt8, cpu.lapicId.toUInt8, tscPerUs⟩

/-! ### `bring_up_aps` -/

/-- Hand an entry its number. -/
def Cpu.assign (cpu : Cpu) (started : ℕ) : Cpu :=
  { cpu with extra := (UInt8.ofNat (started + 1)).toUInt64 }

/-- The loop over the entries that are left. -/
def bringUpFrom (bspLapicId : UInt32) (cap : ℕ) : List Cpu → ℕ → List Cpu × ℕ
  | [], started => ([], started)
  | cpu :: cpus, started =>
      if cap ≤ started then (cpu :: cpus, started)
      else if cpu.lapicId = bspLapicId then
        let (cpus, n) := bringUpFrom bspLapicId cap cpus started
        (cpu :: cpus, n)
      else
        let (cpus, n) := bringUpFrom bspLapicId cap cpus (started + 1)
        (cpu.assign started :: cpus, n)

/-- `bring_up_aps`: the entries it leaves and the number of CPUs it has started. -/
def bringUpAps (bspLapicId : UInt32) (maxAps : ℕ) (cpus : List Cpu) : List Cpu × ℕ :=
  bringUpFrom bspLapicId (min maxAps (maxCpus - 1)) cpus 0

/-! ### The side of an AP -/

inductive Panic
  | assertion (msg : String)
  | indexOutOfBounds
  /-- A `StaticCell` that has a value already. -/
  | alreadyInit

def slotOf : CpuId → ℕ
  | .bsp => 0
  | .ap n => n.toNat

def cpuIdOf (processorId : UInt8) : CpuId := if processorId = 0 then .bsp else .ap processorId

/-- `current_cpu_id`, from the value of `GS_BASE`. -/
def currentCpuId (gsBase : UInt64) : CpuId := cpuIdOf gsBase.toUInt8

def byId (cpuLocals : ℕ → Option CpuLocal) (cpu : CpuId) : Option CpuLocal :=
  if slotOf cpu < maxCpus then cpuLocals (slotOf cpu) else none

/-- `CPU_LOCALS` after `init_ap`; a slot is set once. -/
def initAp (cpuLocals : ℕ → Option CpuLocal) (processorId apicId : UInt8) :
    Except Panic (ℕ → Option CpuLocal) :=
  if processorId = 0 then .error (.assertion "AP processor_id 0 is reserved for BSP")
  else if maxCpus ≤ processorId.toNat then
    .error (.assertion s!"AP processor_id {processorId.toNat} exceeds MAX_CPUS")
  else
    .ok (Function.update cpuLocals processorId.toNat
      (some ((cpuLocals processorId.toNat).getD ⟨.ap processorId, apicId⟩)))

/-- An AP that has been set up: its number, its `GS_BASE`, and whether its task runs. -/
structure Ap where
  processorId : UInt8
  gsBase : UInt64
  running : Bool

/-- What the CPUs share. -/
structure Tables where
  cpuLocals : ℕ → Option CpuLocal
  apExecutors : ℕ → Bool
  apCounters : ℕ → ℕ

def apSetup (init : ApInit) (t : Tables) : Except Panic (Tables × Ap) :=
  match init.cpuId with
  | .bsp => .error (.assertion "ap_setup called with CpuId::Bsp")
  | .ap processorId => do
      let cpuLocals ← initAp t.cpuLocals processorId init.apicId
      pure ({ t with cpuLocals }, ⟨processorId, processorId.toUInt64, false⟩)

/-- The rest of `ap_entry`: the AP takes its executor and spawns its task. -/
def apSpawn (ap : Ap) (t : Tables) : Except Panic (Tables × Ap) :=
  let slot := (ap.processorId - 1).toNat
  if maxCpus - 1 ≤ slot then .error .indexOutOfBounds
  else if t.apExecutors slot then .error .alreadyInit
  else
    .ok ({ t with apExecutors := Function.update t.apExecutors slot true },
      { ap with running := true })

/-- One round of `ap_heartbeat_task`: the counter, and the timer, which is set in the
alarm table of the current CPU. -/
def apHeartbeatTask (ap : Ap) (t : Tables) : Except Panic Tables :=
  if maxCpus ≤ ap.processorId.toNat then .error .indexOutOfBounds
  else if maxCpus ≤ slotOf (currentCpuId ap.gsBase) then .error .indexOutOfBounds
  else
    .ok { t with
      apCounters := Function.update t.apCounters ap.processorId.toNat
        (t.apCounters ap.processorId.toNat + 1) }

/-! ### Runs of all CPUs -/

/-- The parameters of the boot. -/
structure Params where
  bspLapicId : UInt32
  maxAps : ℕ
  tscPerUs : UInt64

def Params.cap (P : Params) : ℕ := min P.maxAps (maxCpus - 1)

/-- The loop of the BSP at entry `idx`, the entries whose `goto_address` was written, in
order, and the APs that are in their executors. -/
structure State where
  cpus : List Cpu
  idx : ℕ
  started : ℕ
  released : List ℕ
  aps : ℕ → Option Ap
  tables : Tables

inductive Act
  /-- The next round of the loop of `bring_up_aps`. -/
  | bsp
  /-- The released CPU at this entry runs `ap_setup`. -/
  | setup (i : ℕ)
  /-- The AP at this entry starts its executor. -/
  | spawn (i : ℕ)
  /-- A round of the task of the AP at this entry. -/
  | beat (i : ℕ)

/-- The BSP looks at an entry. -/
def bspStep (P : Params) (s : State) (cpu : Cpu) : State :=
  if cpu.lapicId = P.bspLapicId then { s with idx := s.idx + 1 }
  else
    { s with
      cpus := s.cpus.set s.idx (cpu.assign s.started)
      idx := s.idx + 1
      started := s.started + 1
      released := s.released ++ [s.idx] }

def step (P : Params) (s : State) : Act → Option State
  | .bsp =>
      if P.cap ≤ s.started then none
      else s.cpus[s.idx]?.map (bspStep P s)
  | .setup i =>
      if i ∈ s.released ∧ (s.aps i).isNone then do
        let cpu ← s.cpus[i]?
        let (tables, ap) ← (apSetup (apInitFrom P.tscPerUs cpu) s.tables).toOption
        some { s with tables, aps := Function.update s.aps i (some ap) }
      else none
  | .spawn i => do
      let ap ← s.aps i
      if ap.running then none
      else
        let (tables, ap) ← (apSpawn ap s.tables).toOption
        some { s with tables, aps := Function.update s.aps i (some ap) }
  | .beat i => do
      let ap ← s.aps i
      if ap.running then
        let tables ← (apHeartbeatTask ap s.tables).toOption
        some { s with tables }
      else none

/-- The BSP has its slot; no AP runs. -/
def start (bsp : CpuLocal) (cpus : List Cpu) : State :=
  ⟨cpus, 0, 0, [], fun _ => none,
    ⟨fun slot => if slot = 0 then some bsp else none, fun _ => false, fun _ => 0⟩⟩

/-! ### What holds in every state -/

/-- The slots of an AP: `CPU_LOCALS`, the alarm table, `AP_COUNTERS` and
`AP_EXECUTORS`. -/
structure Slots where
  cpuLocal : ℕ
  alarms : ℕ
  counter : ℕ
  executor : ℕ

def Ap.slots (ap : Ap) : Slots :=
  ⟨ap.processorId.toNat, slotOf (currentCpuId ap.gsBase), ap.processorId.toNat,
    (ap.processorId - 1).toNat⟩

/-- The tables differ in no other slot. -/
structure Tables.SameOutside (slots : Slots) (t u : Tables) : Prop where
  cpuLocals : ∀ n ≠ slots.cpuLocal, u.cpuLocals n = t.cpuLocals n
  apExecutors : ∀ n ≠ slots.executor, u.apExecutors n = t.apExecutors n
  apCounters : ∀ n ≠ slots.counter, u.apCounters n = t.apCounters n

/-- Entry `i` is the `k`-th released one, counted from 0: it is not the BSP, and its
number is `k + 1`. -/
structure Kth (P : Params) (cpus : List Cpu) (released : List ℕ) (k i : ℕ) (cpu : Cpu) :
    Prop where
  released : released[k]? = some i
  entry : cpus[i]? = some cpu
  notBsp : cpu.lapicId ≠ P.bspLapicId
  extra : cpu.extra = UInt64.ofNat (k + 1)

structure Numbered (P : Params) (s : State) : Prop where
  atMost : s.released.length ≤ min P.maxAps (maxCpus - 1)
  once : s.released.Nodup
  number : ∀ (k i : ℕ), s.released[k]? = some i → ∃ cpu, Kth P s.cpus s.released k i cpu
  /-- What `ap_init_from` reads back. -/
  readBack : ∀ (k i : ℕ) cpu, Kth P s.cpus s.released k i cpu →
    (apInitFrom P.tscPerUs cpu).cpuId = .ap (UInt8.ofNat (k + 1)) ∧ k + 1 < maxCpus
  /-- No AP panics, whatever it does next. -/
  setup : ∀ i ∈ s.released, s.aps i = none → ∃ u, step P s (.setup i) = some u
  spawn : ∀ i ap, s.aps i = some ap → ap.running = false → ∃ u, step P s (.spawn i) = some u
  beat : ∀ i ap, s.aps i = some ap → ap.running = true → ∃ u, step P s (.beat i) = some u
  /-- The slots of an AP are in range, and not those of the BSP. -/
  inRange : ∀ i ap, s.aps i = some ap →
    (0 < ap.slots.cpuLocal ∧ ap.slots.cpuLocal < maxCpus) ∧
    (0 < ap.slots.alarms ∧ ap.slots.alarms < maxCpus) ∧
    (0 < ap.slots.counter ∧ ap.slots.counter < maxCpus) ∧ ap.slots.executor < maxCpus - 1
  /-- Different APs have different slots. -/
  distinct : ∀ i j ap ap', i ≠ j → s.aps i = some ap → s.aps j = some ap' →
    ap.slots.cpuLocal ≠ ap'.slots.cpuLocal ∧ ap.slots.alarms ≠ ap'.slots.alarms ∧
    ap.slots.counter ≠ ap'.slots.counter ∧ ap.slots.executor ≠ ap'.slots.executor
  /-- Whatever an AP does changes its own slots only, and a round of its task nothing but
  its counter. -/
  ownSlots : ∀ i ap a u, a = .setup i ∨ a = .spawn i ∨ a = .beat i → step P s a = some u →
    u.aps i = some ap → s.tables.SameOutside ap.slots u.tables
  counts : ∀ i ap tables, s.aps i = some ap → apHeartbeatTask ap s.tables = .ok tables →
    tables = { s.tables with
      apCounters := Function.update s.tables.apCounters ap.slots.counter
        (s.tables.apCounters ap.slots.counter + 1) }
  /-- An AP finds itself in `CPU_LOCALS`. -/
  own : ∀ i ap cpu, s.aps i = some ap → s.cpus[i]? = some cpu →
    byId s.tables.cpuLocals (currentCpuId ap.gsBase) =
      some ⟨.ap ap.processorId, cpu.lapicId.toUInt8⟩

/-! ### Numbers -/

variable {P : Params} {s u : State} {t : Tables} {k i : ℕ} {cpu : Cpu}

theorem toUInt64_ofNat (hk : k + 1 < maxCpus) :
    (UInt8.ofNat (k + 1)).toUInt64 = UInt64.ofNat (k + 1) := by
  have hk' : k + 1 < 8 := hk
  apply UInt64.toNat_inj.mp
  simp only [UInt8.toNat_toUInt64, UInt8.toNat_ofNat', UInt64.toNat_ofNat']
  omega

theorem toUInt8_ofNat (n : ℕ) : (UInt64.ofNat n).toUInt8 = UInt8.ofNat n := by
  apply UInt8.toNat_inj.mp
  simp only [UInt64.toNat_toUInt8, UInt64.toNat_ofNat', UInt8.toNat_ofNat']
  omega

theorem toNat_number (hk : k + 1 < maxCpus) : (UInt8.ofNat (k + 1)).toNat = k + 1 := by
  have hk' : k + 1 < 8 := hk
  rw [UInt8.toNat_ofNat']
  omega

theorem number_ne_zero (hk : k + 1 < maxCpus) : UInt8.ofNat (k + 1) ≠ 0 := by
  intro h
  have := toNat_number hk
  rw [h] at this
  simp at this

theorem toNat_number_sub_one (hk : k + 1 < maxCpus) :
    (UInt8.ofNat (k + 1) - 1).toNat = k := by
  have hk' : k + 1 < 8 := hk
  have hle : (1 : UInt8) ≤ UInt8.ofNat (k + 1) := by
    rw [UInt8.le_iff_toNat_le, toNat_number hk]
    simp
  rw [UInt8.toNat_sub_of_le _ _ hle, toNat_number hk]
  simp

theorem slotOf_number (hk : k + 1 < maxCpus) :
    slotOf (currentCpuId (UInt64.ofNat (k + 1))) = k + 1 := by
  rw [currentCpuId, toUInt8_ofNat, cpuIdOf, if_neg (number_ne_zero hk)]
  exact toNat_number hk

/-- The AP with number `k + 1`. -/
def numbered (k : ℕ) (running : Bool) : Ap :=
  ⟨UInt8.ofNat (k + 1), UInt64.ofNat (k + 1), running⟩

theorem slots_numbered {running : Bool} (hk : k + 1 < maxCpus) :
    (numbered k running).slots = ⟨k + 1, k + 1, k + 1, k⟩ := by
  simp only [numbered, Ap.slots, toNat_number hk, slotOf_number hk, toNat_number_sub_one hk]

/-! ### What an AP does with its number -/

theorem apSetup_numbered (hk : k + 1 < maxCpus) (hextra : cpu.extra = UInt64.ofNat (k + 1))
    (hfree : t.cpuLocals (k + 1) = none) :
    apSetup (apInitFrom P.tscPerUs cpu) t =
      .ok ({ t with
        cpuLocals := Function.update t.cpuLocals (k + 1)
          (some ⟨.ap (UInt8.ofNat (k + 1)), cpu.lapicId.toUInt8⟩) }, numbered k false) := by
  have hinit : initAp t.cpuLocals (UInt8.ofNat (k + 1)) cpu.lapicId.toUInt8 =
      .ok (Function.update t.cpuLocals (k + 1)
        (some ⟨.ap (UInt8.ofNat (k + 1)), cpu.lapicId.toUInt8⟩)) := by
    rw [initAp, if_neg (number_ne_zero hk), toNat_number hk, if_neg (by omega), hfree]
    rfl
  simp only [apSetup, apInitFrom, hextra, toUInt8_ofNat, hinit, numbered, toUInt64_ofNat hk]
  rfl

theorem apSpawn_numbered {running : Bool} (hk : k + 1 < maxCpus)
    (hfree : t.apExecutors k = false) :
    apSpawn (numbered k running) t =
      .ok ({ t with apExecutors := Function.update t.apExecutors k true }, numbered k true) := by
  have hk' : k + 1 < 8 := hk
  simp only [apSpawn, numbered, toNat_number_sub_one hk]
  rw [if_neg (by unfold maxCpus; omega), if_neg (by simp [hfree])]

theorem apHeartbeatTask_numbered {running : Bool} (hk : k + 1 < maxCpus) :
    apHeartbeatTask (numbered k running) t =
      .ok { t with
        apCounters := Function.update t.apCounters (k + 1) (t.apCounters (k + 1) + 1) } := by
  simp only [apHeartbeatTask, numbered, toNat_number hk, slotOf_number hk]
  rw [if_neg (by omega), if_neg (by omega)]

/-! ### The steps -/

theorem ok_of_toOption {α : Type} {x : Except Panic α} {a : α} (h : x.toOption = some a) :
    x = .ok a := by
  cases x with
  | error e => cases h
  | ok r => rw [Option.some_inj.mp h]

/-- What the BSP does with an entry that is not its own. -/
theorem step_bsp (h : step P s .bsp = some u) : s.started < P.cap ∧ ∃ cpu,
    s.cpus[s.idx]? = some cpu ∧ u = bspStep P s cpu := by
  simp only [step] at h
  split at h
  · cases h
  · next hcap =>
    obtain ⟨cpu, hcpu, rfl⟩ := Option.map_eq_some_iff.mp h
    exact ⟨by omega, cpu, hcpu, rfl⟩

theorem step_setup (h : step P s (.setup i) = some u) : i ∈ s.released ∧ s.aps i = none ∧
    ∃ cpu tables ap, s.cpus[i]? = some cpu ∧
      apSetup (apInitFrom P.tscPerUs cpu) s.tables = .ok (tables, ap) ∧
      u = { s with tables, aps := Function.update s.aps i (some ap) } := by
  simp only [step] at h
  split at h
  · next hi =>
    obtain ⟨cpu, hcpu, h⟩ := Option.bind_eq_some_iff.mp h
    obtain ⟨⟨tables, ap⟩, hset, h⟩ := Option.bind_eq_some_iff.mp h
    exact ⟨hi.1, Option.isNone_iff_eq_none.mp hi.2, cpu, tables, ap, hcpu,
      ok_of_toOption hset, (Option.some_inj.mp h).symm⟩
  · cases h

theorem step_spawn (h : step P s (.spawn i) = some u) : ∃ ap tables ap',
    s.aps i = some ap ∧ ap.running = false ∧ apSpawn ap s.tables = .ok (tables, ap') ∧
      u = { s with tables, aps := Function.update s.aps i (some ap') } := by
  obtain ⟨ap, hap, h⟩ := Option.bind_eq_some_iff.mp h
  split at h
  · cases h
  · next hrun =>
    obtain ⟨⟨tables, ap'⟩, hset, h⟩ := Option.bind_eq_some_iff.mp h
    exact ⟨ap, tables, ap', hap, by simpa using hrun, ok_of_toOption hset,
      (Option.some_inj.mp h).symm⟩

theorem step_beat (h : step P s (.beat i) = some u) : ∃ ap tables,
    s.aps i = some ap ∧ apHeartbeatTask ap s.tables = .ok tables ∧ u = { s with tables } := by
  obtain ⟨ap, hap, h⟩ := Option.bind_eq_some_iff.mp h
  split at h
  · obtain ⟨tables, hset, h⟩ := Option.bind_eq_some_iff.mp h
    exact ⟨ap, tables, hap, ok_of_toOption hset, (Option.some_inj.mp h).symm⟩
  · cases h

/-! ### The slots that a step writes -/

theorem apSetup_ok {init : ApInit} {t' : Tables} {ap : Ap} (h : apSetup init t = .ok (t', ap)) :
    t.SameOutside ap.slots t' := by
  unfold apSetup at h
  split at h
  · cases h
  · rename_i processorId _
    unfold initAp at h
    split_ifs at h
    · cases h
    · cases h
    · obtain ⟨rfl, rfl⟩ := Prod.mk.inj (Except.ok.inj h)
      exact ⟨fun n hn => Function.update_of_ne hn _ _, fun _ _ => rfl, fun _ _ => rfl⟩

/-- The AP keeps its number. -/
theorem apSpawn_ok {t' : Tables} {ap ap' : Ap} (h : apSpawn ap t = .ok (t', ap')) :
    t.SameOutside ap'.slots t' := by
  unfold apSpawn at h
  dsimp only at h
  split_ifs at h
  obtain ⟨rfl, rfl⟩ := Prod.mk.inj (Except.ok.inj h)
  exact ⟨fun _ _ => rfl, fun n hn => Function.update_of_ne hn _ _, fun _ _ => rfl⟩

theorem apHeartbeatTask_ok {t' : Tables} {ap : Ap} (h : apHeartbeatTask ap t = .ok t') :
    t' = { t with
      apCounters := Function.update t.apCounters ap.slots.counter
        (t.apCounters ap.slots.counter + 1) } := by
  unfold apHeartbeatTask at h
  split_ifs at h
  exact (Except.ok.inj h).symm

theorem sameOutside_of_step {a : Act} {ap : Ap} (ha : a = .setup i ∨ a = .spawn i ∨ a = .beat i)
    (h : step P s a = some u) (hap : u.aps i = some ap) :
    s.tables.SameOutside ap.slots u.tables := by
  rcases ha with rfl | rfl | rfl
  · obtain ⟨-, -, cpu, tables, ap', -, hset, rfl⟩ := step_setup h
    obtain rfl : ap' = ap := by simpa using hap
    exact apSetup_ok hset
  · obtain ⟨ap₀, tables, ap', -, -, hset, rfl⟩ := step_spawn h
    obtain rfl : ap' = ap := by simpa using hap
    exact apSpawn_ok hset
  · obtain ⟨ap', tables, hap', hset, rfl⟩ := step_beat h
    obtain rfl : ap' = ap := Option.some_inj.mp (hap'.symm.trans hap)
    rw [apHeartbeatTask_ok hset]
    exact ⟨fun _ _ => rfl, fun _ _ => rfl, fun n hn => Function.update_of_ne hn _ _⟩

/-! ### The invariant -/

structure Inv (P : Params) (s : State) : Prop where
  started_le : s.started ≤ P.cap
  length_released : s.released.length = s.started
  before : ∀ i ∈ s.released, i < s.idx
  nodup : s.released.Nodup
  number : ∀ (k i : ℕ), s.released[k]? = some i → ∃ cpu, Kth P s.cpus s.released k i cpu
  /-- An AP has the number of its entry, and its slot is its own. -/
  ap : ∀ i ap, s.aps i = some ap → ∃ k cpu, Kth P s.cpus s.released k i cpu ∧
    ap = numbered k ap.running ∧
    s.tables.cpuLocals (k + 1) = some ⟨.ap (UInt8.ofNat (k + 1)), cpu.lapicId.toUInt8⟩
  /-- The slots of a number that no AP has taken yet are free. -/
  freeLocal : ∀ k : ℕ, (∀ i, s.released[k]? = some i → s.aps i = none) →
    s.tables.cpuLocals (k + 1) = none
  freeExecutor : ∀ k : ℕ,
    (∀ i ap, s.released[k]? = some i → s.aps i = some ap → ap.running = false) →
    s.tables.apExecutors k = false

theorem Inv.start (bsp : CpuLocal) (cpus : List Cpu) : Inv P (start bsp cpus) where
  started_le := Nat.zero_le _
  length_released := rfl
  before := fun i hi => absurd hi List.not_mem_nil
  nodup := List.nodup_nil
  number := fun k i h => by simp [Smp.start] at h
  ap := fun i ap h => by simp [Smp.start] at h
  freeLocal := fun k _ => by simp [Smp.start]
  freeExecutor := fun k _ => rfl

theorem Inv.lt (h : Inv P s) (hk : s.released[k]? = some i) : k + 1 < maxCpus := by
  obtain ⟨hlt, -⟩ := List.getElem?_eq_some_iff.mp hk
  have hlen := h.length_released
  have hcap : P.cap ≤ maxCpus - 1 := min_le_right _ _
  have hle := h.started_le
  have : 0 < maxCpus := by decide
  omega

/-- The place of an entry among the released ones is unique. -/
theorem Inv.unique {k' : ℕ} (h : Inv P s) (hk : s.released[k]? = some i)
    (hk' : s.released[k']? = some i) : k = k' := by
  obtain ⟨hlt, -⟩ := List.getElem?_eq_some_iff.mp hk
  exact (List.getElem?_inj hlt h.nodup).mp (hk.trans hk'.symm)

/-- The slots of a released entry whose AP has not run yet are free. -/
theorem Inv.freeLocal_of_none (h : Inv P s) (hk : s.released[k]? = some i)
    (hnone : s.aps i = none) : s.tables.cpuLocals (k + 1) = none := by
  refine h.freeLocal k fun j hj => ?_
  obtain rfl : i = j := Option.some_inj.mp (hk.symm.trans hj)
  exact hnone

theorem Inv.freeExecutor_of_not_running {ap : Ap} (h : Inv P s)
    (hk : s.released[k]? = some i) (hap : s.aps i = some ap) (hrun : ap.running = false) :
    s.tables.apExecutors k = false := by
  refine h.freeExecutor k fun j ap' hj hap' => ?_
  obtain rfl : i = j := Option.some_inj.mp (hk.symm.trans hj)
  obtain rfl : ap = ap' := Option.some_inj.mp (hap.symm.trans hap')
  exact hrun

/-! #### The BSP -/

theorem bspStep_of_eq (h : cpu.lapicId = P.bspLapicId) :
    bspStep P s cpu = { s with idx := s.idx + 1 } := if_pos h

theorem bspStep_of_ne (h : cpu.lapicId ≠ P.bspLapicId) :
    bspStep P s cpu =
      { s with
        cpus := s.cpus.set s.idx (cpu.assign s.started)
        idx := s.idx + 1
        started := s.started + 1
        released := s.released ++ [s.idx] } := if_neg h

/-- A release keeps the numbers that were given before. -/
theorem Kth.release {cpus : List Cpu} {released : List ℕ} {cpu' : Cpu} {idx : ℕ}
    (h : Kth P cpus released k i cpu) (hi : i < idx) :
    Kth P (cpus.set idx cpu') (released ++ [idx]) k i cpu := by
  refine ⟨History.getElem?_append_of_some h.released, ?_, h.notBsp, h.extra⟩
  rw [List.getElem?_set_ne (by omega)]
  exact h.entry

/-- The entry that is released now gets the next number. -/
theorem Inv.kth_release (h : Inv P s) (hcap : s.started < P.cap)
    (hcpu : s.cpus[s.idx]? = some cpu) (hne : cpu.lapicId ≠ P.bspLapicId) :
    Kth P (s.cpus.set s.idx (cpu.assign s.started)) (s.released ++ [s.idx])
      s.released.length s.idx (cpu.assign s.started) := by
  have hlt : s.started + 1 < maxCpus := by
    have : P.cap ≤ 7 := min_le_right _ _
    show s.started + 1 < 8
    omega
  refine ⟨List.getElem?_concat_length .., ?_, hne, ?_⟩
  · exact List.getElem?_set_self (List.getElem?_eq_some_iff.mp hcpu).1
  · rw [h.length_released]
    exact toUInt64_ofNat hlt

theorem Inv.bsp (h : Inv P s) (hcap : s.started < P.cap) (hcpu : s.cpus[s.idx]? = some cpu) :
    Inv P (bspStep P s cpu) := by
  by_cases hne : cpu.lapicId = P.bspLapicId
  · -- The BSP passes its own entry.
    rw [bspStep_of_eq hne]
    refine ⟨h.started_le, h.length_released, ?_, h.nodup, h.number, h.ap, h.freeLocal,
      h.freeExecutor⟩
    intro i hi
    exact Nat.lt_succ_of_lt (h.before i hi)
  · have hnew := h.kth_release hcap hcpu hne
    have hold : ∀ {k i : ℕ} {cpu' : Cpu}, Kth P s.cpus s.released k i cpu' →
        Kth P (s.cpus.set s.idx (cpu.assign s.started)) (s.released ++ [s.idx]) k i cpu' := by
      intro k i cpu' hk
      exact hk.release (h.before i (List.mem_of_getElem? hk.released))
    rw [bspStep_of_ne hne]
    refine ⟨hcap, ?_, ?_, ?_, ?_, ?_, ?_, ?_⟩
    · simp [h.length_released]
    · intro i hi
      rcases List.mem_append.mp hi with hi | hi
      · exact Nat.lt_succ_of_lt (h.before i hi)
      · rw [List.mem_singleton.mp hi]
        exact Nat.lt_succ_self _
    · refine List.nodup_append.mpr ⟨h.nodup, List.pairwise_singleton _ _, ?_⟩
      intro i hi j hj
      have := h.before i hi
      rw [List.mem_singleton] at hj
      omega
    · intro k i hk
      rcases History.getElem?_concat hk with hk | ⟨rfl, rfl⟩
      · obtain ⟨cpu', hcpu'⟩ := h.number k i hk
        exact ⟨cpu', hold hcpu'⟩
      · exact ⟨_, hnew⟩
    · intro i ap hap
      obtain ⟨k, cpu', hcpu', hrest⟩ := h.ap i ap hap
      exact ⟨k, cpu', hold hcpu', hrest⟩
    · intro k hfree
      exact h.freeLocal k fun i hk => hfree i (History.getElem?_append_of_some hk)
    · intro k hfree
      exact h.freeExecutor k fun i ap hk hap =>
        hfree i ap (History.getElem?_append_of_some hk) hap

/-! #### The APs -/

theorem Inv.setup (h : Inv P s) (hstep : step P s (.setup i) = some u) : Inv P u := by
  obtain ⟨hi, hnone, cpu, tables, ap, hcpu, hset, rfl⟩ := step_setup hstep
  obtain ⟨k, hk⟩ := List.mem_iff_getElem?.mp hi
  obtain ⟨cpu', hkth⟩ := h.number k i hk
  obtain rfl : cpu' = cpu := Option.some_inj.mp (hkth.entry.symm.trans hcpu)
  rw [apSetup_numbered (h.lt hk) hkth.extra (h.freeLocal_of_none hk hnone)] at hset
  obtain ⟨rfl, rfl⟩ := Prod.mk.inj (Except.ok.inj hset)
  clear hset hstep
  -- The AP takes the slot of its own number; the slots of other numbers are untouched.
  refine ⟨h.started_le, h.length_released, h.before, h.nodup, h.number, ?_, ?_, ?_⟩
  · intro j ap hap
    dsimp only at hap ⊢
    rcases eq_or_ne j i with rfl | hji
    · rw [Function.update_self] at hap
      obtain rfl := Option.some_inj.mp hap
      exact ⟨k, cpu', hkth, rfl, Function.update_self ..⟩
    · rw [Function.update_of_ne hji] at hap
      obtain ⟨k', cpu, hcpu, hnum, hlocal⟩ := h.ap j ap hap
      have hkk : k' ≠ k := by
        rintro rfl
        exact hji (Option.some_inj.mp (hcpu.released.symm.trans hk))
      refine ⟨k', cpu, hcpu, hnum, ?_⟩
      rw [Function.update_of_ne (by omega)]
      exact hlocal
  · intro k' hfree'
    dsimp only at hfree' ⊢
    have hkk : k' ≠ k := by
      rintro rfl
      exact absurd (hfree' i hk) (by simp)
    rw [Function.update_of_ne (by omega)]
    refine h.freeLocal k' fun j hj => ?_
    have hji : j ≠ i := by
      rintro rfl
      exact hkk (h.unique hj hk)
    have := hfree' j hj
    rwa [Function.update_of_ne hji] at this
  · intro k' hfree'
    refine h.freeExecutor k' fun j ap hj hap => hfree' j ap hj ?_
    have hji : j ≠ i := by
      rintro rfl
      exact absurd hap (by simp [hnone])
    exact (Function.update_of_ne hji _ _).trans hap

theorem Inv.spawn (h : Inv P s) (hstep : step P s (.spawn i) = some u) : Inv P u := by
  obtain ⟨ap, tables, ap', hap, hrun, hset, rfl⟩ := step_spawn hstep
  obtain ⟨k, cpu, hkth, hnum, hlocal⟩ := h.ap i ap hap
  have hfree := h.freeExecutor_of_not_running hkth.released hap hrun
  rw [hnum, apSpawn_numbered (h.lt hkth.released) hfree] at hset
  obtain ⟨rfl, rfl⟩ := Prod.mk.inj (Except.ok.inj hset)
  clear hset hstep
  -- Only the executor of this number and the flag of this AP change.
  refine ⟨h.started_le, h.length_released, h.before, h.nodup, h.number, ?_, ?_, ?_⟩
  · intro j ap'' hap''
    dsimp only at hap'' ⊢
    rcases eq_or_ne j i with rfl | hji
    · rw [Function.update_self] at hap''
      obtain rfl := Option.some_inj.mp hap''
      exact ⟨k, cpu, hkth, rfl, hlocal⟩
    · rw [Function.update_of_ne hji] at hap''
      exact h.ap j ap'' hap''
  · intro k' hfree'
    refine h.freeLocal k' fun j hj => ?_
    have hnone := hfree' j hj
    dsimp only at hnone
    have hji : j ≠ i := by
      rintro rfl
      exact absurd hnone (by simp)
    rwa [Function.update_of_ne hji] at hnone
  · intro k' hfree'
    dsimp only at hfree' ⊢
    have hkk : k' ≠ k := by
      rintro rfl
      exact absurd (hfree' i _ hkth.released (Function.update_self ..)) (by simp [numbered])
    rw [Function.update_of_ne hkk]
    refine h.freeExecutor k' fun j ap'' hj hap'' => hfree' j ap'' hj ?_
    have hji : j ≠ i := by
      rintro rfl
      exact hkk (h.unique hj hkth.released)
    exact (Function.update_of_ne hji _ _).trans hap''

theorem Inv.beat (h : Inv P s) (hstep : step P s (.beat i) = some u) : Inv P u := by
  obtain ⟨ap, tables, hap, hset, rfl⟩ := step_beat hstep
  obtain ⟨k, cpu, hkth, hnum, hlocal⟩ := h.ap i ap hap
  rw [hnum, apHeartbeatTask_numbered (h.lt hkth.released)] at hset
  obtain rfl := Except.ok.inj hset
  exact ⟨h.started_le, h.length_released, h.before, h.nodup, h.number, h.ap, h.freeLocal,
    h.freeExecutor⟩

theorem Inv.step {a : Act} (h : Inv P s) (hstep : step P s a = some u) : Inv P u := by
  cases a with
  | bsp =>
    obtain ⟨hcap, cpu, hcpu, rfl⟩ := step_bsp hstep
    exact h.bsp hcap hcpu
  | setup i => exact h.setup hstep
  | spawn i => exact h.spawn hstep
  | beat i => exact h.beat hstep

/-! ### In every state of every run -/

theorem Inv.of_run {bsp : CpuLocal} {cpus : List Cpu} {l : List Act}
    (h : Exec (Smp.step P) (fun _ _ => True) (Smp.start bsp cpus) l s) : Inv P s := by
  refine h.invariant (Inv.start bsp cpus) ?_
  intro t u a ht _ hstep
  exact ht.step hstep

/-- The place, entry and slots of an AP. -/
theorem Inv.place {ap : Ap} (h : Inv P s) (hap : s.aps i = some ap) : ∃ k cpu,
    Kth P s.cpus s.released k i cpu ∧ k + 1 < maxCpus ∧ ap = numbered k ap.running ∧
      ap.slots = ⟨k + 1, k + 1, k + 1, k⟩ ∧
      s.tables.cpuLocals (k + 1) = some ⟨.ap ap.processorId, cpu.lapicId.toUInt8⟩ := by
  obtain ⟨k, cpu, hkth, hnum, hlocal⟩ := h.ap i ap hap
  have hlt := h.lt hkth.released
  refine ⟨k, cpu, hkth, hlt, hnum, ?_, ?_⟩
  · rw [hnum]
    exact slots_numbered hlt
  · rw [hlocal, hnum]
    rfl

theorem Inv.numbered (h : Inv P s) : Numbered P s where
  atMost := by
    rw [h.length_released]
    exact h.started_le
  once := h.nodup
  number := h.number
  readBack := by
    intro k i cpu hkth
    refine ⟨?_, h.lt hkth.released⟩
    rw [apInitFrom, hkth.extra, toUInt8_ofNat]
  setup := by
    intro i hi hnone
    obtain ⟨k, hk⟩ := List.mem_iff_getElem?.mp hi
    obtain ⟨cpu, hkth⟩ := h.number k i hk
    have hfree := h.freeLocal_of_none hk hnone
    have hset := apSetup_numbered (P := P) (h.lt hk) hkth.extra hfree
    simp [Smp.step, hi, hnone, hkth.entry, hset, Except.toOption]
  spawn := by
    intro i ap hap hrun
    obtain ⟨k, cpu, hkth, hlt, hnum, -, -⟩ := h.place hap
    have hfree := h.freeExecutor_of_not_running hkth.released hap hrun
    have hset : apSpawn ap s.tables = _ := hnum ▸ apSpawn_numbered hlt hfree
    simp [Smp.step, hap, hrun, hset, Except.toOption]
  beat := by
    intro i ap hap hrun
    obtain ⟨k, cpu, hkth, hlt, hnum, -, -⟩ := h.place hap
    have hset : apHeartbeatTask ap s.tables = _ := hnum ▸ apHeartbeatTask_numbered hlt
    simp [Smp.step, hap, hrun, hset, Except.toOption]
  inRange := by
    intro i ap hap
    obtain ⟨k, cpu, -, hlt, -, hslots, -⟩ := h.place hap
    rw [hslots]
    dsimp only
    omega
  distinct := by
    intro i j ap ap' hij hap hap'
    obtain ⟨k, cpu, hkth, -, -, hslots, -⟩ := h.place hap
    obtain ⟨k', cpu', hkth', -, -, hslots', -⟩ := h.place hap'
    -- slots follow the place in the list of the APs, where each stands once
    have hkk : k ≠ k' := by
      rintro rfl
      exact hij (Option.some_inj.mp (hkth.released.symm.trans hkth'.released))
    rw [hslots, hslots']
    dsimp only
    omega
  ownSlots := fun i ap a u ha hstep hap => sameOutside_of_step ha hstep hap
  counts := fun i ap tables _ hset => apHeartbeatTask_ok hset
  own := by
    intro i ap cpu hap hcpu
    obtain ⟨k, cpu', hkth, hlt, -, hslots, hlocal⟩ := h.place hap
    obtain rfl : cpu' = cpu := Option.some_inj.mp (hkth.entry.symm.trans hcpu)
    have hslot : slotOf (currentCpuId ap.gsBase) = k + 1 := congrArg Slots.alarms hslots
    rw [byId, hslot, if_pos hlt]
    exact hlocal

/-! ### The loop of `bring_up_aps` -/

/-- What the loop leaves when it goes on from this state alone. -/
def State.finish (P : Params) (s : State) : List Cpu × ℕ :=
  let (cpus, n) := bringUpFrom P.bspLapicId P.cap (s.cpus.drop s.idx) s.started
  (s.cpus.take s.idx ++ cpus, n)

/-- The loop stops at the cap or at the end of the list. -/
def State.LoopDone (P : Params) (s : State) : Prop :=
  P.cap ≤ s.started ∨ s.cpus.length ≤ s.idx

theorem finish_bspStep (hcap : s.started < P.cap) (hcpu : s.cpus[s.idx]? = some cpu) :
    (bspStep P s cpu).finish P = s.finish P := by
  obtain ⟨hlt, rfl⟩ := List.getElem?_eq_some_iff.mp hcpu
  conv_rhs => rw [State.finish, List.drop_eq_getElem_cons hlt, bringUpFrom,
    if_neg (Nat.not_le.mpr hcap)]
  by_cases heq : s.cpus[s.idx].lapicId = P.bspLapicId
  · rw [bspStep_of_eq heq, if_pos heq]
    simp only [State.finish, List.take_add_one, hcpu, Option.toList_some, List.append_assoc,
      List.singleton_append]
  · rw [bspStep_of_ne heq, if_neg heq]
    simp [State.finish, List.take_add_one, hlt, List.drop_set, List.take_set_of_le]

/-- The steps of the APs do not touch what the loop works on. -/
theorem finish_step {a : Act} (h : step P s a = some u) : u.finish P = s.finish P := by
  cases a with
  | bsp =>
    obtain ⟨hcap, cpu, hcpu, rfl⟩ := step_bsp h
    exact finish_bspStep hcap hcpu
  | setup i =>
    obtain ⟨-, -, cpu, tables, ap, -, -, rfl⟩ := step_setup h
    rfl
  | spawn i =>
    obtain ⟨ap, tables, ap', -, -, -, rfl⟩ := step_spawn h
    rfl
  | beat i =>
    obtain ⟨ap, tables, -, -, rfl⟩ := step_beat h
    rfl

theorem finish_of_loopDone (h : s.LoopDone P) : s.finish P = (s.cpus, s.started) := by
  rw [State.finish]
  rcases h with hcap | hend
  · cases hdrop : s.cpus.drop s.idx with
    | nil =>
      rw [bringUpFrom, ← hdrop]
      simp
    | cons cpu cpus =>
      rw [bringUpFrom, if_pos hcap, ← hdrop]
      simp
  · rw [List.drop_eq_nil_of_le hend, bringUpFrom, List.take_of_length_le hend]
    simp

/-- **Numbering of the APs.**  In every run of the BSP and the APs, in any order, every
state is `Numbered`; and once the loop of the BSP is over, the entries and the number of
released CPUs are those of `bring_up_aps` alone. -/
theorem numbered_of_run (bsp : CpuLocal) (cpus : List Cpu) {l : List Act}
    (h : Exec (step P) (fun _ _ => True) (start bsp cpus) l s) :
    Numbered P s ∧ (s.LoopDone P →
      (s.cpus, s.released.length) = bringUpAps P.bspLapicId P.maxAps cpus) := by
  have hinv := Inv.of_run h
  refine ⟨hinv.numbered, fun hdone => ?_⟩
  have hfinish : s.finish P = bringUpAps P.bspLapicId P.maxAps cpus := by
    refine h.invariant (I := fun s => s.finish P = bringUpAps P.bspLapicId P.maxAps cpus) rfl ?_
    intro t u a ht _ hstep
    rw [finish_step hstep, ht]
  rw [hinv.length_released, ← finish_of_loopDone hdone, hfinish]

/-- Four CPUs with the BSP in second place, and at most two APs. -/
theorem numbered_of_run_four_cpus : ∃ s,
    Exec (step ⟨4, 2, 2000⟩) (fun _ _ => True)
      (start ⟨.bsp, 4⟩ [⟨9, 0⟩, ⟨4, 0⟩, ⟨7, 0⟩, ⟨1, 0⟩])
      [.bsp, .setup 0, .bsp, .bsp, .setup 2, .spawn 2, .spawn 0, .beat 2] s ∧
    s.released = [0, 2] ∧ Numbered ⟨4, 2, 2000⟩ s ∧
    (s.cpus, s.released.length) = bringUpAps 4 2 [⟨9, 0⟩, ⟨4, 0⟩, ⟨7, 0⟩, ⟨1, 0⟩] := by
  obtain ⟨s, hs, hreleased, hstarted⟩ : ∃ s, Exec (step ⟨4, 2, 2000⟩) (fun _ _ => True)
      (start ⟨.bsp, 4⟩ [⟨9, 0⟩, ⟨4, 0⟩, ⟨7, 0⟩, ⟨1, 0⟩])
      [.bsp, .setup 0, .bsp, .bsp, .setup 2, .spawn 2, .spawn 0, .beat 2] s ∧
      s.released = [0, 2] ∧ s.started = 2 :=
    Exec.exists_of_run (by decide +kernel)
  have h := numbered_of_run ⟨.bsp, 4⟩ _ hs
  exact ⟨s, hs, hreleased, h.1, h.2 (.inl (by rw [hstarted]; decide))⟩

/-! ### The command line -/

/-- The part of `kmain` that decides whether APs are started, and how many. -/
def smpParams (cmdline : Str) (bspLapicId : UInt32) (tscPerUs : UInt64) : Option Params :=
  let smpCfg := parseSmp cmdline
  if smpCfg.enabled then some ⟨bspLapicId, smpCfg.maxAps.getD (maxCpus - 1), tscPerUs⟩ else none

/-- Without `smp=on` no AP is started. -/
theorem smpParams_eq_none_iff {cmdline : Str} {bspLapicId : UInt32} {tscPerUs : UInt64} :
    smpParams cmdline bspLapicId tscPerUs = none ↔
      ¬ ∃ value, smpKey ++ value ∈ splitAsciiWhitespace cmdline ∧
        eqIgnoreAsciiCase value "on".toList = true := by
  rw [← (smpSpec cmdline).enabled, smpParams]
  cases (parseSmp cmdline).enabled <;> simp

/-- **`cpus=n`**: with the BSP, no more than `n` CPUs run, in every state of every run. -/
theorem cpus_le_of_token {cmdline tok : Str} {before after : List Str} {n : ℕ}
    {tscPerUs : UInt64} {bspLapicId : UInt32} {bsp : CpuLocal} {cpus : List Cpu} {l : List Act}
    (hP : smpParams cmdline bspLapicId tscPerUs = some P)
    (htoks : splitAsciiWhitespace cmdline = before ++ tok :: after) (htok : CpusToken tok n)
    (hlast : ∀ tok' ∈ after, ∀ n', ¬ CpusToken tok' n')
    (h : Exec (step P) (fun _ _ => True) (start bsp cpus) l s) :
    s.released.length + 1 ≤ min n maxCpus := by
  have hmax : (parseSmp cmdline).maxAps = some (n - 1) :=
    ((smpSpec cmdline).maxAps (n - 1)).mpr ⟨before, tok, after, n, htoks, htok, rfl, hlast⟩
  have hcap : P.cap = min (n - 1) (maxCpus - 1) := by
    rw [smpParams, hmax] at hP
    split at hP
    · obtain rfl := Option.some_inj.mp hP
      rfl
    · cases hP
  have hinv := Inv.of_run h
  obtain ⟨-, -, -, -, hpos⟩ := htok
  have hle := hinv.started_le
  rw [hcap, ← hinv.length_released] at hle
  have : 0 < maxCpus := by decide
  omega

end Smp
