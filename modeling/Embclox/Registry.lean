/-
The probe loop for arbitrary drivers.

`probe_all` walks over the PCI functions and then over the VMBus offers.  For each of
them it calls the drivers that match, in the order of their registration, until one
succeeds; it stops at a device when `PROBE_BUDGET` NICs are up.  Drivers, context and
NICs are arbitrary here; a history keeps the probes of each device.

* `Tried` — the probes of one device: the matching drivers up to the first success;
* `Threaded` — each probe gets the context that the probe before it has left;
* `scan_visits` — what a loop that is left at the budget has done;
* `probeAll_firstWins` — each NIC comes from the first matching driver that succeeds;
* `probes_le_budget_iff` — the number of probes is at most the budget exactly if all
  devices together need no more, or the first ones all succeed;
* `failing_probes_unbounded` — a driver that always fails is called for every device.
-/
import Embclox.Probe
import Mathlib.Data.List.Forall2

open Boot

namespace Registry

variable {σ ν τ : Type}

/-! ### Drivers -/

/-- `PciDriver` and `VmBusDriver`: a driver for devices of type `τ`. -/
structure Driver (σ ν τ : Type) where
  name : String
  priority : UInt8
  /-- The driver's `matches`. -/
  accepts : τ → Bool
  probe : τ → σ → σ × Except ProbeError ν

structure ProbedNic (ν : Type) where
  driver : ν
  priority : UInt8
  name : String
  deriving DecidableEq

structure DriverRegistry (σ ν : Type) where
  pci : List (Driver σ ν PciDevice)
  vmbus : List (Driver σ ν ChannelOffer)

/-- A call of `probe`: the driver, the context before the call and the result. -/
structure Attempt (σ ν τ : Type) where
  driver : Driver σ ν τ
  before : σ
  result : Except ProbeError ν

def Attempt.succeeded (a : Attempt σ ν τ) : Bool := a.result.toBool

/-- The NIC of a call that succeeded. -/
def Attempt.nic (a : Attempt σ ν τ) : Option (ProbedNic ν) :=
  a.result.toOption.map fun nic => ⟨nic, a.driver.priority, a.driver.name⟩

/-! ### The loops -/

/-- The loop over the drivers, for one device: the context it leaves, the NIC, and the
calls that were made. -/
def tryDrivers (x : τ) :
    List (Driver σ ν τ) → σ → σ × Option (ProbedNic ν) × List (Attempt σ ν τ)
  | [], ctx => (ctx, none, [])
  | drv :: drvs, ctx =>
      if drv.accepts x then
        match drv.probe x ctx with
        | (ctx', .ok nic) => (ctx', some ⟨nic, drv.priority, drv.name⟩, [⟨drv, ctx, .ok nic⟩])
        | (ctx', .error e) =>
            let (ctx'', nic, attempts) := tryDrivers x drvs ctx'
            (ctx'', nic, ⟨drv, ctx, .error e⟩ :: attempts)
      else tryDrivers x drvs ctx

/-- The state of a loop over the devices; entry `i` of `visits` holds the calls for the
`i`-th device. -/
structure Loop (σ ν τ : Type) where
  ctx : σ
  nics : List (ProbedNic ν)
  claimed : List (UInt8 × UInt8 × UInt8)
  visits : List (List (Attempt σ ν τ))

/-- A loop that is left as soon as `reached` holds for the number of NICs. -/
def scan (reached : ℕ → Bool) (visit : Loop σ ν τ → τ → Loop σ ν τ) :
    Loop σ ν τ → List τ → Loop σ ν τ
  | p, [] => p
  | p, x :: xs => if reached p.nics.length then p else scan reached visit (visit p x) xs

/-- Try the drivers on a device and push the NIC. -/
def Loop.tryDevice (p : Loop σ ν τ) (drvs : List (Driver σ ν τ)) (x : τ) : Loop σ ν τ × Bool :=
  let (ctx, nic, attempts) := tryDrivers x drvs p.ctx
  ({ p with ctx, nics := p.nics ++ nic.toList, visits := p.visits ++ [attempts] }, nic.isSome)

def visitPci (drvs : List (Driver σ ν PciDevice)) (p : Loop σ ν PciDevice) (dev : PciDevice) :
    Loop σ ν PciDevice :=
  if p.claimed.contains dev.key then { p with visits := p.visits ++ [[]] }
  else
    let (p, claimed) := p.tryDevice drvs dev
    if claimed then { p with claimed := dev.key :: p.claimed } else p

def visitVmBus (drvs : List (Driver σ ν ChannelOffer)) (p : Loop σ ν ChannelOffer)
    (offer : ChannelOffer) : Loop σ ν ChannelOffer :=
  (p.tryDevice drvs offer).1

/-- What `probe_all` leaves, with the history of both loops. -/
structure Probed (σ ν : Type) where
  ctx : σ
  nics : List (ProbedNic ν)
  pciVisits : List (List (Attempt σ ν PciDevice))
  /-- The offers enumerated after the PCI loop. -/
  offers : List ChannelOffer
  vmbusVisits : List (List (Attempt σ ν ChannelOffer))

/-- `reached` for the budget of `probe_all`. -/
def budgetReached (n : ℕ) : Bool := decide (probeBudget ≤ n)

def pciLoop (reached : ℕ → Bool) (registry : DriverRegistry σ ν) (ctx : σ)
    (devs : List PciDevice) : Loop σ ν PciDevice :=
  scan reached (visitPci registry.pci) ⟨ctx, [], [], []⟩ devs

/-- The NICs of the PCI loop count. -/
def vmbusLoop (reached : ℕ → Bool) (registry : DriverRegistry σ ν) (ctx : σ)
    (nics : List (ProbedNic ν)) (offers : List ChannelOffer) : Loop σ ν ChannelOffer :=
  scan reached (visitVmBus registry.vmbus) ⟨ctx, nics, [], []⟩ offers

/-- The two loops; `offersOf` enumerates the offers of the context. -/
def probeLoops (reached : ℕ → Bool) (registry : DriverRegistry σ ν)
    (offersOf : σ → List ChannelOffer) (ctx : σ) (devs : List PciDevice) : Probed σ ν :=
  let p := pciLoop reached registry ctx devs
  let offers := offersOf p.ctx
  let q := vmbusLoop reached registry p.ctx p.nics offers
  ⟨q.ctx, q.nics, p.visits, offers, q.visits⟩

def probeAll : DriverRegistry σ ν → (σ → List ChannelOffer) → σ → List PciDevice → Probed σ ν :=
  probeLoops budgetReached

/-- The calls of `probe` in order: whether they succeeded. -/
def Probed.probes (r : Probed σ ν) : List Bool :=
  r.pciVisits.flatten.map Attempt.succeeded ++ r.vmbusVisits.flatten.map Attempt.succeeded

/-! ### The drivers of one device -/

/-- The NIC that the calls for one device bring up: that of the last call. -/
def winner (attempts : List (Attempt σ ν τ)) : Option (ProbedNic ν) :=
  attempts.getLast?.bind Attempt.nic

/-- Only the last call may have succeeded. -/
def OnlyLast (attempts : List (Attempt σ ν τ)) : Prop :=
  ∀ a ∈ attempts.dropLast, a.succeeded = false

/-- The calls for the device `x`: the matching drivers in the order of registration,
up to the first that succeeds. -/
structure Tried (drvs : List (Driver σ ν τ)) (x : τ) (attempts : List (Attempt σ ν τ)) : Prop where
  called : ∀ a ∈ attempts, (a.driver.probe x a.before).2 = a.result
  order : attempts.map Attempt.driver <+: drvs.filter fun drv => drv.accepts x
  onlyLast : OnlyLast attempts
  /-- Without a NIC, all of them were called and failed. -/
  complete : winner attempts = none → (∀ a ∈ attempts, a.succeeded = false) ∧
    attempts.map Attempt.driver = drvs.filter fun drv => drv.accepts x

section

variable {x : τ} {drvs : List (Driver σ ν τ)} {ctx : σ} {attempts : List (Attempt σ ν τ)}

theorem Tried.nil : Tried ([] : List (Driver σ ν τ)) x [] :=
  ⟨by simp, by simp, by simp [OnlyLast], by simp⟩

/-- A driver that does not match is not called. -/
theorem Tried.skip {drv : Driver σ ν τ} (h : Tried drvs x attempts) (hno : drv.accepts x = false) :
    Tried (drv :: drvs) x attempts := by
  have hfilter : (drv :: drvs).filter (fun d => d.accepts x) = drvs.filter fun d => d.accepts x :=
    List.filter_cons_of_neg (by simp [hno])
  exact ⟨h.called, by rw [hfilter]; exact h.order, h.onlyLast, by rw [hfilter]; exact h.complete⟩

theorem Tried.success {drv : Driver σ ν τ} {ctx' : σ} {nic : ν} (hyes : drv.accepts x = true)
    (hprobe : drv.probe x ctx = (ctx', .ok nic)) :
    Tried (drv :: drvs) x [⟨drv, ctx, .ok nic⟩] := by
  have hfilter : (drv :: drvs).filter (fun d => d.accepts x) =
      drv :: drvs.filter fun d => d.accepts x :=
    List.filter_cons_of_pos hyes
  refine ⟨?_, ?_, by simp [OnlyLast], ?_⟩
  · intro a ha
    rw [List.mem_singleton.mp ha, hprobe]
  · rw [hfilter]
    exact ⟨_, rfl⟩
  · intro hnone
    exact absurd hnone (by simp [winner, Attempt.nic, Except.toOption])

/-- A failed call in front does not change who wins. -/
theorem winner_cons_error {drv : Driver σ ν τ} {e : ProbeError} :
    winner (⟨drv, ctx, .error e⟩ :: attempts) = winner attempts := by
  cases attempts with
  | nil => rfl
  | cons b rest => rw [winner, winner, List.getLast?_cons_cons]

theorem Tried.failure {drv : Driver σ ν τ} {ctx' : σ} {e : ProbeError} (h : Tried drvs x attempts)
    (hyes : drv.accepts x = true) (hprobe : drv.probe x ctx = (ctx', .error e)) :
    Tried (drv :: drvs) x (⟨drv, ctx, .error e⟩ :: attempts) := by
  have hfilter : (drv :: drvs).filter (fun d => d.accepts x) =
      drv :: drvs.filter fun d => d.accepts x :=
    List.filter_cons_of_pos hyes
  refine ⟨?_, ?_, ?_, ?_⟩
  · intro a ha
    rcases List.mem_cons.mp ha with rfl | ha
    · rw [hprobe]
    · exact h.called a ha
  · rw [hfilter, List.map_cons]
    exact (List.prefix_cons_inj _).mpr h.order
  · -- the failure is not the last attempt if there is another one
    intro a ha
    cases attempts with
    | nil => exact absurd ha List.not_mem_nil
    | cons b rest =>
      rw [List.dropLast_cons_of_ne_nil (by simp)] at ha
      rcases List.mem_cons.mp ha with rfl | ha
      · rfl
      · exact h.onlyLast a ha
  · intro hnone
    rw [winner_cons_error] at hnone
    obtain ⟨hfailed, hall⟩ := h.complete hnone
    refine ⟨fun a ha => ?_, by rw [hfilter, List.map_cons, hall]⟩
    rcases List.mem_cons.mp ha with rfl | ha
    · rfl
    · exact hfailed a ha

theorem tryDrivers_tried (x : τ) (drvs : List (Driver σ ν τ)) (ctx : σ) :
    Tried drvs x (tryDrivers x drvs ctx).2.2 ∧
      (tryDrivers x drvs ctx).2.1 = winner (tryDrivers x drvs ctx).2.2 := by
  induction drvs generalizing ctx with
  | nil => exact ⟨.nil, rfl⟩
  | cons drv drvs ih =>
    rw [tryDrivers]
    by_cases hyes : drv.accepts x = true
    · rw [if_pos hyes]
      split
      · rename_i ctx' nic hprobe
        exact ⟨.success hyes hprobe, rfl⟩
      · rename_i ctx' e hprobe
        obtain ⟨htried, hwin⟩ := ih ctx'
        exact ⟨htried.failure hyes hprobe, hwin.trans winner_cons_error.symm⟩
    · rw [if_neg hyes]
      obtain ⟨htried, hwin⟩ := ih ctx
      exact ⟨htried.skip (by simpa using hyes), hwin⟩

end

/-- The calls for `x` are made one after the other: the first in the context `c`, each of
the others in the one that the call before it has left; `c'` is the last of them. -/
inductive Chained (x : τ) : σ → List (Attempt σ ν τ) → σ → Prop
  | nil (c : σ) : Chained x c [] c
  | cons {c c' : σ} {a : Attempt σ ν τ} {attempts : List (Attempt σ ν τ)} :
      a.before = c → Chained x (a.driver.probe x c).1 attempts c' → Chained x c (a :: attempts) c'

/-- The same for the calls of a bus; `xs` may have more devices than were visited. -/
inductive Threaded : σ → List τ → List (List (Attempt σ ν τ)) → σ → Prop
  | nil (c : σ) (xs : List τ) : Threaded c xs [] c
  | cons {c c' c'' : σ} {x : τ} {xs : List τ} {attempts : List (Attempt σ ν τ)}
      {visits : List (List (Attempt σ ν τ))} :
      Chained x c attempts c' → Threaded c' xs visits c'' →
        Threaded c (x :: xs) (attempts :: visits) c''

theorem tryDrivers_chained (x : τ) (drvs : List (Driver σ ν τ)) (ctx : σ) :
    Chained x ctx (tryDrivers x drvs ctx).2.2 (tryDrivers x drvs ctx).1 := by
  induction drvs generalizing ctx with
  | nil => exact .nil ctx
  | cons drv drvs ih =>
    rw [tryDrivers]
    by_cases hyes : drv.accepts x = true
    · rw [if_pos hyes]
      have hnext := ih (drv.probe x ctx).1
      split
      · rename_i ctx' nic hprobe
        refine .cons rfl ?_
        rw [hprobe]
        exact .nil ctx'
      · rename_i ctx' e hprobe
        rw [hprobe] at hnext
        refine .cons rfl ?_
        rw [hprobe]
        exact hnext
    · rw [if_neg hyes]
      exact ih ctx

/-! ### One device of a loop -/

/-- A visit of `x` appends the calls for it and the NIC they bring up. -/
structure Visit (x : τ) (p q : Loop σ ν τ) (attempts : List (Attempt σ ν τ)) : Prop where
  visits : q.visits = p.visits ++ [attempts]
  nics : q.nics = p.nics ++ (winner attempts).toList
  chained : Chained x p.ctx attempts q.ctx

theorem tryDevice_visit (p : Loop σ ν τ) (drvs : List (Driver σ ν τ)) (x : τ) :
    ∃ attempts, Tried drvs x attempts ∧ Visit x p (p.tryDevice drvs x).1 attempts ∧
      (p.tryDevice drvs x).1.claimed = p.claimed := by
  obtain ⟨htried, hwin⟩ := tryDrivers_tried x drvs p.ctx
  refine ⟨_, htried, ⟨rfl, ?_, tryDrivers_chained x drvs p.ctx⟩, rfl⟩
  rw [← hwin]
  rfl

theorem visitVmBus_visit (drvs : List (Driver σ ν ChannelOffer)) (p : Loop σ ν ChannelOffer)
    (offer : ChannelOffer) :
    ∃ attempts, Tried drvs offer attempts ∧ Visit offer p (visitVmBus drvs p offer) attempts := by
  obtain ⟨attempts, htried, hvisit, -⟩ := tryDevice_visit p drvs offer
  exact ⟨attempts, htried, hvisit⟩

/-- A function that is not claimed is tried, and only its own address can be claimed. -/
theorem visitPci_of_not_claimed (drvs : List (Driver σ ν PciDevice)) {p : Loop σ ν PciDevice}
    {dev : PciDevice} (h : dev.key ∉ p.claimed) :
    (∃ attempts, Tried drvs dev attempts ∧ Visit dev p (visitPci drvs p dev) attempts) ∧
      ∀ key ∈ (visitPci drvs p dev).claimed, key = dev.key ∨ key ∈ p.claimed := by
  obtain ⟨attempts, htried, hvisit, hclaimed⟩ := tryDevice_visit p drvs dev
  unfold visitPci
  rw [if_neg (by simpa using h)]
  dsimp only
  split_ifs
  · refine ⟨⟨attempts, htried, ⟨hvisit.visits, hvisit.nics, hvisit.chained⟩⟩, fun key hkey => ?_⟩
    rw [← hclaimed]
    exact List.mem_cons.mp hkey
  · refine ⟨⟨attempts, htried, hvisit⟩, fun key hkey => ?_⟩
    rw [hclaimed] at hkey
    exact .inr hkey

theorem visitPci_visit (drvs : List (Driver σ ν PciDevice)) (p : Loop σ ν PciDevice)
    (dev : PciDevice) :
    ∃ attempts, OnlyLast attempts ∧ Visit dev p (visitPci drvs p dev) attempts := by
  by_cases h : dev.key ∈ p.claimed
  · refine ⟨[], by simp [OnlyLast], ?_⟩
    unfold visitPci
    rw [if_pos (by simpa using h)]
    exact ⟨rfl, (List.append_nil _).symm, .nil _⟩
  · obtain ⟨⟨attempts, htried, hvisit⟩, -⟩ := visitPci_of_not_claimed drvs h
    exact ⟨attempts, htried.onlyLast, hvisit⟩

/-! ### The loop over the devices -/

section

variable {reached : ℕ → Bool} {visit : Loop σ ν τ → τ → Loop σ ν τ} {xs : List τ}
  {p q : Loop σ ν τ}

/-- What the loop over `xs` from `p` to `q` has done: the calls `vs` for the first of
the devices, all of them unless the budget was reached. -/
structure Scanned (reached : ℕ → Bool) (V : τ → List (Attempt σ ν τ) → Prop) (xs : List τ)
    (p q : Loop σ ν τ) (vs : List (List (Attempt σ ν τ))) : Prop where
  visits : q.visits = p.visits ++ vs
  nics : q.nics = p.nics ++ vs.filterMap winner
  tried : List.Forall₂ V (xs.take vs.length) vs
  threaded : Threaded p.ctx xs vs q.ctx
  stopped : vs.length < xs.length → reached q.nics.length = true

/-- **The rule for the loop.**  `I` is an invariant of the state and the devices that
are left, and `V` holds of each visit. -/
theorem scan_visits {V : τ → List (Attempt σ ν τ) → Prop} {I : Loop σ ν τ → List τ → Prop}
    (hI : I p xs)
    (hstep : ∀ p x xs, I p (x :: xs) →
      I (visit p x) xs ∧ ∃ as, V x as ∧ Visit x p (visit p x) as) :
    ∃ vs, Scanned reached V xs p (scan reached visit p xs) vs := by
  induction xs generalizing p with
  | nil => exact ⟨[], (List.append_nil _).symm, (List.append_nil _).symm, .nil, .nil _ _, by simp⟩
  | cons x xs ih =>
    rw [scan]
    by_cases hreached : reached p.nics.length = true
    · rw [if_pos hreached]
      exact ⟨[], (List.append_nil _).symm, (List.append_nil _).symm, .nil, .nil _ _,
        fun _ => hreached⟩
    · -- one visit, and the loop over the rest from there
      rw [if_neg hreached]
      obtain ⟨hI', as, hV, hvisit⟩ := hstep p x xs hI
      obtain ⟨vs, hvs⟩ := ih hI'
      refine ⟨as :: vs, ?_, ?_, .cons hV hvs.tried, .cons hvisit.chained hvs.threaded, ?_⟩
      · rw [hvs.visits, hvisit.visits, List.append_assoc, List.singleton_append]
      · rw [hvs.nics, hvisit.nics, List.append_assoc]
        cases hwin : winner as with
        | none => rw [List.filterMap_cons_none hwin, Option.toList_none, List.nil_append]
        | some nic =>
          rw [List.filterMap_cons_some hwin, Option.toList_some, List.singleton_append]
      · intro hlt
        exact hvs.stopped (by simpa using hlt)

/-- What a visit below the budget keeps, the loop keeps. -/
theorem scan_invariant {I : Loop σ ν τ → Prop} (h : I p)
    (hstep : ∀ p x, I p → reached p.nics.length = false → I (visit p x)) :
    I (scan reached visit p xs) := by
  induction xs generalizing p with
  | nil => exact h
  | cons x xs ih =>
    rw [scan]
    by_cases hreached : reached p.nics.length = true
    · rw [if_pos hreached]
      exact h
    · rw [if_neg hreached]
      exact ih (hstep p x h (by simpa using hreached))

theorem scan_of_reached (h : reached p.nics.length = true) : scan reached visit p xs = p := by
  cases xs with
  | nil => rfl
  | cons x xs => rw [scan, if_pos h]

/-- The loop does what the loop without a budget does, as far as it gets. -/
theorem scan_eq_or_reached (hvisit : ∀ p x, ∃ as, Visit x p (visit p x) as) :
    scan reached visit p xs = scan (fun _ => false) visit p xs ∨
      reached (scan reached visit p xs).nics.length = true ∧
        (scan reached visit p xs).visits <+: (scan (fun _ => false) visit p xs).visits := by
  induction xs generalizing p with
  | nil => exact .inl rfl
  | cons x xs ih =>
    by_cases hreached : reached p.nics.length = true
    · rw [scan_of_reached hreached]
      have hscan : ∃ vs, Scanned (fun _ => false) (fun _ _ => True) (x :: xs) p
          (scan (fun _ => false) visit p (x :: xs)) vs := by
        refine scan_visits (I := fun _ _ => True) trivial fun p x _ _ => ?_
        obtain ⟨as, has⟩ := hvisit p x
        exact ⟨trivial, as, trivial, has⟩
      obtain ⟨vs, hvs⟩ := hscan
      exact .inr ⟨hreached, hvs.visits ▸ List.prefix_append _ _⟩
    · rw [scan, if_neg hreached, scan, if_neg Bool.false_ne_true]
      exact ih

/-- At most one NIC comes with each device. -/
theorem length_nics_scan_le {b : ℕ} (hvisit : ∀ p x, ∃ as, Visit x p (visit p x) as)
    (hp : p.nics.length ≤ b) :
    (scan (fun n => decide (b ≤ n)) visit p xs).nics.length ≤ b := by
  refine scan_invariant (I := fun p => p.nics.length ≤ b) hp fun p x _ hless => ?_
  obtain ⟨as, has⟩ := hvisit p x
  have hone : (winner as).toList.length ≤ 1 := by cases winner as <;> simp
  have hlt : p.nics.length < b := by simpa using hless
  rw [has.nics, List.length_append]
  omega

end

/-! ### First successful driver wins -/

/-- The calls of a bus: device `i` was tried as `visits[i]` says. -/
structure FirstWins (drvs : List (Driver σ ν τ)) (xs : List τ)
    (visits : List (List (Attempt σ ν τ))) : Prop where
  le : visits.length ≤ xs.length
  tried : ∀ (i : ℕ) x attempts, xs[i]? = some x → visits[i]? = some attempts →
    Tried drvs x attempts

theorem Scanned.firstWins {reached : ℕ → Bool} {drvs : List (Driver σ ν τ)} {xs : List τ}
    {p q : Loop σ ν τ} {vs : List (List (Attempt σ ν τ))}
    (h : Scanned reached (Tried drvs) xs p q vs) : FirstWins drvs xs vs := by
  have hlen := h.tried.length_eq
  rw [List.length_take] at hlen
  refine ⟨by omega, fun i x attempts hx hv => ?_⟩
  have hi : i < vs.length := (List.getElem?_eq_some_iff.mp hv).1
  have hx' : (xs.take vs.length)[i]? = some x := by rw [List.getElem?_take_of_lt hi, hx]
  obtain ⟨hi', rfl⟩ := List.getElem?_eq_some_iff.mp hx'
  obtain ⟨-, rfl⟩ := List.getElem?_eq_some_iff.mp hv
  exact List.forall₂_iff_get.mp h.tried |>.2 i hi' hi

section

variable {registry : DriverRegistry σ ν} {offersOf : σ → List ChannelOffer} {ctx : σ}
  {devs : List PciDevice}

/-- With distinct addresses no function is skipped. -/
theorem pciLoop_scanned (reached : ℕ → Bool) (registry : DriverRegistry σ ν) (ctx : σ)
    (h : (devs.map PciDevice.key).Nodup) :
    ∃ vs, Scanned reached (Tried registry.pci) devs ⟨ctx, [], [], []⟩
      (pciLoop reached registry ctx devs) vs := by
  refine scan_visits (I := fun p xs => (xs.map PciDevice.key).Nodup ∧ ∀ x ∈ xs, x.key ∉ p.claimed)
    ⟨h, fun _ _ => List.not_mem_nil⟩ ?_
  rintro p x xs ⟨hnodup, hfree⟩
  rw [List.map_cons, List.nodup_cons] at hnodup
  obtain ⟨hvisit, hclaimed⟩ := visitPci_of_not_claimed registry.pci (hfree x List.mem_cons_self)
  refine ⟨⟨hnodup.2, fun y hy hmem => ?_⟩, hvisit⟩
  rcases hclaimed _ hmem with heq | hmem
  · exact hnodup.1 (heq ▸ List.mem_map_of_mem hy)
  · exact hfree y (List.mem_cons_of_mem x hy) hmem

theorem vmbusLoop_scanned (reached : ℕ → Bool) (registry : DriverRegistry σ ν) (ctx : σ)
    (nics : List (ProbedNic ν)) (offers : List ChannelOffer) :
    ∃ vs, Scanned reached (Tried registry.vmbus) offers ⟨ctx, nics, [], []⟩
      (vmbusLoop reached registry ctx nics offers) vs :=
  scan_visits (I := fun _ _ => True) trivial fun p x _ _ =>
    ⟨trivial, visitVmBus_visit registry.vmbus p x⟩

theorem visitPci_visits (drvs : List (Driver σ ν PciDevice)) (p : Loop σ ν PciDevice)
    (dev : PciDevice) : ∃ as, Visit dev p (visitPci drvs p dev) as := by
  obtain ⟨as, -, has⟩ := visitPci_visit drvs p dev
  exact ⟨as, has⟩

theorem visitVmBus_visits (drvs : List (Driver σ ν ChannelOffer)) (p : Loop σ ν ChannelOffer)
    (offer : ChannelOffer) : ∃ as, Visit offer p (visitVmBus drvs p offer) as := by
  obtain ⟨as, -, has⟩ := visitVmBus_visit drvs p offer
  exact ⟨as, has⟩

theorem length_nics_probeAll_le (registry : DriverRegistry σ ν) (offersOf : σ → List ChannelOffer)
    (ctx : σ) (devs : List PciDevice) :
    (probeAll registry offersOf ctx devs).nics.length ≤ probeBudget := by
  have hpci : (pciLoop budgetReached registry ctx devs).nics.length ≤ probeBudget :=
    length_nics_scan_le (visitPci_visits registry.pci) (Nat.zero_le _)
  exact length_nics_scan_le (visitVmBus_visits registry.vmbus) hpci

/-- The NICs of a run from the context `ctx`, with the devices and drivers they come
from. -/
structure Selected (registry : DriverRegistry σ ν) (offersOf : σ → List ChannelOffer) (ctx : σ)
    (devs : List PciDevice) (r : Probed σ ν) : Prop where
  atMost : r.nics.length ≤ probeBudget
  /-- One NIC for each device with a call that succeeded: PCI before VMBus, in the order
  of enumeration. -/
  nics : r.nics = r.pciVisits.filterMap winner ++ r.vmbusVisits.filterMap winner
  pci : FirstWins registry.pci devs r.pciVisits
  vmbus : FirstWins registry.vmbus r.offers r.vmbusVisits
  /-- A function that was not visited comes after the budget was reached. -/
  pciRest : r.pciVisits.length < devs.length →
    probeBudget ≤ (r.pciVisits.filterMap winner).length
  vmbusRest : r.vmbusVisits.length < r.offers.length → probeBudget ≤ r.nics.length
  /-- The probes of the PCI functions lead to a context from which the offers are
  enumerated, and the probes of the offers go on from there. -/
  threaded : ∃ mid, Threaded ctx devs r.pciVisits mid ∧ r.offers = offersOf mid ∧
    Threaded mid r.offers r.vmbusVisits r.ctx

/-- **The first successful driver wins, and each device is claimed once.**  For all
drivers, contexts and offers and all PCI functions with distinct addresses. -/
theorem probeAll_firstWins (registry : DriverRegistry σ ν) (offersOf : σ → List ChannelOffer)
    (ctx : σ) (h : (devs.map PciDevice.key).Nodup) :
    Selected registry offersOf ctx devs (probeAll registry offersOf ctx devs) := by
  obtain ⟨vs, hvs⟩ := pciLoop_scanned budgetReached registry ctx h
  -- the second loop goes on from the context and the NICs of the first
  obtain ⟨ws, hws⟩ := vmbusLoop_scanned budgetReached registry
    (pciLoop budgetReached registry ctx devs).ctx (pciLoop budgetReached registry ctx devs).nics
    (offersOf (pciLoop budgetReached registry ctx devs).ctx)
  have hpciVisits : (probeAll registry offersOf ctx devs).pciVisits = vs := hvs.visits
  have hvmbusVisits : (probeAll registry offersOf ctx devs).vmbusVisits = ws := hws.visits
  have hpciNics : (pciLoop budgetReached registry ctx devs).nics = vs.filterMap winner := hvs.nics
  have hnics : (probeAll registry offersOf ctx devs).nics =
      vs.filterMap winner ++ ws.filterMap winner := by
    rw [← hpciNics]
    exact hws.nics
  refine ⟨length_nics_probeAll_le registry offersOf ctx devs, ?_, ?_, ?_, ?_, ?_,
    (pciLoop budgetReached registry ctx devs).ctx, ?_, rfl, ?_⟩
  · rw [hpciVisits, hvmbusVisits, hnics]
  · rw [hpciVisits]
    exact hvs.firstWins
  · rw [hvmbusVisits]
    exact hws.firstWins
  · intro hlt
    rw [hpciVisits] at hlt ⊢
    rw [← hpciNics]
    exact of_decide_eq_true (hvs.stopped hlt)
  · intro hlt
    rw [hvmbusVisits] at hlt
    exact of_decide_eq_true (hws.stopped hlt)
  · rw [hpciVisits]
    exact hvs.threaded
  · rw [hvmbusVisits]
    exact hws.threaded

/-- Two drivers for each bus, which count their calls in the context.  The first PCI driver
fails on device 1, the first VMBus driver on the relid 1, and the VMBus drivers match
NetVSC offers only. -/
def twoDrivers : DriverRegistry ℕ ℕ where
  pci := [⟨"first", 20, fun _ => true, fun dev ctx =>
      (ctx + 1, if dev.dev = 1 then .error .noFreeVector else .ok 1)⟩,
    ⟨"second", 30, fun _ => true, fun _ ctx => (ctx + 1, .ok 2)⟩]
  vmbus := [⟨"third", 5, fun offer => offer.deviceType = netvscGuid, fun offer ctx =>
      (ctx + 1, if offer.childRelid = 1 then .error .dmaAlloc else .ok 3)⟩,
    ⟨"fourth", 6, fun offer => offer.deviceType = netvscGuid, fun _ ctx => (ctx + 1, .ok 4)⟩]

/-- A type that no driver matches. -/
def otherGuid : Guid := ⟨0, 0, 0, []⟩

/-- The offers that are there after three calls. -/
def offersAfterThree (ctx : ℕ) : List ChannelOffer :=
  if ctx = 3 then [⟨otherGuid, 9⟩, ⟨netvscGuid, 1⟩, ⟨netvscGuid, 2⟩] else []

/-- The second driver gets the function and the offer that the first cannot bring up. -/
theorem probeAll_firstWins_twoDrivers : ∃ r : Probed ℕ ℕ,
    r = probeAll twoDrivers offersAfterThree 0
      [⟨0, 1, 0, 0x8086, 0x100E⟩, ⟨0, 2, 0, 0x8086, 0x100E⟩] ∧
    r.nics = [⟨2, 30, "second"⟩, ⟨1, 20, "first"⟩, ⟨4, 6, "fourth"⟩, ⟨3, 5, "third"⟩] ∧
    r.offers.length = 3 ∧ r.vmbusVisits.map List.length = [0, 2, 1] ∧ r.ctx = 6 ∧
    Selected twoDrivers offersAfterThree 0
      [⟨0, 1, 0, 0x8086, 0x100E⟩, ⟨0, 2, 0, 0x8086, 0x100E⟩] r :=
  ⟨_, rfl, by decide, by decide, by decide, by decide,
    probeAll_firstWins twoDrivers _ _ (by decide)⟩

/-! ### The number of probes -/

/-- Before each of the calls, fewer than `b` had succeeded. -/
def WithinBudget (b : ℕ) (calls : List Bool) : Prop :=
  ∀ k < calls.length, (calls.take k).count true < b

/-- Calls of which only the last succeeds may follow while the budget is not used up. -/
theorem WithinBudget.append {b : ℕ} {calls more : List Bool} (h : WithinBudget b calls)
    (hless : calls.count true < b) (hmore : ∀ ok ∈ more.dropLast, ok = false) :
    WithinBudget b (calls ++ more) := by
  intro k hk
  rcases Nat.lt_or_ge k calls.length with hlt | hge
  · rw [List.take_append_of_le_length (Nat.le_of_lt hlt)]
    exact h k hlt
  · obtain ⟨j, rfl⟩ := Nat.exists_eq_add_of_le hge
    rw [List.length_append] at hk
    -- the calls of `more` before the last have failed
    have hzero : (more.take j).count true = 0 := by
      rw [List.count_eq_zero]
      intro hmem
      have hsub : more.take j <+: more.dropLast := by
        rw [List.dropLast_eq_take]
        exact List.take_prefix_take_left (by omega)
      exact absurd (hmore true (hsub.subset hmem)) (by simp)
    rw [List.take_length_add_append, List.count_append, hzero]
    exact hless

/-- A call that succeeds is the last. -/
theorem probes_le_iff {b : ℕ} {calls all : List Bool} (hfirst : calls <+: all)
    (hbudget : WithinBudget b calls) (hstop : calls = all ∨ b ≤ calls.count true) :
    calls.length ≤ b ↔ all.length ≤ b ∨ ∀ ok ∈ all.take b, ok = true := by
  have hcount := List.count_le_length (a := true) (l := calls)
  constructor
  · intro hle
    rcases hstop with rfl | hreached
    · exact .inl hle
    · -- all calls were made and succeeded
      right
      have hlen : calls.length = b := by omega
      have htake := List.prefix_iff_eq_take.mp hfirst
      rw [hlen] at htake
      rw [← htake]
      exact fun ok hok => (List.count_eq_length.mp (by omega) ok hok).symm
  · rintro (hle | hall)
    · exact Nat.le_trans hfirst.length_le hle
    · by_contra hlt
      have hk : b < calls.length := by omega
      have htake : calls.take b = all.take b := by
        obtain ⟨rest, rfl⟩ := hfirst
        rw [List.take_append_of_le_length (by omega)]
      have hcount : (all.take b).count true = (all.take b).length :=
        List.count_eq_length.mpr fun ok hok => (hall ok hok).symm
      have hless := hbudget b hk
      rw [htake, hcount, List.length_take] at hless
      have := hfirst.length_le
      omega

/-- The calls of a loop, in order. -/
def Loop.calls (p : Loop σ ν τ) : List Bool := p.visits.flatten.map Attempt.succeeded

/-- The NICs of a device are its successful calls. -/
theorem count_succeeded {attempts : List (Attempt σ ν τ)} (h : OnlyLast attempts) :
    (attempts.map Attempt.succeeded).count true = (winner attempts).toList.length := by
  rcases List.eq_nil_or_concat attempts with rfl | ⟨init, a, rfl⟩
  · rfl
  · have hinit : (init.map Attempt.succeeded).count true = 0 := by
      rw [List.count_eq_zero]
      intro hmem
      obtain ⟨b, hb, hok⟩ := List.mem_map.mp hmem
      have hfail := h b (by rw [List.concat_eq_append, List.dropLast_concat]; exact hb)
      exact absurd (hok.symm.trans hfail) (by simp)
    rw [List.concat_eq_append, List.map_append, List.count_append, hinit, winner,
      List.getLast?_concat, Option.bind_some]
    cases hresult : a.result with
    | ok nic => simp [Attempt.succeeded, Attempt.nic, hresult, Except.toBool, Except.toOption]
    | error e => simp [Attempt.succeeded, Attempt.nic, hresult, Except.toBool, Except.toOption]

theorem Visit.calls {x : τ} {p q : Loop σ ν τ} {attempts : List (Attempt σ ν τ)}
    (h : Visit x p q attempts) : q.calls = p.calls ++ attempts.map Attempt.succeeded := by
  rw [Loop.calls, h.visits, List.flatten_append, List.map_append, List.flatten_singleton,
    Loop.calls]

/-- The loop makes no call once the budget is used up; `before` are the calls made
before the loop. -/
theorem scan_withinBudget {b : ℕ} {visit : Loop σ ν τ → τ → Loop σ ν τ} {xs : List τ}
    {p : Loop σ ν τ} (before : List Bool)
    (hvisit : ∀ p x, ∃ as, OnlyLast as ∧ Visit x p (visit p x) as)
    (hp : WithinBudget b (before ++ p.calls) ∧ (before ++ p.calls).count true = p.nics.length) :
    WithinBudget b (before ++ (scan (fun n => decide (b ≤ n)) visit p xs).calls) ∧
      (before ++ (scan (fun n => decide (b ≤ n)) visit p xs).calls).count true =
        (scan (fun n => decide (b ≤ n)) visit p xs).nics.length := by
  refine scan_invariant (I := fun p => WithinBudget b (before ++ p.calls) ∧
    (before ++ p.calls).count true = p.nics.length) hp fun p x hp hless => ?_
  obtain ⟨as, honly, has⟩ := hvisit p x
  have hlt : p.nics.length < b := by simpa using hless
  rw [has.calls, ← List.append_assoc]
  constructor
  · refine hp.1.append (by omega) fun ok hok => ?_
    rw [← List.map_dropLast] at hok
    obtain ⟨a, ha, rfl⟩ := List.mem_map.mp hok
    exact honly a ha
  · rw [List.count_append, hp.2, count_succeeded honly, has.nics, List.length_append]

/-- The calls of both loops never exceed the budget of successes. -/
theorem probes_withinBudget (registry : DriverRegistry σ ν) (offersOf : σ → List ChannelOffer)
    (ctx : σ) (devs : List PciDevice) :
    WithinBudget probeBudget (probeAll registry offersOf ctx devs).probes ∧
      (probeAll registry offersOf ctx devs).probes.count true =
        (probeAll registry offersOf ctx devs).nics.length := by
  have hpci : WithinBudget probeBudget ([] ++ (pciLoop budgetReached registry ctx devs).calls) ∧
      ([] ++ (pciLoop budgetReached registry ctx devs).calls).count true =
        (pciLoop budgetReached registry ctx devs).nics.length :=
    scan_withinBudget [] (visitPci_visit registry.pci) ⟨by simp [WithinBudget, Loop.calls], rfl⟩
  rw [List.nil_append] at hpci
  refine scan_withinBudget _ (fun p x => ?_) ?_
  · obtain ⟨as, htried, has⟩ := visitVmBus_visit registry.vmbus p x
    exact ⟨as, htried.onlyLast, has⟩
  · show WithinBudget _ (_ ++ []) ∧ (_ ++ []).count true = _
    rw [List.append_nil]
    exact hpci

theorem calls_mono {p q : Loop σ ν τ} (h : p.visits <+: q.visits) : p.calls <+: q.calls := by
  obtain ⟨rest, hrest⟩ := h
  rw [Loop.calls, Loop.calls, ← hrest, List.flatten_append, List.map_append]
  exact List.prefix_append _ _

/-! ### All probes that the devices ask for -/

/-- Call these drivers for `x` one after the other: whether the calls succeed, and the
contexts that they leave. -/
def results (x : τ) : σ → List (Driver σ ν τ) → List (Bool × σ)
  | _, [] => []
  | ctx, drv :: drvs =>
      ((drv.probe x ctx).2.toBool, (drv.probe x ctx).1) :: results x (drv.probe x ctx).1 drvs

/-- The results up to the first success. -/
def upToSuccess : List (Bool × σ) → List (Bool × σ)
  | [] => []
  | r :: rs => if r.1 then [r] else r :: upToSuccess rs

/-- What the matching drivers make of `x`. -/
def trialsOn (drvs : List (Driver σ ν τ)) (ctx : σ) (x : τ) : List (Bool × σ) :=
  upToSuccess (results x ctx (drvs.filter fun drv => drv.accepts x))

/-- The context that these results leave. -/
def lastContext (ctx : σ) (rs : List (Bool × σ)) : σ := rs.foldl (fun _ r => r.2) ctx

/-- The results for all offers. -/
def vmbusTrials (drvs : List (Driver σ ν ChannelOffer)) :
    σ → List ChannelOffer → List (Bool × σ)
  | _, [] => []
  | ctx, offer :: offers =>
      trialsOn drvs ctx offer ++
        vmbusTrials drvs (lastContext ctx (trialsOn drvs ctx offer)) offers

/-- The results for all functions, but for those at an address that is claimed. -/
def pciTrials (drvs : List (Driver σ ν PciDevice)) :
    List (UInt8 × UInt8 × UInt8) → σ → List PciDevice → List (Bool × σ)
  | _, _, [] => []
  | claimed, ctx, dev :: devs =>
      if claimed.contains dev.key then pciTrials drvs claimed ctx devs
      else
        let rs := trialsOn drvs ctx dev
        let claimed := if (rs.map Prod.fst).contains true then dev.key :: claimed else claimed
        rs ++ pciTrials drvs claimed (lastContext ctx rs) devs

/-- The calls that all devices together ask for: for each of them the matching drivers in
the order of registration, up to the first success. -/
def trials (registry : DriverRegistry σ ν) (offersOf : σ → List ChannelOffer) (ctx : σ)
    (devs : List PciDevice) : List Bool :=
  let pci := pciTrials registry.pci [] ctx devs
  let mid := lastContext ctx pci
  (pci ++ vmbusTrials registry.vmbus mid (offersOf mid)).map Prod.fst

theorem lastContext_append (ctx : σ) (rs rs' : List (Bool × σ)) :
    lastContext ctx (rs ++ rs') = lastContext (lastContext ctx rs) rs' :=
  List.foldl_append

/-- The loop over the drivers makes the calls that its device asks for. -/
theorem tryDrivers_trialsOn (x : τ) (drvs : List (Driver σ ν τ)) (ctx : σ) :
    (tryDrivers x drvs ctx).2.2.map Attempt.succeeded = (trialsOn drvs ctx x).map Prod.fst ∧
      (tryDrivers x drvs ctx).1 = lastContext ctx (trialsOn drvs ctx x) ∧
      (tryDrivers x drvs ctx).2.1.isSome = ((trialsOn drvs ctx x).map Prod.fst).contains true := by
  induction drvs generalizing ctx with
  | nil => exact ⟨rfl, rfl, rfl⟩
  | cons drv drvs ih =>
    rw [tryDrivers, trialsOn]
    by_cases hyes : drv.accepts x = true
    · rw [if_pos hyes, List.filter_cons, if_pos hyes, results, upToSuccess]
      obtain ⟨hcalls, hctx, hsome⟩ := ih (drv.probe x ctx).1
      split
      · -- a success ends both
        rename_i ctx' nic hprobe
        simp [hprobe, Attempt.succeeded, Except.toBool, lastContext]
      · rename_i ctx' e hprobe
        rw [trialsOn] at hcalls hctx hsome
        rw [hprobe] at hcalls hctx hsome ⊢
        rw [if_neg (by simp [Except.toBool])]
        refine ⟨?_, hctx, ?_⟩
        · rw [List.map_cons, List.map_cons, hcalls]
          rfl
        · rw [List.map_cons, hsome]
          rfl
    · rw [if_neg hyes, List.filter_cons, if_neg hyes]
      exact ih ctx

/-- A visit makes the calls that its function asks for, and claims it if one succeeds. -/
theorem visitPci_trialsOn (drvs : List (Driver σ ν PciDevice)) {p : Loop σ ν PciDevice}
    {dev : PciDevice} (h : ¬ p.claimed.contains dev.key = true) :
    (visitPci drvs p dev).calls = p.calls ++ (trialsOn drvs p.ctx dev).map Prod.fst ∧
      (visitPci drvs p dev).ctx = lastContext p.ctx (trialsOn drvs p.ctx dev) ∧
      (visitPci drvs p dev).claimed =
        if ((trialsOn drvs p.ctx dev).map Prod.fst).contains true then dev.key :: p.claimed
        else p.claimed := by
  obtain ⟨hcalls, hctx, hsome⟩ := tryDrivers_trialsOn dev drvs p.ctx
  unfold visitPci
  rw [if_neg h, ← hsome, ← hctx, ← hcalls]
  dsimp only [Loop.tryDevice]
  cases (tryDrivers dev drvs p.ctx).2.1.isSome <;> simp [Loop.calls]

/-- The loop without a budget makes the calls of all functions. -/
theorem scan_pciTrials (drvs : List (Driver σ ν PciDevice)) (devs : List PciDevice)
    (p : Loop σ ν PciDevice) :
    (scan (fun _ => false) (visitPci drvs) p devs).calls =
        p.calls ++ (pciTrials drvs p.claimed p.ctx devs).map Prod.fst ∧
      (scan (fun _ => false) (visitPci drvs) p devs).ctx =
        lastContext p.ctx (pciTrials drvs p.claimed p.ctx devs) := by
  induction devs generalizing p with
  | nil => exact ⟨(List.append_nil _).symm, rfl⟩
  | cons dev devs ih =>
    rw [scan, if_neg Bool.false_ne_true]
    obtain ⟨hcalls, hctx⟩ := ih (visitPci drvs p dev)
    rw [hcalls, hctx, pciTrials]
    by_cases hmem : p.claimed.contains dev.key = true
    · rw [if_pos hmem]
      simp only [visitPci, if_pos hmem, Loop.calls, List.flatten_append, List.flatten_singleton,
        List.append_nil]
      exact ⟨trivial, trivial⟩
    · obtain ⟨hvisit, hmid, hclaimed⟩ := visitPci_trialsOn drvs hmem
      rw [if_neg hmem, hvisit, hmid, hclaimed]
      dsimp only
      rw [lastContext_append, List.map_append, List.append_assoc]
      exact ⟨rfl, rfl⟩

theorem scan_vmbusTrials (drvs : List (Driver σ ν ChannelOffer)) (offers : List ChannelOffer)
    (p : Loop σ ν ChannelOffer) :
    (scan (fun _ => false) (visitVmBus drvs) p offers).calls =
      p.calls ++ (vmbusTrials drvs p.ctx offers).map Prod.fst := by
  induction offers generalizing p with
  | nil => exact (List.append_nil _).symm
  | cons offer offers ih =>
    obtain ⟨hdev, hmid, -⟩ := tryDrivers_trialsOn offer drvs p.ctx
    have hctx : (visitVmBus drvs p offer).ctx = lastContext p.ctx (trialsOn drvs p.ctx offer) :=
      hmid
    have hcalls : (visitVmBus drvs p offer).calls =
        p.calls ++ (trialsOn drvs p.ctx offer).map Prod.fst := by
      rw [← hdev]
      simp [visitVmBus, Loop.tryDevice, Loop.calls]
    rw [scan, if_neg Bool.false_ne_true, ih, hctx, hcalls, vmbusTrials, List.map_append,
      List.append_assoc]

/-- **The loops without a budget make all of these calls.** -/
theorem probes_unlimited (registry : DriverRegistry σ ν) (offersOf : σ → List ChannelOffer)
    (ctx : σ) (devs : List PciDevice) :
    (probeLoops (fun _ => false) registry offersOf ctx devs).probes =
      trials registry offersOf ctx devs := by
  obtain ⟨hpci, hmid⟩ := scan_pciTrials registry.pci devs (⟨ctx, [], [], []⟩ : Loop σ ν PciDevice)
  have hpci' : (pciLoop (fun _ => false) registry ctx devs).calls =
      (pciTrials registry.pci [] ctx devs).map Prod.fst := hpci
  have hmid' : (pciLoop (fun _ => false) registry ctx devs).ctx =
      lastContext ctx (pciTrials registry.pci [] ctx devs) := hmid
  have hvmbus : ∀ mid nics offers, (vmbusLoop (fun _ => false) registry mid nics offers).calls =
      (vmbusTrials registry.vmbus mid offers).map Prod.fst :=
    fun mid nics offers => scan_vmbusTrials registry.vmbus offers ⟨mid, nics, [], []⟩
  show (pciLoop _ registry ctx devs).calls ++ (vmbusLoop _ registry _ _ _).calls = _
  rw [hpci', hvmbus, hmid', trials, List.map_append]

/-- `probe_all` makes these calls, all of them unless the budget is used up. -/
theorem probes_prefix_trials (registry : DriverRegistry σ ν) (offersOf : σ → List ChannelOffer)
    (ctx : σ) (devs : List PciDevice) :
    (probeAll registry offersOf ctx devs).probes <+: trials registry offersOf ctx devs ∧
      ((probeAll registry offersOf ctx devs).probes = trials registry offersOf ctx devs ∨
        probeBudget ≤ (probeAll registry offersOf ctx devs).nics.length) := by
  have hpci : pciLoop budgetReached registry ctx devs =
        pciLoop (fun _ => false) registry ctx devs ∨
      budgetReached (pciLoop budgetReached registry ctx devs).nics.length = true ∧
        (pciLoop budgetReached registry ctx devs).visits <+:
          (pciLoop (fun _ => false) registry ctx devs).visits :=
    scan_eq_or_reached (visitPci_visits registry.pci)
  have hvmbus : ∀ ctx nics offers, vmbusLoop budgetReached registry ctx nics offers =
        vmbusLoop (fun _ => false) registry ctx nics offers ∨
      budgetReached (vmbusLoop budgetReached registry ctx nics offers).nics.length = true ∧
        (vmbusLoop budgetReached registry ctx nics offers).visits <+:
          (vmbusLoop (fun _ => false) registry ctx nics offers).visits :=
    fun ctx nics offers => scan_eq_or_reached (visitVmBus_visits registry.vmbus)
  rw [← probes_unlimited]
  rcases hpci with heq | ⟨hreached, hvisits⟩
  · -- the PCI loops agree, so the VMBus loops start alike
    unfold probeAll probeLoops
    dsimp only
    rw [heq]
    rcases hvmbus (pciLoop (fun _ => false) registry ctx devs).ctx
      (pciLoop (fun _ => false) registry ctx devs).nics
      (offersOf (pciLoop (fun _ => false) registry ctx devs).ctx) with heq' | ⟨hreached, hvisits⟩
    · rw [heq']
      exact ⟨List.prefix_rfl, .inl rfl⟩
    · exact ⟨(List.prefix_append_right_inj _).mpr (calls_mono hvisits),
        .inr (of_decide_eq_true hreached)⟩
  · -- the PCI loop used the budget up, and the VMBus loop makes no call
    have hnone : vmbusLoop budgetReached registry (pciLoop budgetReached registry ctx devs).ctx
        (pciLoop budgetReached registry ctx devs).nics
        (offersOf (pciLoop budgetReached registry ctx devs).ctx) =
        ⟨(pciLoop budgetReached registry ctx devs).ctx,
          (pciLoop budgetReached registry ctx devs).nics, [], []⟩ :=
      scan_of_reached hreached
    unfold probeAll probeLoops
    dsimp only
    rw [hnone]
    refine ⟨?_, .inr (of_decide_eq_true hreached)⟩
    show _ ++ [] <+: _
    rw [List.append_nil]
    exact (calls_mono hvisits).trans (List.prefix_append _ _)

/-- **`probe_all` stays within `PROBE_BUDGET` probes** exactly if the devices ask for no
more calls than that, or the first `PROBE_BUDGET` of these calls all succeed. -/
theorem probes_le_budget_iff (registry : DriverRegistry σ ν) (offersOf : σ → List ChannelOffer)
    (ctx : σ) (devs : List PciDevice) :
    (probeAll registry offersOf ctx devs).probes.length ≤ probeBudget ↔
      (trials registry offersOf ctx devs).length ≤ probeBudget ∨
        ∀ ok ∈ (trials registry offersOf ctx devs).take probeBudget, ok = true := by
  obtain ⟨hfirst, hstop⟩ := probes_prefix_trials registry offersOf ctx devs
  obtain ⟨hbudget, hcount⟩ := probes_withinBudget registry offersOf ctx devs
  rw [← hcount] at hstop
  exact probes_le_iff hfirst hbudget hstop

end

/-! ### Failing drivers -/

/-- A driver that matches everything and fails. -/
def failing (τ : Type) : Driver Unit Unit τ :=
  ⟨"failing", 0, fun _ => true, fun _ ctx => (ctx, .error .dmaAlloc)⟩

theorem vmbusLoop_failing {offers : List ChannelOffer} {p : Loop Unit Unit ChannelOffer}
    (h : p.nics = []) :
    (scan budgetReached (visitVmBus [failing ChannelOffer]) p offers).calls =
      p.calls ++ List.replicate offers.length false := by
  induction offers generalizing p with
  | nil => simp [scan]
  | cons offer offers ih =>
    have hnics : (visitVmBus [failing ChannelOffer] p offer).nics = [] := by
      simp [visitVmBus, Loop.tryDevice, tryDrivers, failing, h]
    rw [scan, h, if_neg (by decide), ih hnics]
    simp [visitVmBus, Loop.tryDevice, tryDrivers, failing, Loop.calls, Attempt.succeeded,
      Except.toBool, List.replicate_succ]

/-- **Failing probes are not counted**: with a driver that fails, every offer is probed,
however many there are. -/
theorem failing_probes_unbounded (n : ℕ) :
    (probeAll ⟨[], [failing ChannelOffer]⟩ (fun _ => List.replicate n ⟨netvscGuid, 1⟩) ()
      []).probes = List.replicate n false := by
  show [] ++ (vmbusLoop budgetReached ⟨[], [failing ChannelOffer]⟩ () [] _).calls = _
  rw [vmbusLoop, vmbusLoop_failing rfl]
  simp [Loop.calls]

/-- Five offers, a driver that fails on each: five calls, with a budget of four. -/
theorem five_failing_probes :
    probeBudget < (probeAll ⟨[], [failing ChannelOffer]⟩
      (fun _ => List.replicate 5 ⟨netvscGuid, 1⟩) () []).probes.length := by
  rw [failing_probes_unbounded]
  decide

/-! ### The drivers of the tree -/

section

variable (host : ℕ → Handshake)

/-- The name of a driver as a text. -/
def nameText : DriverName → String
  | .e1000 => "e1000"
  | .tulip => "tulip"
  | .netvsc => "netvsc"

def ofPciDriver (drv : PciDriver) : Driver ProbeCtx Nic PciDevice :=
  ⟨nameText drv.name, UInt8.ofNat drv.priority, drv.accepts, drv.probe⟩

def ofVmBusDriver (drv : VmBusDriver) : Driver ProbeCtx Nic ChannelOffer :=
  ⟨nameText drv.name, UInt8.ofNat drv.priority, drv.accepts, drv.probe host⟩

def ofRegistry (registry : Boot.DriverRegistry) : DriverRegistry ProbeCtx Nic :=
  ⟨registry.pci.map ofPciDriver, registry.vmbus.map (ofVmBusDriver host)⟩

def ofNic (nic : Boot.ProbedNic) : ProbedNic Nic :=
  ⟨nic.driver, UInt8.ofNat nic.priority, nameText nic.name⟩

/-- `VmBusEnum(vmbus).enumerate()`, if there is a bus. -/
def contextOffers (ctx : ProbeCtx) : List ChannelOffer :=
  match ctx.vmbus with
  | some vmbus => vmbus.offers
  | none => []

/-- The same context and the same NICs. -/
structure Same (p : Boot.Probing) (q : Loop ProbeCtx Nic τ) : Prop where
  ctx : q.ctx = p.ctx
  nics : q.nics = p.nics.map ofNic

variable {host}

theorem scan_same {visit : Boot.Probing → τ → Boot.Probing}
    {visit' : Loop ProbeCtx Nic τ → τ → Loop ProbeCtx Nic τ}
    {R : Boot.Probing → Loop ProbeCtx Nic τ → Prop}
    (hR : ∀ p q, R p q → Same p q) (hstep : ∀ p q x, R p q → R (visit p x) (visit' q x))
    {xs : List τ} {p : Boot.Probing} {q : Loop ProbeCtx Nic τ} (h : R p q) :
    R (Boot.scan visit p xs) (scan budgetReached visit' q xs) := by
  induction xs generalizing p q with
  | nil => exact h
  | cons x xs ih =>
    have hlen : q.nics.length = p.nics.length := by rw [(hR p q h).nics, List.length_map]
    rw [Boot.scan, scan, hlen]
    by_cases hreached : probeBudget ≤ p.nics.length
    · rw [if_pos hreached, if_pos (by simpa [budgetReached] using hreached)]
      exact h
    · rw [if_neg hreached, if_neg (by simpa [budgetReached] using hreached)]
      exact ih (hstep p q x h)

/-- Trying the drivers of the tree on a device. -/
theorem tryDrivers_same {δ : Type} {accepts : δ → Bool}
    {probe : δ → ProbeCtx → ProbeCtx × Except ProbeError Nic}
    {wrap : δ → Nic → Boot.ProbedNic} {of : δ → Driver ProbeCtx Nic τ} {x : τ}
    (haccepts : ∀ d, (of d).accepts x = accepts d) (hprobe : ∀ d, (of d).probe x = probe d)
    (hwrap : ∀ d nic, ofNic (wrap d nic) = ⟨nic, (of d).priority, (of d).name⟩)
    (drvs : List δ) (p : Boot.Probing) :
    (Boot.tryDrivers accepts probe wrap drvs p).1.ctx = (tryDrivers x (drvs.map of) p.ctx).1 ∧
      (Boot.tryDrivers accepts probe wrap drvs p).1.nics.map ofNic =
        p.nics.map ofNic ++ (tryDrivers x (drvs.map of) p.ctx).2.1.toList ∧
      (Boot.tryDrivers accepts probe wrap drvs p).1.claimed = p.claimed ∧
      (Boot.tryDrivers accepts probe wrap drvs p).2 =
        (tryDrivers x (drvs.map of) p.ctx).2.1.isSome := by
  induction drvs generalizing p with
  | nil => exact ⟨rfl, (List.append_nil _).symm, rfl, rfl⟩
  | cons d drvs ih =>
    rw [Boot.tryDrivers, List.map_cons, tryDrivers, haccepts, hprobe]
    by_cases hyes : accepts d = true
    · rw [if_pos hyes, if_pos hyes]
      rcases hresult : probe d p.ctx with ⟨ctx', e | nic⟩
      · exact ih { p with ctx := ctx' }
      · refine ⟨rfl, ?_, rfl, rfl⟩
        rw [List.map_append, List.map_singleton, hwrap]
        rfl
    · rw [if_neg hyes, if_neg hyes]
      exact ih p

theorem tryDevice_same {δ : Type} {accepts : δ → Bool}
    {probe : δ → ProbeCtx → ProbeCtx × Except ProbeError Nic}
    {wrap : δ → Nic → Boot.ProbedNic} {of : δ → Driver ProbeCtx Nic τ} {x : τ} {drvs : List δ}
    {p : Boot.Probing} {q : Loop ProbeCtx Nic τ}
    (haccepts : ∀ d, (of d).accepts x = accepts d) (hprobe : ∀ d, (of d).probe x = probe d)
    (hwrap : ∀ d nic, ofNic (wrap d nic) = ⟨nic, (of d).priority, (of d).name⟩) (h : Same p q) :
    Same (Boot.tryDrivers accepts probe wrap drvs p).1 (q.tryDevice (drvs.map of) x).1 ∧
      (Boot.tryDrivers accepts probe wrap drvs p).1.claimed = p.claimed ∧
      (Boot.tryDrivers accepts probe wrap drvs p).2 = (q.tryDevice (drvs.map of) x).2 := by
  obtain ⟨hctx, hnics, hclaimed, hsome⟩ := tryDrivers_same haccepts hprobe hwrap drvs p
  rw [← h.ctx] at hctx hnics hsome
  refine ⟨⟨hctx.symm, ?_⟩, hclaimed, hsome⟩
  rw [hnics, ← h.nics]
  rfl

/-- The PCI loops also agree on the addresses that are claimed. -/
def SamePci (p : Boot.Probing) (q : Loop ProbeCtx Nic PciDevice) : Prop :=
  Same p q ∧ q.claimed = p.claimed

theorem visitPci_same (drvs : List PciDriver) {p : Boot.Probing} {q : Loop ProbeCtx Nic PciDevice}
    (dev : PciDevice) (h : SamePci p q) :
    SamePci (Boot.visitPci drvs p dev) (visitPci (drvs.map ofPciDriver) q dev) := by
  obtain ⟨hsame, hclaimed⟩ := h
  have htry : Same (Boot.tryDrivers (fun drv => drv.accepts dev) (fun drv => drv.probe dev)
        (fun drv nic => ⟨nic, drv.priority, drv.name⟩) drvs p).1
        (q.tryDevice (drvs.map ofPciDriver) dev).1 ∧ _ :=
    tryDevice_same (fun _ => rfl) (fun _ => rfl) (fun _ _ => rfl) hsame
  obtain ⟨htry, hkept, hsome⟩ := htry
  unfold Boot.visitPci visitPci
  by_cases hmem : dev.key ∈ p.claimed
  · rw [if_pos hmem, if_pos (by simpa [hclaimed] using hmem)]
    exact ⟨⟨hsame.ctx, hsame.nics⟩, hclaimed⟩
  · rw [if_neg hmem, if_neg (by simpa [hclaimed] using hmem)]
    dsimp only
    rw [hsome]
    have hq : (q.tryDevice (drvs.map ofPciDriver) dev).1.claimed = q.claimed := rfl
    split_ifs
    · exact ⟨⟨htry.ctx, htry.nics⟩, by rw [hkept, hq, hclaimed]⟩
    · exact ⟨htry, by rw [hkept, hq, hclaimed]⟩

theorem visitVmBus_same (drvs : List VmBusDriver) {p : Boot.Probing}
    {q : Loop ProbeCtx Nic ChannelOffer} (offer : ChannelOffer) (h : Same p q) :
    Same (Boot.visitVmBus host drvs p offer)
      (visitVmBus (drvs.map (ofVmBusDriver host)) q offer) := by
  have htry : Same (Boot.tryDrivers (fun drv => drv.accepts offer)
        (fun drv => drv.probe host offer) (fun drv nic => ⟨nic, drv.priority, drv.name⟩) drvs p).1
        (q.tryDevice (drvs.map (ofVmBusDriver host)) offer).1 ∧ _ :=
    tryDevice_same (fun _ => rfl) (fun _ => rfl) (fun _ _ => rfl) h
  exact htry.1

/-- **The loop over the drivers of the tree is an instance of this one**: it leaves the
same context and the same NICs. -/
theorem probeAll_ofRegistry (host : ℕ → Handshake) (registry : Boot.DriverRegistry)
    (ctx : ProbeCtx) (devs : List PciDevice) :
    (probeAll (ofRegistry host registry) contextOffers ctx devs).ctx =
        (Boot.probeAll host registry ctx devs).ctx ∧
      (probeAll (ofRegistry host registry) contextOffers ctx devs).nics =
        (Boot.probeAll host registry ctx devs).nics.map ofNic := by
  have hpci : SamePci (Boot.scanPci registry ctx devs)
      (pciLoop budgetReached (ofRegistry host registry) ctx devs) :=
    scan_same (fun _ _ h => h.1) (fun p q x h => visitPci_same registry.pci x h)
      ⟨⟨rfl, rfl⟩, rfl⟩
  have hoffers : contextOffers (pciLoop budgetReached (ofRegistry host registry) ctx devs).ctx =
      contextOffers (Boot.scanPci registry ctx devs).ctx := by rw [hpci.1.ctx]
  have hvmbus : Same (Boot.probeAll host registry ctx devs)
      (vmbusLoop budgetReached (ofRegistry host registry)
        (pciLoop budgetReached (ofRegistry host registry) ctx devs).ctx
        (pciLoop budgetReached (ofRegistry host registry) ctx devs).nics
        (contextOffers (pciLoop budgetReached (ofRegistry host registry) ctx devs).ctx)) := by
    rw [hoffers]
    exact scan_same (fun _ _ h => h) (fun p q x h => visitVmBus_same registry.vmbus x h)
      ⟨hpci.1.ctx, hpci.1.nics⟩
  exact ⟨hvmbus.ctx, hvmbus.nics⟩

end

end Registry
