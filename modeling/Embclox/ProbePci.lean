/-
One device instance per static interrupt handler.

The handler of a PCI driver reaches the registers of its device through a static that
every probe overwrites, whether or not the probe succeeds.  The `break` of `probe_all`
ends the loop over the drivers, not that over the devices.

* `OneInstance` — one NIC for each PCI driver, whose base is the published one;
* `AllFresh` — no function is probed while its driver has a NIC;
* `oneInstance_iff_allFresh` — the first holds exactly when the second does;
* `second_e1000_replaces_first` — two e1000 functions come up as two NICs.
-/
import Embclox.Probe

namespace Boot

/-- The base that the handler of the NIC's driver reads is the NIC's own. -/
def Published (ctx : ProbeCtx) : Nic → Prop
  | .e1000 base => ctx.e1000RegsBase = base
  | .tulip csr => ctx.csrForIsr = some csr
  | .netvsc _ => True

structure OneInstance (p : Probing) : Prop where
  single : ∀ drv : PciDriver, p.nics.countP (fun n => n.name = drv.name) ≤ 1
  published : ∀ n ∈ p.nics, Published p.ctx n.driver

/-- No NIC of a driver that accepts `dev` is up. -/
def Fresh (drvs : List PciDriver) (p : Probing) (dev : PciDevice) : Prop :=
  ∀ drv ∈ drvs, drv.accepts dev = true → ∀ n ∈ p.nics, n.name ≠ drv.name

/-- No function is probed while its driver has a NIC. -/
def AllFresh (drvs : List PciDriver) : Probing → List PciDevice → Prop
  | _, [] => True
  | p, dev :: devs =>
      probeBudget ≤ p.nics.length ∨
        ((dev.key ∈ p.claimed ∨ Fresh drvs p dev) ∧ AllFresh drvs (visitPci drvs p dev) devs)

/-- No two functions decode the same I/O port. -/
def DistinctPorts (ctx : ProbeCtx) (devs : List PciDevice) : Prop :=
  devs.Pairwise fun a b => ctx.ioPort a = none ∨ ctx.ioPort b ≠ ctx.ioPort a

instance (drvs : List PciDriver) (p : Probing) (dev : PciDevice) : Decidable (Fresh drvs p dev) :=
  inferInstanceAs (Decidable (∀ drv ∈ drvs, _ → ∀ n ∈ p.nics, _))

instance decidableAllFresh (drvs : List PciDriver) :
    ∀ p devs, Decidable (AllFresh drvs p devs)
  | _, [] => isTrue trivial
  | p, dev :: devs =>
      have := decidableAllFresh drvs (visitPci drvs p dev) devs
      inferInstanceAs (Decidable (_ ∨ _ ∧ _))

instance (ctx : ProbeCtx) (devs : List PciDevice) : Decidable (DistinctPorts ctx devs) :=
  inferInstanceAs (Decidable (devs.Pairwise _))

/-! ### What a probe publishes -/

def Nic.name : Nic → DriverName
  | .e1000 _ => .e1000
  | .tulip _ => .tulip
  | .netvsc _ => .netvsc

/-- The NIC that a probe tries to bring up. -/
def PciDriver.candidate (drv : PciDriver) (dev : PciDevice) (ctx : ProbeCtx) : Nic :=
  match drv with
  | .e1000 => .e1000 ctx.nextVaddr
  | .tulip => .tulip (PciDriver.tulipAccess dev ctx).1

theorem name_candidate (drv : PciDriver) (dev : PciDevice) (ctx : ProbeCtx) :
    (drv.candidate dev ctx).name = drv.name := by
  cases drv with
  | e1000 => rfl
  | tulip => rfl

theorem PciDriver.name_ne_netvsc (drv : PciDriver) : drv.name ≠ .netvsc := by
  cases drv with
  | e1000 => decide
  | tulip => decide

theorem PciDriver.name_injective : Function.Injective PciDriver.name := by
  intro drv drv' h
  cases drv with
  | e1000 =>
    cases drv' with
    | e1000 => rfl
    | tulip => cases h
  | tulip =>
    cases drv' with
    | e1000 => cases h
    | tulip => rfl

/-- An interrupt may be wired or not; nothing else changes. -/
theorem installPciIsr_keeps (ctx : ProbeCtx) (line : UInt8) (handler : Handler) :
    (ctx.installPciIsr line handler).1.e1000RegsBase = ctx.e1000RegsBase ∧
    (ctx.installPciIsr line handler).1.csrForIsr = ctx.csrForIsr ∧
    (ctx.installPciIsr line handler).1.nextVaddr = ctx.nextVaddr ∧
    (ctx.installPciIsr line handler).1.pci = ctx.pci ∧
    (ctx.installPciIsr line handler).1.vmbus = ctx.vmbus := by
  unfold ProbeCtx.installPciIsr ProbeCtx.installPciIsrOn
  split
  · exact ⟨rfl, rfl, rfl, rfl, rfl⟩
  · split
    · exact ⟨rfl, rfl, rfl, rfl, rfl⟩
    · split
      · exact ⟨rfl, rfl, rfl, rfl, rfl⟩
      · exact ⟨rfl, rfl, rfl, rfl, rfl⟩

/-- The contexts before and after a probe. -/
structure ProbeStep (drv : PciDriver) (dev : PciDevice) (ctx ctx' : ProbeCtx) : Prop where
  published : ∀ nic : Nic, nic.name = drv.name →
    (Published ctx' nic ↔ nic = drv.candidate dev ctx)
  others : ∀ nic : Nic, nic.name ≠ drv.name → (Published ctx' nic ↔ Published ctx nic)
  vaddr : ctx.nextVaddr ≤ ctx'.nextVaddr
  pci : ctx'.pci = ctx.pci
  vmbus : ctx'.vmbus = ctx.vmbus
  /-- A mapping of the candidate is a new one. -/
  mapped : ∀ base, drv.candidate dev ctx = .e1000 base ∨
    drv.candidate dev ctx = .tulip (.mmio base) → base = ctx.nextVaddr ∧ base < ctx'.nextVaddr
  /-- A port of the candidate is that of the function. -/
  port : ∀ port, drv.candidate dev ctx = .tulip (.io port) → ctx.ioPort dev = some port

theorem published_congr {a b : ProbeCtx} (h : a.e1000RegsBase = b.e1000RegsBase)
    (h' : a.csrForIsr = b.csrForIsr) (nic : Nic) : Published a nic ↔ Published b nic := by
  cases nic with
  | e1000 base => rw [Published, Published, h]
  | tulip csr => rw [Published, Published, h']
  | netvsc relid => exact Iff.rfl

/-- Wiring the interrupt, or failing to, comes after the publication. -/
theorem ProbeStep.install {drv : PciDriver} {dev : PciDevice} {ctx ctx' : ProbeCtx}
    (h : ProbeStep drv dev ctx ctx') (line : UInt8) (handler : Handler) :
    ProbeStep drv dev ctx (ctx'.installPciIsr line handler).1 := by
  obtain ⟨hbase, hcsr, hvaddr, hpci, hvmbus⟩ := installPciIsr_keeps ctx' line handler
  have hpub := published_congr hbase hcsr
  exact ⟨fun nic hn => (hpub nic).trans (h.published nic hn),
    fun nic hn => (hpub nic).trans (h.others nic hn), hvaddr ▸ h.vaddr, hpci.trans h.pci,
    hvmbus.trans h.vmbus, fun base hb => ⟨(h.mapped base hb).1, hvaddr ▸ (h.mapped base hb).2⟩,
    h.port⟩

theorem lt_nextVaddr_mapMmio (ctx : ProbeCtx) (size : ℕ) :
    ctx.nextVaddr < (ctx.mapMmio size).2.nextVaddr := by
  show ctx.nextVaddr < ctx.nextVaddr + ((size + 0xFFF) / 0x1000 + 1) * 0x1000
  omega

theorem e1000_step (dev : PciDevice) (ctx : ProbeCtx) :
    ProbeStep .e1000 dev ctx
      { (ctx.mapMmio 0x20000).2 with e1000RegsBase := ctx.nextVaddr } := by
  have hlt := lt_nextVaddr_mapMmio ctx 0x20000
  refine ⟨fun nic hn => ?_, fun nic hn => ?_, Nat.le_of_lt hlt, rfl, rfl, fun base hb => ?_,
    fun port hp => by cases hp⟩
  · cases nic with
    | e1000 base => exact ⟨fun h => congrArg Nic.e1000 h.symm, fun h => (Nic.e1000.inj h).symm⟩
    | tulip csr => cases hn
    | netvsc relid => cases hn
  · cases nic with
    | e1000 base => exact absurd rfl hn
    | tulip csr => exact Iff.rfl
    | netvsc relid => exact Iff.rfl
  · rcases hb with hb | hb
    · obtain rfl := Nic.e1000.inj hb
      exact ⟨rfl, hlt⟩
    · cases hb

section

variable (ctx : ProbeCtx) (csr : CsrAccess)

theorem published_tulip (nic : Nic) (hn : nic.name = .tulip) :
    Published { ctx with csrForIsr := some csr } nic ↔ nic = .tulip csr := by
  cases nic with
  | e1000 base => cases hn
  | tulip csr' =>
    exact ⟨fun h => congrArg Nic.tulip (Option.some.inj h).symm,
      fun h => congrArg some (Nic.tulip.inj h).symm⟩
  | netvsc relid => cases hn

theorem published_of_ne_tulip (nic : Nic) (hn : nic.name ≠ .tulip) :
    Published { ctx with csrForIsr := some csr } nic ↔ Published ctx nic := by
  cases nic with
  | e1000 base => exact Iff.rfl
  | tulip csr' => exact absurd rfl hn
  | netvsc relid => exact Iff.rfl

end

/-- A Tulip is reached through an I/O port or through a new mapping. -/
theorem tulip_step (dev : PciDevice) (ctx : ProbeCtx) :
    ProbeStep .tulip dev ctx
      { (PciDriver.tulipAccess dev ctx).2 with
        csrForIsr := some (PciDriver.tulipAccess dev ctx).1 } := by
  cases hport : ctx.ioPort dev with
  | some port =>
    -- through its I/O port the card needs no mapping
    have haccess : PciDriver.tulipAccess dev ctx = (.io port, ctx) := by
      rw [PciDriver.tulipAccess, hport]
    have hcand : PciDriver.tulip.candidate dev ctx = .tulip (.io port) := by
      rw [PciDriver.candidate, haccess]
    rw [haccess]
    refine ⟨?_, published_of_ne_tulip ctx _, Nat.le_refl _, rfl, rfl, ?_, ?_⟩
    · rw [hcand]
      exact published_tulip ctx _
    · rw [hcand]
      rintro base (hb | hb)
      · cases hb
      · cases hb
    · rw [hcand]
      rintro port' hp
      cases hp
      exact hport
  | none =>
    -- otherwise its registers are mapped at the next address
    have haccess : PciDriver.tulipAccess dev ctx =
        (.mmio ctx.nextVaddr, (ctx.mapMmio 0x1000).2) := by
      rw [PciDriver.tulipAccess, hport]
      rfl
    have hcand : PciDriver.tulip.candidate dev ctx = .tulip (.mmio ctx.nextVaddr) := by
      rw [PciDriver.candidate, haccess]
    have hlt := lt_nextVaddr_mapMmio ctx 0x1000
    rw [haccess]
    refine ⟨?_, fun nic hn => ?_, Nat.le_of_lt hlt, rfl, rfl, ?_, ?_⟩
    · rw [hcand]
      exact published_tulip _ _
    · exact (published_of_ne_tulip _ _ nic hn).trans (published_congr rfl rfl nic)
    · rw [hcand]
      rintro base (hb | hb)
      · cases hb
      · cases hb
        exact ⟨rfl, hlt⟩
    · rw [hcand]
      rintro port' hp
      cases hp

/-- The specification of a probe: a NIC that comes up is the candidate. -/
theorem probe_step (drv : PciDriver) (dev : PciDevice) (ctx : ProbeCtx) :
    ProbeStep drv dev ctx (drv.probe dev ctx).1 ∧
      ∀ nic, (drv.probe dev ctx).2 = .ok nic → nic = drv.candidate dev ctx := by
  have hok : ∀ {r : Except ProbeError InstalledIsr} {nic nic' : Nic},
      (r.map fun _ => nic') = .ok nic → nic = nic' := by
    intro r nic nic' h
    cases r with
    | error e => cases h
    | ok isr => exact (Except.ok.inj h).symm
  cases drv with
  | e1000 => exact ⟨(e1000_step dev ctx).install _ _, fun nic h => hok h⟩
  | tulip => exact ⟨(tulip_step dev ctx).install _ _, fun nic h => hok h⟩

/-! ### A visit -/

/-- Only one driver accepts a function. -/
theorem accepts_inj {drv drv' : PciDriver} {dev : PciDevice} (h : drv.accepts dev = true)
    (h' : drv'.accepts dev = true) : drv = drv' := by
  cases drv with
  | e1000 =>
    cases drv' with
    | e1000 => rfl
    | tulip => simp_all [PciDriver.accepts]
  | tulip =>
    cases drv' with
    | e1000 => simp_all [PciDriver.accepts]
    | tulip => rfl

/-- What the loop relies on. -/
structure Sound (p : Probing) : Prop where
  names : ∀ n ∈ p.nics, n.driver.name = n.name
  /-- Every mapping lies below the next one. -/
  mapped : ∀ n ∈ p.nics, ∀ base, n.driver = .e1000 base ∨ n.driver = .tulip (.mmio base) →
    base < p.ctx.nextVaddr

section

variable {drvs : List PciDriver} {p : Probing} {dev : PciDevice} {devs : List PciDevice}

/-- What the probes of one function leave alone. -/
structure SameBus (ctx ctx' : ProbeCtx) : Prop where
  vaddr : ctx.nextVaddr ≤ ctx'.nextVaddr
  pci : ctx'.pci = ctx.pci
  vmbus : ctx'.vmbus = ctx.vmbus

theorem SameBus.refl (ctx : ProbeCtx) : SameBus ctx ctx := ⟨Nat.le_refl _, rfl, rfl⟩

theorem SameBus.probe {ctx ctx' : ProbeCtx} (h : SameBus ctx ctx') (drv : PciDriver)
    (dev : PciDevice) : SameBus ctx (drv.probe dev ctx').1 :=
  have hp := (probe_step drv dev ctx').1
  ⟨Nat.le_trans h.vaddr hp.vaddr, hp.pci.trans h.pci, hp.vmbus.trans h.vmbus⟩

theorem SameBus.ioPort {ctx ctx' : ProbeCtx} (h : SameBus ctx ctx') (dev : PciDevice) :
    ctx'.ioPort dev = ctx.ioPort dev := by
  rw [ProbeCtx.ioPort, h.pci, ProbeCtx.ioPort]

/-- The drivers of `probe_all`, tried on one function. -/
def tried (drvs : List PciDriver) (p : Probing) (dev : PciDevice) : Probing :=
  (tryDrivers (fun drv => drv.accepts dev) (fun drv : PciDriver => drv.probe dev)
    (fun drv nic => ⟨nic, drv.priority, drv.name⟩) drvs p).1

theorem tried_sameBus (drvs : List PciDriver) (p : Probing) (dev : PciDevice) :
    SameBus p.ctx (tried drvs p dev).ctx :=
  tryDrivers_invariant (SameBus.refl _) fun drv _ _ _ h => h.probe drv dev

/-- The statics of other drivers are left alone. -/
theorem tried_published {nic : Nic}
    (h : ∀ drv ∈ drvs, drv.accepts dev = true → nic.name ≠ drv.name) :
    Published (tried drvs p dev).ctx nic ↔ Published p.ctx nic :=
  tryDrivers_invariant (I := fun ctx => Published ctx nic ↔ Published p.ctx nic) Iff.rfl
    fun drv hd haccept ctx hctx =>
      ((probe_step drv dev ctx).1.others nic (h drv hd haccept)).trans hctx

/-- If a driver accepts the function, its static is that of the last probe. -/
theorem tried_last {drv : PciDriver} (hd : drv ∈ drvs) (haccept : drv.accepts dev = true)
    {nic : Nic} (hn : nic.name = drv.name) :
    ∃ ctx, SameBus p.ctx ctx ∧
      (Published (tried drvs p dev).ctx nic ↔ nic = drv.candidate dev ctx) := by
  obtain ⟨drv', -, haccept', ctx, hsame, hctx⟩ : ∃ drv' ∈ drvs, drv'.accepts dev = true ∧
      ∃ ctx, SameBus p.ctx ctx ∧ (tried drvs p dev).ctx = (drv'.probe dev ctx).1 :=
    tryDrivers_last (SameBus.refl p.ctx) (fun drv _ _ _ h => h.probe drv dev) ⟨drv, hd, haccept⟩
  obtain rfl := accepts_inj haccept haccept'
  refine ⟨ctx, hsame, ?_⟩
  rw [hctx]
  exact (probe_step drv dev ctx).1.published nic hn

/-- The NIC that comes up when the drivers are tried. -/
structure Brought (drvs : List PciDriver) (p : Probing) (dev : PciDevice) (drv : PciDriver)
    (nic : Nic) : Prop where
  accepts : drv ∈ drvs ∧ drv.accepts dev = true
  name : nic.name = drv.name
  published : Published (tried drvs p dev).ctx nic
  mapped : ∀ base, nic = .e1000 base ∨ nic = .tulip (.mmio base) →
    base < (tried drvs p dev).ctx.nextVaddr
  port : ∀ port, nic = .tulip (.io port) → p.ctx.ioPort dev = some port

theorem tried_nics (drvs : List PciDriver) (p : Probing) (dev : PciDevice) :
    (tried drvs p dev).nics = p.nics ∨
    ∃ drv nic, Brought drvs p dev drv nic ∧
      (tried drvs p dev).nics = p.nics ++ [⟨nic, drv.priority, drv.name⟩] := by
  have hcases : (tried drvs p dev).nics = p.nics ∨
      ∃ drv ∈ drvs, drv.accepts dev = true ∧ ∃ ctx nic,
        drv.probe dev ctx = ((tried drvs p dev).ctx, .ok nic) ∧
        (tried drvs p dev).nics = p.nics ++ [ProbedNic.mk nic drv.priority drv.name] :=
    tryDrivers_cases p
  rcases hcases with h | ⟨drv, hd, haccept, ctx, nic, hprobe, hnics⟩
  · exact .inl h
  · obtain ⟨hstep, hcand⟩ := probe_step drv dev ctx
    have hctx : (drv.probe dev ctx).1 = (tried drvs p dev).ctx := by rw [hprobe]
    obtain rfl := hcand nic (by rw [hprobe])
    have hname := name_candidate drv dev ctx
    rw [hctx] at hstep
    refine .inr ⟨drv, _, ⟨⟨hd, haccept⟩, hname, (hstep.published _ hname).mpr rfl,
      fun base hb => (hstep.mapped base hb).2, fun port hp => ?_⟩, hnics⟩
    have hioport := hstep.port port hp
    rwa [ProbeCtx.ioPort, ← hstep.pci, (tried_sameBus drvs p dev).pci] at hioport

/-- What holds of the NICs so far and of the one that comes up holds of all. -/
theorem forall_mem_tried {P : ProbedNic → Prop} (hold : ∀ n ∈ p.nics, P n)
    (hnew : ∀ drv nic, Brought drvs p dev drv nic → P ⟨nic, drv.priority, drv.name⟩) :
    ∀ n ∈ (tried drvs p dev).nics, P n := by
  rcases tried_nics drvs p dev with hn | ⟨drv, nic, hbrought, hn⟩
  · rw [hn]
    exact hold
  · rw [hn]
    intro n hmem
    rcases List.mem_append.mp hmem with hmem | hmem
    · exact hold n hmem
    · obtain rfl := List.mem_singleton.mp hmem
      exact hnew drv nic hbrought

/-- A visit leaves things as they are, or tries the drivers. -/
theorem visitPci_cases (drvs : List PciDriver) (p : Probing) (dev : PciDevice) :
    (dev.key ∈ p.claimed ∧ visitPci drvs p dev = p) ∨
    (dev.key ∉ p.claimed ∧ (visitPci drvs p dev).ctx = (tried drvs p dev).ctx ∧
      (visitPci drvs p dev).nics = (tried drvs p dev).nics) := by
  unfold visitPci
  by_cases hclaimed : dev.key ∈ p.claimed
  · exact .inl ⟨hclaimed, if_pos hclaimed⟩
  · rw [if_neg hclaimed]
    refine .inr ⟨hclaimed, ?_⟩
    dsimp only
    split
    · exact ⟨rfl, rfl⟩
    · exact ⟨rfl, rfl⟩

theorem Sound.visit (hs : Sound p) : Sound (visitPci drvs p dev) := by
  rcases visitPci_cases drvs p dev with ⟨-, heq⟩ | ⟨-, hctx, hnics⟩
  · rw [heq]
    exact hs
  · have hsame := tried_sameBus drvs p dev
    refine ⟨?_, ?_⟩
    · rw [hnics]
      exact forall_mem_tried hs.names fun _ _ hb => hb.name
    · rw [hnics, hctx]
      refine forall_mem_tried (fun n hn base hb => ?_) fun _ _ hb => hb.mapped
      exact Nat.lt_of_lt_of_le (hs.mapped n hn base hb) hsame.vaddr

/-- A NIC of a driver that had none leaves every driver with at most one. -/
theorem Fresh.single (hfresh : Fresh drvs p dev)
    (hsingle : ∀ drv : PciDriver, p.nics.countP (fun n => n.name = drv.name) ≤ 1)
    (drv : PciDriver) : (tried drvs p dev).nics.countP (fun n => n.name = drv.name) ≤ 1 := by
  rcases tried_nics drvs p dev with hn | ⟨drv', nic, hbrought, hn⟩
  · rw [hn]
    exact hsingle drv
  · rw [hn, List.countP_append, List.countP_singleton]
    by_cases heq : drv' = drv
    · subst heq
      have hzero : p.nics.countP (fun n => n.name = drv'.name) = 0 := by
        rw [List.countP_eq_zero]
        intro n hmem
        simpa using hfresh drv' hbrought.accepts.1 hbrought.accepts.2 n hmem
      rw [hzero]
      split
      · exact Nat.le_refl _
      · exact Nat.zero_le _
    · have hname : drv'.name ≠ drv.name := fun h => heq (PciDriver.name_injective h)
      rw [if_neg (by simpa using hname)]
      exact hsingle drv

/-- Visiting a fresh function keeps one instance per driver. -/
theorem OneInstance.visit (h : OneInstance p) (hs : Sound p)
    (hf : dev.key ∈ p.claimed ∨ Fresh drvs p dev) : OneInstance (visitPci drvs p dev) := by
  rcases visitPci_cases drvs p dev with ⟨-, heq⟩ | ⟨hclaimed, hctx, hnics⟩
  · rw [heq]
    exact h
  · have hfresh := hf.resolve_left hclaimed
    refine ⟨?_, ?_⟩
    · rw [hnics]
      exact hfresh.single h.single
    · rw [hnics, hctx]
      refine forall_mem_tried (fun n hn => ?_) fun _ _ hb => hb.published
      have hother : ∀ drv ∈ drvs, drv.accepts dev = true → n.driver.name ≠ drv.name :=
        fun drv hd haccept => hs.names n hn ▸ hfresh drv hd haccept n hn
      exact (tried_published hother).mpr (h.published n hn)

theorem oneInstance_scan (h : OneInstance p) (hs : Sound p) (hf : AllFresh drvs p devs) :
    OneInstance (scan (visitPci drvs) p devs) := by
  induction devs generalizing p with
  | nil => exact h
  | cons dev devs ih =>
    unfold scan
    split
    · exact h
    · rename_i hbudget
      obtain ⟨hfresh, hrest⟩ := hf.resolve_left hbudget
      exact ih (h.visit hs hfresh) hs.visit hrest

/-! ### A function whose driver has a NIC -/

/-- None of the functions to come can publish this base. -/
def Stale (ctx : ProbeCtx) (devs : List PciDevice) : Nic → Prop
  | .e1000 base => base < ctx.nextVaddr
  | .tulip (.mmio base) => base < ctx.nextVaddr
  | .tulip (.io port) => ∀ dev ∈ devs, ctx.ioPort dev ≠ some port
  | .netvsc _ => False

theorem Stale.mono {ctx ctx' : ProbeCtx} {nic : Nic} (h : Stale ctx (dev :: devs) nic)
    (hsame : SameBus ctx ctx') : Stale ctx' devs nic := by
  cases nic with
  | e1000 base => exact Nat.lt_of_lt_of_le h hsame.vaddr
  | tulip csr =>
    cases csr with
    | mmio base => exact Nat.lt_of_lt_of_le h hsame.vaddr
    | io port =>
      intro d hd
      rw [hsame.ioPort]
      exact h d (List.mem_cons_of_mem dev hd)
  | netvsc relid => exact h

theorem Stale.ne_candidate {ctx ctx' : ProbeCtx} {nic : Nic} (h : Stale ctx (dev :: devs) nic)
    (hsame : SameBus ctx ctx') (drv : PciDriver) : nic ≠ drv.candidate dev ctx' := by
  obtain ⟨hstep, -⟩ := probe_step drv dev ctx'
  have hle := hsame.vaddr
  rintro rfl
  cases hcand : drv.candidate dev ctx' with
  | e1000 base =>
    -- a mapping is new, and the stale base is an older one
    rw [hcand] at h
    have hlt : base < ctx.nextVaddr := h
    have := (hstep.mapped base (.inl hcand)).1
    omega
  | tulip csr =>
    rw [hcand] at h
    cases csr with
    | mmio base =>
      have hlt : base < ctx.nextVaddr := h
      have := (hstep.mapped base (.inr hcand)).1
      omega
    | io port =>
      -- no card that is still to come has the stale port
      have hport := hstep.port port hcand
      rw [hsame.ioPort] at hport
      exact h dev List.mem_cons_self hport
  | netvsc relid =>
    rw [hcand] at h
    exact h

/-- A NIC whose base is no longer published, and will not be again. -/
def Lost (p : Probing) (devs : List PciDevice) : Prop :=
  ∃ n ∈ p.nics, ¬ Published p.ctx n.driver ∧ Stale p.ctx devs n.driver

theorem mem_visitPci {n : ProbedNic} (hn : n ∈ p.nics) : n ∈ (visitPci drvs p dev).nics := by
  rcases visitPci_cases drvs p dev with ⟨-, heq⟩ | ⟨-, -, hnics⟩
  · rwa [heq]
  · rw [hnics]
    rcases tried_nics drvs p dev with h | ⟨drv, nic, -, h⟩
    · rwa [h]
    · rw [h]
      exact List.mem_append_left _ hn

theorem Lost.visit (h : Lost p (dev :: devs)) : Lost (visitPci drvs p dev) devs := by
  obtain ⟨n, hn, hpub, hstale⟩ := h
  refine ⟨n, mem_visitPci hn, ?_⟩
  rcases visitPci_cases drvs p dev with ⟨-, heq⟩ | ⟨-, hctx, -⟩
  · rw [heq]
    exact ⟨hpub, hstale.mono (SameBus.refl _)⟩
  · rw [hctx]
    have key : SameBus p.ctx (tried drvs p dev).ctx ∧
        ¬ Published (tried drvs p dev).ctx n.driver := by
      refine tryDrivers_invariant
        (I := fun ctx => SameBus p.ctx ctx ∧ ¬ Published ctx n.driver)
        ⟨SameBus.refl _, hpub⟩ fun drv _ _ ctx hctx => ?_
      refine ⟨hctx.1.probe drv dev, fun hp => ?_⟩
      obtain ⟨hstep, -⟩ := probe_step drv dev ctx
      by_cases hname : n.driver.name = drv.name
      · exact hstale.ne_candidate hctx.1 drv ((hstep.published _ hname).mp hp)
      · exact hctx.2 ((hstep.others _ hname).mp hp)
    exact ⟨key.2, hstale.mono key.1⟩

theorem Lost.scan (drvs : List PciDriver) (h : Lost p devs) :
    Lost (scan (visitPci drvs) p devs) [] := by
  induction devs generalizing p with
  | nil => exact h
  | cons dev devs ih =>
    unfold Boot.scan
    split
    · obtain ⟨n, hn, hpub, hstale⟩ := h
      refine ⟨n, hn, hpub, ?_⟩
      cases hd : n.driver with
      | e1000 base => rwa [hd] at hstale
      | tulip csr =>
        cases csr with
        | mmio base => rwa [hd] at hstale
        | io port => exact fun d hd => absurd hd List.not_mem_nil
      | netvsc relid => rwa [hd] at hstale
    · exact ih h.visit

/-- The ports of the NICs are not those of functions to come. -/
def PortsFree (p : Probing) (devs : List PciDevice) : Prop :=
  ∀ n ∈ p.nics, ∀ port, n.driver = .tulip (.io port) → ∀ dev ∈ devs, p.ctx.ioPort dev ≠ some port

theorem PortsFree.visit (drvs : List PciDriver) (h : PortsFree p (dev :: devs))
    (hd : DistinctPorts p.ctx (dev :: devs)) :
    PortsFree (visitPci drvs p dev) devs ∧ DistinctPorts (visitPci drvs p dev).ctx devs := by
  have hrest := (List.pairwise_cons.mp hd).2
  have hdev := (List.pairwise_cons.mp hd).1
  rcases visitPci_cases drvs p dev with ⟨-, heq⟩ | ⟨-, hctx, hnics⟩
  · rw [heq]
    exact ⟨fun n hn port hp d hd => h n hn port hp d (List.mem_cons_of_mem dev hd), hrest⟩
  · have hport := (tried_sameBus drvs p dev).ioPort
    refine ⟨?_, ?_⟩
    · unfold PortsFree
      rw [hnics, hctx]
      refine forall_mem_tried (fun n hn port hp d hmem => ?_) fun drv nic hb port hp d hmem => ?_
      · rw [hport]
        exact h n hn port hp d (List.mem_cons_of_mem dev hmem)
      · -- the port of the new NIC is that of `dev`
        have hport' := hb.port port hp
        rw [hport]
        rcases hdev d hmem with hnone | hne
        · rw [hport'] at hnone
          exact absurd hnone (by simp)
        · rwa [hport'] at hne
    · unfold DistinctPorts
      rw [hctx]
      simp only [hport]
      exact hrest

/-- Probing a function whose driver has a NIC loses the base of that NIC. -/
theorem lost_of_not_fresh (hs : Sound p) (hports : PortsFree p (dev :: devs))
    (hclaimed : dev.key ∉ p.claimed) (hnot : ¬ Fresh drvs p dev) :
    Lost (visitPci drvs p dev) devs := by
  unfold Fresh at hnot
  push Not at hnot
  obtain ⟨drv, hd, haccept, n, hn, hname⟩ := hnot
  have hkind : n.driver.name = drv.name := (hs.names n hn).trans hname
  -- what is published for the NIC cannot come from a later probe
  have hstale : Stale p.ctx (dev :: devs) n.driver := by
    cases hdriver : n.driver with
    | e1000 base => exact hs.mapped n hn base (.inl hdriver)
    | tulip csr =>
      cases csr with
      | mmio base => exact hs.mapped n hn base (.inr hdriver)
      | io port => exact hports n hn port hdriver
    | netvsc relid =>
      rw [hdriver] at hkind
      exact absurd hkind.symm drv.name_ne_netvsc
  rcases visitPci_cases drvs p dev with ⟨hmem, -⟩ | ⟨-, hctx, -⟩
  · exact absurd hmem hclaimed
  · -- and this probe publishes another one in its place
    obtain ⟨ctx, hsame, hpub⟩ := tried_last (p := p) hd haccept hkind
    refine ⟨n, mem_visitPci hn, ?_, ?_⟩
    · rw [hctx, hpub]
      exact hstale.ne_candidate hsame drv
    · rw [hctx]
      exact hstale.mono (tried_sameBus drvs p dev)

theorem allFresh_of_oneInstance (hs : Sound p) (hports : PortsFree p devs)
    (hd : DistinctPorts p.ctx devs) (h : OneInstance (scan (visitPci drvs) p devs)) :
    AllFresh drvs p devs := by
  induction devs generalizing p with
  | nil => trivial
  | cons dev devs ih =>
    unfold Boot.scan at h
    by_cases hbudget : probeBudget ≤ p.nics.length
    · exact .inl hbudget
    · rw [if_neg hbudget] at h
      obtain ⟨hports', hd'⟩ := hports.visit drvs hd
      refine .inr ⟨?_, ih hs.visit hports' hd' h⟩
      by_contra hnot
      rw [not_or] at hnot
      obtain ⟨n, hn, hpub, -⟩ := (lost_of_not_fresh hs hports hnot.1 hnot.2).scan drvs
      exact hpub (h.published n hn)

/-! ### The VMBus part of the loop -/

/-- The VMBus part adds NetVSC devices and leaves the statics alone. -/
def PciPart (p q : Probing) : Prop :=
  (∀ nic, Published q.ctx nic ↔ Published p.ctx nic) ∧
    ∃ extra : List ProbedNic, q.nics = p.nics ++ extra ∧
      ∀ n ∈ extra, n.name = .netvsc ∧ ∃ relid, n.driver = .netvsc relid

/-- The probe of an offer changes only the state of VMBus. -/
theorem netvscProbe_spec (host : ℕ → Handshake) (offer : ChannelOffer) (ctx : ProbeCtx) :
    (∃ vmbus, (VmBusDriver.netvscProbe host offer ctx).1 = { ctx with vmbus }) ∧
      ∀ nic, (VmBusDriver.netvscProbe host offer ctx).2 = .ok nic →
        ∃ relid, nic = .netvsc relid := by
  unfold VmBusDriver.netvscProbe
  split
  · exact ⟨⟨_, rfl⟩, fun nic h => by cases h⟩
  · dsimp only
    split
    · exact ⟨⟨_, rfl⟩, fun nic h => ⟨_, (Except.ok.inj h).symm⟩⟩
    · exact ⟨⟨_, rfl⟩, fun nic h => by cases h⟩

theorem PciPart.visit {q : Probing} (h : PciPart p q) (host : ℕ → Handshake)
    (drvs : List VmBusDriver) (offer : ChannelOffer) :
    PciPart p (visitVmBus host drvs q offer) := by
  obtain ⟨hpub, extra, hnics, hextra⟩ := h
  refine ⟨fun nic => ?_, ?_⟩
  · -- the probe of an offer publishes nothing
    refine tryDrivers_invariant (I := fun ctx => Published ctx nic ↔ Published p.ctx nic)
      (hpub nic) fun drv _ _ ctx hctx => ?_
    obtain ⟨vmbus, hvmbus⟩ := (netvscProbe_spec host offer ctx).1
    have heq : (drv.probe host offer ctx).1 = { ctx with vmbus } := by
      cases drv
      exact hvmbus
    rw [heq]
    exact (published_congr rfl rfl nic).trans hctx
  · have hcases : (visitVmBus host drvs q offer).nics = q.nics ∨
        ∃ drv ∈ drvs, drv.accepts offer = true ∧ ∃ ctx nic,
          drv.probe host offer ctx = ((visitVmBus host drvs q offer).ctx, .ok nic) ∧
          (visitVmBus host drvs q offer).nics =
            q.nics ++ [ProbedNic.mk nic drv.priority drv.name] := tryDrivers_cases q
    -- and adds a NetVSC device at most
    rcases hcases with hsame | ⟨drv, -, -, ctx, nic, hprobe, hadd⟩
    · exact ⟨extra, hsame.trans hnics, hextra⟩
    · refine ⟨extra ++ [⟨nic, drv.priority, drv.name⟩], ?_, fun n hn => ?_⟩
      · rw [hadd, hnics, List.append_assoc]
      · rcases List.mem_append.mp hn with hn | hn
        · exact hextra n hn
        · obtain rfl := List.mem_singleton.mp hn
          cases drv
          exact ⟨rfl, (netvscProbe_spec host offer ctx).2 nic (congrArg Prod.snd hprobe)⟩

theorem probeAll_pciPart (host : ℕ → Handshake) (registry : DriverRegistry) (ctx : ProbeCtx)
    (devs : List PciDevice) :
    PciPart (scanPci registry ctx devs) (probeAll host registry ctx devs) :=
  scan_invariant (I := PciPart (scanPci registry ctx devs))
    ⟨fun _ => Iff.rfl, [], (List.append_nil _).symm, fun _ hn => absurd hn List.not_mem_nil⟩
    fun _ offer _ hq => hq.visit host registry.vmbus offer

theorem oneInstance_iff_of_pciPart {q : Probing} (h : PciPart p q) :
    OneInstance q ↔ OneInstance p := by
  obtain ⟨hpub, extra, hnics, hextra⟩ := h
  -- the NICs of the VMBus have the name of no PCI driver
  have hcount : ∀ drv : PciDriver, extra.countP (fun n => n.name = drv.name) = 0 := by
    intro drv
    rw [List.countP_eq_zero]
    intro n hn
    rw [decide_eq_true_eq, (hextra n hn).1]
    exact drv.name_ne_netvsc.symm
  constructor
  · rintro ⟨hsingle, hpublished⟩
    refine ⟨fun drv => ?_, fun n hn => ?_⟩
    · have := hsingle drv
      rwa [hnics, List.countP_append, hcount, Nat.add_zero] at this
    · exact (hpub _).mp (hpublished n (hnics ▸ List.mem_append_left _ hn))
  · rintro ⟨hsingle, hpublished⟩
    refine ⟨fun drv => ?_, fun n hn => ?_⟩
    · rw [hnics, List.countP_append, hcount, Nat.add_zero]
      exact hsingle drv
    · rw [hpub]
      rw [hnics] at hn
      rcases List.mem_append.mp hn with hn | hn
      · exact hpublished n hn
      · obtain ⟨-, relid, hd⟩ := hextra n hn
        rw [hd]
        trivial

end

/-- **Each PCI driver has one NIC, whose base is the published one, if no function is
probed while its driver has a NIC**; and only then, if no two functions decode the same
I/O port. -/
theorem oneInstance_iff_allFresh (host : ℕ → Handshake) (registry : DriverRegistry)
    (ctx : ProbeCtx) (devs : List PciDevice) :
    (AllFresh registry.pci ⟨ctx, [], []⟩ devs → OneInstance (probeAll host registry ctx devs)) ∧
    (DistinctPorts ctx devs → OneInstance (probeAll host registry ctx devs) →
      AllFresh registry.pci ⟨ctx, [], []⟩ devs) := by
  have hempty : ∀ {P : ProbedNic → Prop}, ∀ n ∈ ([] : List ProbedNic), P n :=
    fun n hn => absurd hn List.not_mem_nil
  have hs : Sound ⟨ctx, [], []⟩ := ⟨hempty, hempty⟩
  have hpart := oneInstance_iff_of_pciPart (probeAll_pciPart host registry ctx devs)
  rw [hpart]
  exact ⟨oneInstance_scan ⟨fun _ => Nat.zero_le _, hempty⟩ hs,
    fun hd => allFresh_of_oneInstance hs hempty hd⟩

/-- A machine with wired interrupts and memory BARs. -/
def twoSlots : ProbeCtx where
  nextVaddr := 0x400000000000
  ioapic := ⟨24, fun _ => none⟩
  irqAlloc := ⟨0#32, 32, 47, by decide, by decide, by decide⟩
  idt := fun _ => .default
  pci := fun _ off => if off = 0x3C then 11 else 0xFEB00000
  vmbus := none
  e1000RegsBase := 0
  csrForIsr := none

/-- An e1000 and a tulip, each with its base published. -/
theorem oneInstance_e1000_tulip :
    DistinctPorts twoSlots [⟨0, 3, 0, 0x8086, 0x100E⟩, ⟨0, 4, 0, 0x1011, 0x0009⟩] ∧
    OneInstance (probeAll (fun _ => .openFails) registerDefaultDrivers twoSlots
      [⟨0, 3, 0, 0x8086, 0x100E⟩, ⟨0, 4, 0, 0x1011, 0x0009⟩]) := by
  exact ⟨by decide +kernel, (oneInstance_iff_allFresh _ _ _ _).1 (by decide +kernel)⟩

/-- The second of two e1000 functions comes up as well, and its base replaces that of
the first. -/
theorem second_e1000_replaces_first :
    (probeAll (fun _ => .openFails) registerDefaultDrivers twoSlots
      [⟨0, 3, 0, 0x8086, 0x100E⟩, ⟨0, 4, 0, 0x8086, 0x100E⟩]).nics =
        [⟨.e1000 0x400000000000, 20, .e1000⟩, ⟨.e1000 0x400000021000, 20, .e1000⟩] ∧
    ¬ OneInstance (probeAll (fun _ => .openFails) registerDefaultDrivers twoSlots
      [⟨0, 3, 0, 0x8086, 0x100E⟩, ⟨0, 4, 0, 0x8086, 0x100E⟩]) := by
  have hnics : (probeAll (fun _ => .openFails) registerDefaultDrivers twoSlots
      [⟨0, 3, 0, 0x8086, 0x100E⟩, ⟨0, 4, 0, 0x8086, 0x100E⟩]).nics =
        [⟨.e1000 0x400000000000, 20, .e1000⟩, ⟨.e1000 0x400000021000, 20, .e1000⟩] := by
    decide +kernel
  refine ⟨hnics, fun h => ?_⟩
  have := h.single .e1000
  rw [hnics] at this
  exact absurd this (by decide)

end Boot
