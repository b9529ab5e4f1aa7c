/-
Driver probing: the probe context, the in-tree drivers, the registry and `probe_all`.

PCI functions and VMBus offers are probed in the order of their enumeration.  A
driver that matches gets the probe context; the first one that succeeds claims the
device, and the loop stops when `PROBE_BUDGET` NICs are up.

* `ProbeCtx.installPciIsrOn` — allocates a vector, sets its handler and routes the pin;
* `PciDriver.probe`, `VmBusDriver.probe` — the probes of e1000, tulip and NetVSC;
* `probeAll` — the loop.
-/
import Embclox.VectorAlloc
import Mathlib.Logic.Function.Basic

namespace Boot

/-! ### The probe context -/

inductive Handler
  | default | apicTimer | spurious | vmbus | e1000 | tulip
  deriving DecidableEq

/-- The handler of each vector. -/
abbrev Idt := ℕ → Handler

inductive CpuId
  | bsp
  | ap (processorId : UInt8)

/-- The redirection table: vector and destination of each pin. -/
structure IoApic where
  maxEntries : ℕ
  redirection : ℕ → Option (ℕ × CpuId)

def IoApic.enableIrq (io : IoApic) (irq vector : ℕ) (cpu : CpuId) : IoApic :=
  { io with redirection := Function.update io.redirection irq (some (vector, cpu)) }

structure PciDevice where
  bus : UInt8
  dev : UInt8
  func : UInt8
  vendor : UInt16
  device : UInt16
  deriving DecidableEq

structure Guid where
  data1 : UInt32
  data2 : UInt16
  data3 : UInt16
  data4 : List UInt8
  deriving DecidableEq

/-- `guid::NETVSC` -/
def netvscGuid : Guid :=
  ⟨0xF8615163, 0xDF3E, 0x46C5, [0x91, 0x3F, 0xF2, 0xD2, 0xF9, 0x65, 0xED, 0x0E]⟩

structure ChannelOffer where
  deviceType : Guid
  childRelid : UInt32
  deriving DecidableEq

/-- A channel that was opened while an offer was probed. -/
structure Opened where
  offer : UInt32
  channel : UInt32
  deriving DecidableEq

/-- The offers, and the channels opened so far with the number of attempts. -/
structure VmBus where
  offers : List ChannelOffer
  opened : List Opened
  attempts : ℕ

def VmBus.findOffer (vmbus : VmBus) (deviceType : Guid) : Option ChannelOffer :=
  vmbus.offers.find? fun o => o.deviceType = deviceType

/-- The registers of a Tulip. -/
inductive CsrAccess
  | mmio (base : ℕ)
  | io (port : UInt16)
  deriving DecidableEq

/-- What a probe works on; the last two fields are the statics that the interrupt
handlers read. -/
structure ProbeCtx where
  nextVaddr : ℕ
  ioapic : IoApic
  irqAlloc : VectorAllocator
  idt : Idt
  pci : PciDevice → ℕ → UInt32
  vmbus : Option VmBus
  e1000RegsBase : ℕ
  csrForIsr : Option CsrAccess

inductive ProbeError
  | invalidIrqLine (line : UInt8)
  | noFreeVector
  | mmioMap
  | dmaAlloc
  | driver (msg : String)

structure InstalledIsr where
  vector : ℕ
  cpu : CpuId

namespace ProbeCtx

/-- Set the handler of an allocated vector and route the pin to it. -/
def wire (ctx : ProbeCtx) (line : UInt8) (handler : Handler) (cpu : CpuId) (vector : ℕ)
    (irqAlloc : VectorAllocator) : ProbeCtx :=
  { ctx with
    irqAlloc
    idt := Function.update ctx.idt vector handler
    ioapic := ctx.ioapic.enableIrq line.toNat vector cpu }

def installPciIsrOn (ctx : ProbeCtx) (line : UInt8) (handler : Handler) (cpu : CpuId) :
    ProbeCtx × Except ProbeError InstalledIsr :=
  if line = 0xFF then (ctx, .error (.invalidIrqLine line))
  else if ctx.ioapic.maxEntries ≤ line.toNat then (ctx, .error (.invalidIrqLine line))
  else
    match ctx.irqAlloc.allocate with
    | none => (ctx, .error .noFreeVector)
    | some (vector, irqAlloc) => (ctx.wire line handler cpu vector irqAlloc, .ok ⟨vector, cpu⟩)

def installPciIsr (ctx : ProbeCtx) (line : UInt8) (handler : Handler) :
    ProbeCtx × Except ProbeError InstalledIsr :=
  ctx.installPciIsrOn line handler .bsp

/-- `map_mmio`: the address of the mapping; an unmapped page follows it. -/
def mapMmio (ctx : ProbeCtx) (size : ℕ) : ℕ × ProbeCtx :=
  (ctx.nextVaddr,
    { ctx with nextVaddr := ctx.nextVaddr + ((size + 0xFFF) / 0x1000 + 1) * 0x1000 })

/-- The interrupt line of a PCI function. -/
def irqLine (ctx : ProbeCtx) (dev : PciDevice) : UInt8 := (ctx.pci dev 0x3C).toUInt8

/-- The I/O port of a function whose first BAR is in I/O space. -/
def ioPort (ctx : ProbeCtx) (dev : PciDevice) : Option UInt16 :=
  let bar0Raw := ctx.pci dev 0x10
  if bar0Raw &&& 1 != 0 then some (bar0Raw &&& ~~~0x3).toUInt16 else none

end ProbeCtx

/-! ### Drivers -/

/-- A NIC and what its registers are reached through, or its channel. -/
inductive Nic
  | e1000 (base : ℕ)
  | tulip (csr : CsrAccess)
  | netvsc (relid : UInt32)
  deriving DecidableEq

inductive DriverName
  | e1000 | tulip | netvsc
  deriving DecidableEq

structure ProbedNic where
  driver : Nic
  priority : ℕ
  name : DriverName
  deriving DecidableEq

/-- The in-tree PCI drivers. -/
inductive PciDriver
  | e1000 | tulip
  deriving DecidableEq

namespace PciDriver

def name : PciDriver → DriverName
  | e1000 => .e1000
  | tulip => .tulip

def priority : PciDriver → ℕ
  | e1000 => 20
  | tulip => 30

/-- The driver's `matches`. -/
def accepts : PciDriver → PciDevice → Bool
  | e1000, dev => dev.vendor == 0x8086 && [0x100E, 0x100F, 0x10D3].contains dev.device
  | tulip, dev => dev.vendor == 0x1011 && [0x0009, 0x0019].contains dev.device

/-- The base is published before the interrupt is wired, and stays published when
that fails. -/
def e1000Probe (dev : PciDevice) (ctx : ProbeCtx) : ProbeCtx × Except ProbeError Nic :=
  let (base, ctx) := ctx.mapMmio 0x20000
  let ctx := { ctx with e1000RegsBase := base }
  let (ctx, isr) := ctx.installPciIsr (ctx.irqLine dev) .e1000
  (ctx, isr.map fun _ => .e1000 base)

/-- The registers of a Tulip are in I/O space or mapped. -/
def tulipAccess (dev : PciDevice) (ctx : ProbeCtx) : CsrAccess × ProbeCtx :=
  match ctx.ioPort dev with
  | some port => (.io port, ctx)
  | none =>
      let (base, ctx) := ctx.mapMmio 0x1000
      (.mmio base, ctx)

def tulipProbe (dev : PciDevice) (ctx : ProbeCtx) : ProbeCtx × Except ProbeError Nic :=
  let (csr, ctx) := tulipAccess dev ctx
  let ctx := { ctx with csrForIsr := some csr }
  let (ctx, isr) := ctx.installPciIsr (ctx.irqLine dev) .tulip
  (ctx, isr.map fun _ => .tulip csr)

def probe : PciDriver → PciDevice → ProbeCtx → ProbeCtx × Except ProbeError Nic
  | e1000 => e1000Probe
  | tulip => tulipProbe

end PciDriver

/-- How the host answers while a NetVSC device is initialised. -/
inductive Handshake
  /-- The channel is not opened. -/
  | openFails
  /-- The channel is opened and a later step fails. -/
  | initFails
  | ready

/-- The in-tree VMBus driver. -/
inductive VmBusDriver
  | netvsc
  deriving DecidableEq

namespace VmBusDriver

def name : VmBusDriver → DriverName
  | netvsc => .netvsc

def priority : VmBusDriver → ℕ
  | netvsc => 10

/-- The driver's `matches`. -/
def accepts : VmBusDriver → ChannelOffer → Bool
  | netvsc, offer => offer.deviceType = netvscGuid

/-- `NetvscDevice::init`, which looks its offer up by type: the channel it opened, if
any, and whether it succeeded.  `host` says how the host answers each attempt. -/
def netvscInit (host : ℕ → Handshake) (vmbus : VmBus) : Option UInt32 × Bool :=
  match vmbus.findOffer netvscGuid with
  | none => (none, false)
  | some offer =>
      match host vmbus.attempts with
      | .openFails => (none, false)
      | .initFails => (some offer.childRelid, false)
      | .ready => (some offer.childRelid, true)

/-- The probe of `offer`; the history records what was opened for it. -/
def netvscProbe (host : ℕ → Handshake) (offer : ChannelOffer) (ctx : ProbeCtx) :
    ProbeCtx × Except ProbeError Nic :=
  match ctx.vmbus with
  | none => (ctx, .error (.driver "netvsc: vmbus unavailable"))
  | some vmbus =>
      let (channel, ok) := netvscInit host vmbus
      let opened := channel.toList.map fun relid => ⟨offer.childRelid, relid⟩
      let vmbus := { vmbus with opened := vmbus.opened ++ opened, attempts := vmbus.attempts + 1 }
      let ctx := { ctx with vmbus := some vmbus }
      match channel, ok with
      | some relid, true => (ctx, .ok (.netvsc relid))
      | _, _ => (ctx, .error (.driver "netvsc: NetvscDevice::init failed"))

def probe (host : ℕ → Handshake) :
    VmBusDriver → ChannelOffer → ProbeCtx → ProbeCtx × Except ProbeError Nic
  | netvsc => netvscProbe host

end VmBusDriver

/-! ### The registry and the loop -/

def probeBudget : ℕ := 4

structure DriverRegistry where
  pci : List PciDriver
  vmbus : List VmBusDriver

def registerDefaultDrivers : DriverRegistry := ⟨[.e1000, .tulip], [.netvsc]⟩

def registerNamedDriver (name : String) : DriverRegistry :=
  if name = "e1000" then ⟨[.e1000], []⟩
  else if name = "tulip" then ⟨[.tulip], []⟩
  else if name = "netvsc" then ⟨[], [.netvsc]⟩
  else ⟨[], []⟩

/-- The registry of `kmain`, with or without a `nic=` filter. -/
def kmainRegistry : Option String → DriverRegistry
  | none => registerDefaultDrivers
  | some name => registerNamedDriver name

/-- The state of the loop. -/
structure Probing where
  ctx : ProbeCtx
  nics : List ProbedNic
  claimed : List (UInt8 × UInt8 × UInt8)

/-- Try the drivers in order until one succeeds; the result says whether one did. -/
def tryDrivers {δ : Type} (accepts : δ → Bool)
    (probe : δ → ProbeCtx → ProbeCtx × Except ProbeError Nic) (wrap : δ → Nic → ProbedNic) :
    List δ → Probing → Probing × Bool
  | [], p => (p, false)
  | drv :: drvs, p =>
      if accepts drv then
        match probe drv p.ctx with
        | (ctx, .ok nic) => ({ p with ctx, nics := p.nics ++ [wrap drv nic] }, true)
        | (ctx, .error _) => tryDrivers accepts probe wrap drvs { p with ctx }
      else tryDrivers accepts probe wrap drvs p

/-- Visit the devices of a bus until the budget is used up. -/
def scan {ι : Type} (visit : Probing → ι → Probing) : Probing → List ι → Probing
  | p, [] => p
  | p, x :: xs => if probeBudget ≤ p.nics.length then p else scan visit (visit p x) xs

def PciDevice.key (dev : PciDevice) : UInt8 × UInt8 × UInt8 := (dev.bus, dev.dev, dev.func)

def visitPci (drvs : List PciDriver) (p : Probing) (dev : PciDevice) : Probing :=
  if dev.key ∈ p.claimed then p
  else
    let (p, claimed) := tryDrivers (fun drv => drv.accepts dev) (fun drv => drv.probe dev)
      (fun drv nic => ⟨nic, drv.priority, drv.name⟩) drvs p
    if claimed then { p with claimed := dev.key :: p.claimed } else p

def visitVmBus (host : ℕ → Handshake) (drvs : List VmBusDriver) (p : Probing)
    (offer : ChannelOffer) : Probing :=
  (tryDrivers (fun drv => drv.accepts offer) (fun drv => drv.probe host offer)
    (fun drv nic => ⟨nic, drv.priority, drv.name⟩) drvs p).1

def scanPci (registry : DriverRegistry) (ctx : ProbeCtx) (devs : List PciDevice) : Probing :=
  scan (visitPci registry.pci) ⟨ctx, [], []⟩ devs

def probeAll (host : ℕ → Handshake) (registry : DriverRegistry) (ctx : ProbeCtx)
    (devs : List PciDevice) : Probing :=
  let p := scanPci registry ctx devs
  let offers := match p.ctx.vmbus with
    | some vmbus => vmbus.offers
    | none => []
  scan (visitVmBus host registry.vmbus) p offers

/-! ### Rules for the loops -/

/-- What each visit keeps, the scan keeps. -/
theorem scan_invariant {ι : Type} {visit : Probing → ι → Probing} {I : Probing → Prop}
    {xs : List ι} {p : Probing} (h : I p) (hstep : ∀ q x, x ∈ xs → I q → I (visit q x)) :
    I (scan visit p xs) := by
  induction xs generalizing p with
  | nil => exact h
  | cons x xs ih =>
    unfold scan
    split
    · exact h
    · exact ih (hstep p x List.mem_cons_self h)
        fun q y hy => hstep q y (List.mem_cons_of_mem x hy)

theorem scan_of_budget {ι : Type} {visit : Probing → ι → Probing} {xs : List ι} {p : Probing}
    (h : probeBudget ≤ p.nics.length) : scan visit p xs = p := by
  cases xs with
  | nil => rfl
  | cons x xs => rw [scan, if_pos h]

section

variable {δ : Type} {accepts : δ → Bool} {probe : δ → ProbeCtx → ProbeCtx × Except ProbeError Nic}
  {wrap : δ → Nic → ProbedNic} {drvs : List δ}

/-- What each probe keeps, trying the drivers keeps. -/
theorem tryDrivers_invariant {I : ProbeCtx → Prop} {p : Probing} (h : I p.ctx)
    (hstep : ∀ drv ∈ drvs, accepts drv = true → ∀ ctx, I ctx → I (probe drv ctx).1) :
    I (tryDrivers accepts probe wrap drvs p).1.ctx := by
  induction drvs generalizing p with
  | nil => exact h
  | cons drv drvs ih =>
    have hrest : ∀ d ∈ drvs, accepts d = true → ∀ ctx, I ctx → I (probe d ctx).1 :=
      fun d hd => hstep d (List.mem_cons_of_mem drv hd)
    unfold tryDrivers
    split
    · rename_i haccept
      have hnext := hstep drv List.mem_cons_self haccept p.ctx h
      split
      · rename_i ctx nic hprobe
        rwa [hprobe] at hnext
      · rename_i ctx e hprobe
        rw [hprobe] at hnext
        exact ih hnext hrest
    · exact ih h hrest

/-- Either no driver succeeds, or the last one tried brings up its NIC. -/
theorem tryDrivers_cases (p : Probing) :
    (tryDrivers accepts probe wrap drvs p).1.nics = p.nics ∨
      ∃ drv ∈ drvs, accepts drv = true ∧ ∃ ctx nic,
        probe drv ctx = ((tryDrivers accepts probe wrap drvs p).1.ctx, .ok nic) ∧
        (tryDrivers accepts probe wrap drvs p).1.nics = p.nics ++ [wrap drv nic] := by
  induction drvs generalizing p with
  | nil => exact .inl rfl
  | cons drv drvs ih =>
    have hlift : ∀ q : Probing, q.nics = p.nics →
        (tryDrivers accepts probe wrap drvs q).1.nics = p.nics ∨
          ∃ d ∈ drv :: drvs, accepts d = true ∧ ∃ ctx nic,
            probe d ctx = ((tryDrivers accepts probe wrap drvs q).1.ctx, .ok nic) ∧
            (tryDrivers accepts probe wrap drvs q).1.nics = p.nics ++ [wrap d nic] := by
      intro q hnics
      rcases ih q with hn | ⟨d, hd, haccept, ctx, nic, hprobe, hn⟩
      · exact .inl (hn.trans hnics)
      · exact .inr ⟨d, List.mem_cons_of_mem drv hd, haccept, ctx, nic, hprobe, hnics ▸ hn⟩
    unfold tryDrivers
    split
    · rename_i haccept
      split
      · rename_i ctx nic hprobe
        exact .inr ⟨drv, List.mem_cons_self, haccept, p.ctx, nic, hprobe, rfl⟩
      · exact hlift _ rfl
    · exact hlift p rfl

theorem tryDrivers_of_none {p : Probing} (h : ∀ drv ∈ drvs, accepts drv = false) :
    tryDrivers accepts probe wrap drvs p = (p, false) := by
  induction drvs with
  | nil => rfl
  | cons drv drvs ih =>
    rw [tryDrivers, if_neg (by simp [h drv List.mem_cons_self])]
    exact ih fun d hd => h d (List.mem_cons_of_mem drv hd)

/-- A single driver that accepts the device. -/
theorem tryDrivers_singleton {p : Probing} {drv : δ} (h : accepts drv = true) :
    (tryDrivers accepts probe wrap [drv] p).1.ctx = (probe drv p.ctx).1 ∧
      ∀ e, (probe drv p.ctx).2 = .error e →
        (tryDrivers accepts probe wrap [drv] p).1.nics = p.nics := by
  rw [tryDrivers, if_pos h]
  cases hprobe : probe drv p.ctx with
  | mk ctx r =>
    cases r with
    | ok nic => exact ⟨rfl, fun e he => by cases he⟩
    | error e => exact ⟨rfl, fun _ _ => rfl⟩

/-- If a driver accepts the device, the context is that of the last probe. -/
theorem tryDrivers_last {I : ProbeCtx → Prop} {p : Probing} (h : I p.ctx)
    (hstep : ∀ drv ∈ drvs, accepts drv = true → ∀ ctx, I ctx → I (probe drv ctx).1)
    (hex : ∃ drv ∈ drvs, accepts drv = true) :
    ∃ drv ∈ drvs, accepts drv = true ∧ ∃ ctx, I ctx ∧
      (tryDrivers accepts probe wrap drvs p).1.ctx = (probe drv ctx).1 := by
  induction drvs generalizing p with
  | nil =>
    obtain ⟨drv, hd, -⟩ := hex
    exact absurd hd List.not_mem_nil
  | cons drv drvs ih =>
    have htail : ∀ q : Probing, I q.ctx → (∃ d ∈ drvs, accepts d = true) →
        ∃ d ∈ drv :: drvs, accepts d = true ∧ ∃ ctx, I ctx ∧
          (tryDrivers accepts probe wrap drvs q).1.ctx = (probe d ctx).1 := by
      intro q hq hd
      obtain ⟨d, hd, hrest⟩ := ih hq (fun d hd => hstep d (List.mem_cons_of_mem drv hd)) hd
      exact ⟨d, List.mem_cons_of_mem drv hd, hrest⟩
    unfold tryDrivers
    by_cases haccept : accepts drv = true
    · rw [if_pos haccept]
      have hnext := hstep drv List.mem_cons_self haccept p.ctx h
      cases hprobe : probe drv p.ctx with
      | mk ctx r =>
        have hthis : ctx = (probe drv p.ctx).1 := by rw [hprobe]
        cases r with
        | ok nic => exact ⟨drv, List.mem_cons_self, haccept, p.ctx, h, hthis⟩
        | error e =>
          -- the next drivers are tried, if one of them accepts the device
          by_cases hd : ∃ d ∈ drvs, accepts d = true
          · rw [hprobe] at hnext
            exact htail { p with ctx } hnext hd
          · have hnone : ∀ d ∈ drvs, accepts d = false := by simpa using hd
            dsimp only
            rw [tryDrivers_of_none hnone]
            exact ⟨drv, List.mem_cons_self, haccept, p.ctx, h, hthis⟩
    · rw [if_neg haccept]
      obtain ⟨d, hd, hda⟩ := hex
      rcases List.mem_cons.mp hd with rfl | hmem
      · exact absurd hda haccept
      · exact htail p h ⟨d, hmem, hda⟩

end

end Boot
