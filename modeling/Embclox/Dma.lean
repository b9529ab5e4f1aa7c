/-
Who holds the DMA memory.

`BootDmaAllocator` takes its regions from the global allocator and gives them back with an
address that it computes from the region and with the alignment of a page.  The PCI
drivers allocate four regions for a device and free them when it is dropped, which happens
when the interrupt cannot be installed.  `NetvscDevice::init` allocates up to three regions
and frees none when it fails.

* `allocAll_spec`, `freeAll_spec` — a region that is freed is a block of the global
  allocator, with the layout it was allocated with;
* `Keeps`, `probeAll_keeps` — what every driver keeps, the probe loops keep;
* `Accounted` — what is allocated after the probe loops belongs to the NICs that came up or
  to a VMBus probe that failed;
* `accounted_of_probe` — it does, for every allocator and every outcome of the probes.
-/
import Embclox.E1000
import Embclox.Netvsc
import Embclox.Registry
import Embclox.Tulip

open Boot Effect

namespace Dma

/-! ### The allocator -/

structure Layout where
  size : ℕ
  align : ℕ
  deriving DecidableEq

/-- The conditions of `Layout::from_size_align`. -/
def Layout.valid (l : Layout) : Bool :=
  decide (l.align ≠ 0) && decide (l.align &&& (l.align - 1) = 0) &&
    decide (l.size + l.align ≤ 0x8000000000000000)

structure Block where
  addr : UInt64
  layout : Layout
  deriving DecidableEq

def Apart (b c : Block) : Prop :=
  b.addr.toNat + b.layout.size ≤ c.addr.toNat ∨ c.addr.toNat + c.layout.size ≤ b.addr.toNat

/-- The global allocator: where a block goes, or a null pointer. -/
structure GlobalAlloc where
  pick : List Block → Layout → Option UInt64
  apart : ∀ {live layout a}, pick live layout = some a → ∀ b ∈ live, Apart ⟨a, layout⟩ b

structure DmaRegion where
  vaddr : UInt64
  paddr : UInt64
  size : ℕ
  deriving DecidableEq

structure BootDmaAllocator where
  heap : GlobalAlloc
  kernelOffset : UInt64
  physOffset : UInt64
  /-- The heap lies above the offset, as part of the kernel image. -/
  above : ∀ {live layout a}, heap.pick live layout = some a → kernelOffset.toNat ≤ a.toNat

/-- A call of `dealloc` that breaks its contract. -/
inductive Misuse
  | dealloc

/-- The blocks in use. -/
structure Heap where
  live : List Block

variable (dma : BootDmaAllocator)

def allocCoherent (size align : ℕ) : Prog Heap Misuse DmaRegion := fun h =>
  if Layout.valid ⟨size, align⟩ then
    match dma.heap.pick h.live ⟨size, align⟩ with
    | none => (.panic, h)
    | some ptr =>
        let paddr := ptr - dma.kernelOffset
        (.ok ⟨paddr + dma.physOffset, paddr, size⟩, ⟨h.live ++ [⟨ptr, ⟨size, align⟩⟩]⟩)
  else (.panic, h)

/-- The block that `free_coherent` hands to `dealloc`. -/
def blockOf (region : DmaRegion) : Block :=
  ⟨region.vaddr - dma.physOffset + dma.kernelOffset, ⟨region.size, 4096⟩⟩

def freeCoherent (region : DmaRegion) : Prog Heap Misuse Unit := fun h =>
  if h.live.contains (blockOf dma region) then (.ok (), ⟨h.live.erase (blockOf dma region)⟩)
  else (.err .dealloc, h)

/-! ### Devices -/

def pageSize : ℕ := 4096

/-- Whole pages for this many bytes. -/
def pages (bytes : ℕ) : ℕ := (bytes + pageSize - 1) / pageSize * pageSize

/-- The regions of `new`: the rings of 16-byte descriptors and the buffers, for transmit
and receive. -/
def cardSizes : PciDriver → List ℕ
  | .e1000 => [pages (E1000.txRingSize * 16), pages (E1000.rxRingSize * 16),
      pages (E1000.txRingSize * E1000.mbufSize), pages (E1000.rxRingSize * E1000.mbufSize)]
  | .tulip => [pages (Tulip.txRingSize * 16), pages (Tulip.rxRingSize * 16),
      pages (Tulip.txRingSize * Tulip.mbufSize), pages (Tulip.rxRingSize * Tulip.mbufSize)]

def allocAll : List ℕ → Prog Heap Misuse (List DmaRegion)
  | [] => pure []
  | size :: sizes => do
      let region ← allocCoherent dma size pageSize
      let regions ← allocAll sizes
      return region :: regions

def freeAll : List DmaRegion → Prog Heap Misuse Unit
  | [] => pure ()
  | region :: regions => do
      freeCoherent dma region
      freeAll regions

/-- The assertions of the Tulip driver: the rings, the buffers and the ends of the buffers
are below 4 GiB. -/
def addr32 (regions : List DmaRegion) : Bool :=
  regions.all (fun r => decide (r.paddr.toNat ≤ 0xFFFFFFFF)) &&
    (regions.drop 2).all fun r => decide (r.paddr.toNat + r.size - 1 ≤ 0xFFFFFFFF)

/-- `new`, as far as it concerns the memory. -/
def newDevice (card : PciDriver) : Prog Heap Misuse (List DmaRegion) := do
  let regions ← allocAll dma (cardSizes card)
  if card = .tulip ∧ addr32 regions = false then Prog.panic else return regions

/-! ### Probes -/

inductive Fault
  | panicked
  | misuse
  deriving DecidableEq

/-- The context of a probe.  After a fault nothing runs any more. -/
structure Ctx (ρ : Type) where
  heap : Heap
  /-- The blocks that a failed VMBus probe has left behind. -/
  leaked : List Block
  fault : Option Fault
  rest : ρ

/-- How far `NetvscDevice::init` gets: to a failure before or after one of its
allocations, or to its end. -/
inductive Stage
  | offer
  | ring
  | recvBuf
  | sendBuf
  | up
  deriving DecidableEq

def Stage.sizes : Stage → List ℕ
  | .offer => []
  | .ring => [Netvsc.netvscRingSize]
  | .recvBuf => [Netvsc.netvscRingSize, Netvsc.netvscRecvBufSize]
  | .sendBuf | .up =>
      [Netvsc.netvscRingSize, Netvsc.netvscRecvBufSize, Netvsc.netvscSendBufSize]

/-- The allocator, and what the probes do apart from their memory. -/
structure Machine (ρ : Type) where
  dma : BootDmaAllocator
  install : PciDriver → PciDevice → ρ → ρ × Except ProbeError Unit
  netvsc : ChannelOffer → ρ → ρ × Stage

variable {ρ : Type}

def Ctx.stop (ctx : Ctx ρ) (fault : Fault) : Ctx ρ × Except ProbeError (List DmaRegion) :=
  ({ ctx with fault := some fault }, .error .dmaAlloc)

/-- The device is dropped when the probe fails. -/
def discard (M : Machine ρ) (ctx : Ctx ρ) (regions : List DmaRegion) (e : ProbeError) :
    Ctx ρ × Except ProbeError (List DmaRegion) :=
  match freeAll M.dma regions ctx.heap with
  | (.ok _, heap) => ({ ctx with heap }, .error e)
  | (.err _, _) => ctx.stop .misuse
  | (.panic, _) => ctx.stop .panicked

def probeCard (M : Machine ρ) (card : PciDriver) (dev : PciDevice) (ctx : Ctx ρ) :
    Ctx ρ × Except ProbeError (List DmaRegion) :=
  match ctx.fault with
  | some fault => ctx.stop fault
  | none =>
    match newDevice M.dma card ctx.heap with
    | (.ok regions, heap) =>
        match M.install card dev ctx.rest with
        | (rest, .ok _) => ({ ctx with heap, rest }, .ok regions)
        | (rest, .error e) => discard M { ctx with heap, rest } regions e
    | (.err _, _) => ctx.stop .misuse
    | (.panic, _) => ctx.stop .panicked

def probeNetvsc (M : Machine ρ) (offer : ChannelOffer) (ctx : Ctx ρ) :
    Ctx ρ × Except ProbeError (List DmaRegion) :=
  match ctx.fault with
  | some fault => ctx.stop fault
  | none =>
    let rest := (M.netvsc offer ctx.rest).1
    let stage := (M.netvsc offer ctx.rest).2
    match allocAll M.dma stage.sizes ctx.heap with
    | (.ok regions, heap) =>
        if stage = .up then ({ ctx with heap, rest }, .ok regions)
        else ({ ctx with heap, rest, leaked := ctx.leaked ++ regions.map (blockOf M.dma) },
          .error (.driver "netvsc: NetvscDevice::init failed"))
    | (.err _, _) => ctx.stop .misuse
    | (.panic, _) => ctx.stop .panicked

/-- A driver of the registry. -/
def pciDriver (M : Machine ρ) (card : PciDriver) :
    Registry.Driver (Ctx ρ) (List DmaRegion) PciDevice where
  name := match card with
    | .e1000 => "e1000"
    | .tulip => "tulip"
  priority := match card with
    | .e1000 => 20
    | .tulip => 30
  accepts := card.accepts
  probe := probeCard M card

def netvscDriver (M : Machine ρ) :
    Registry.Driver (Ctx ρ) (List DmaRegion) ChannelOffer where
  name := "netvsc"
  priority := 10
  accepts := fun offer => decide (offer.deviceType = netvscGuid)
  probe := probeNetvsc M

/-- The registry with these PCI drivers, and with the VMBus driver or without it. -/
def registry (M : Machine ρ) (cards : List PciDriver) (vmbus : Bool) :
    Registry.DriverRegistry (Ctx ρ) (List DmaRegion) where
  pci := cards.map (pciDriver M)
  vmbus := if vmbus then [netvscDriver M] else []

/-- The regions of the NICs. -/
def regionsOf (nics : List (Registry.ProbedNic (List DmaRegion))) : List DmaRegion :=
  nics.flatMap Registry.ProbedNic.driver

/-- Two regions that a device and its card can use at the same time. -/
def PhysApart (r s : DmaRegion) : Prop :=
  r.paddr.toNat + r.size ≤ s.paddr.toNat ∨ s.paddr.toNat + s.size ≤ r.paddr.toNat

/-- The blocks in use do not overlap. -/
structure Sound (live : List Block) : Prop where
  apart : live.Pairwise Apart
  pos : ∀ b ∈ live, 0 < b.layout.size

/-- What the probe loops leave allocated, besides `base`. -/
structure Held (dma : BootDmaAllocator) (base : List Block) (ctx : Ctx ρ)
    (regions : List DmaRegion) : Prop where
  live : ctx.heap.live.Perm (base ++ regions.map (blockOf dma) ++ ctx.leaked)
  sound : Sound ctx.heap.live
  /-- Neither do the regions of the NICs, at the addresses that the cards use. -/
  apart : regions.Pairwise PhysApart

/-- After the PCI loop, and after both loops. -/
structure Accounted (M : Machine ρ) (base : List Block)
    (pci : Registry.Loop (Ctx ρ) (List DmaRegion) PciDevice)
    (all : Registry.Probed (Ctx ρ) (List DmaRegion)) : Prop where
  /-- No block is freed that is not in use, and none with another layout. -/
  no_misuse : all.ctx.fault ≠ some .misuse
  /-- A PCI probe that fails leaves nothing behind. -/
  pci : pci.ctx.fault = none →
    pci.ctx.leaked = [] ∧ Held M.dma base pci.ctx (regionsOf pci.nics)
  all : all.ctx.fault = none → Held M.dma base all.ctx (regionsOf all.nics)

/-! ### Blocks -/

variable {dma}

theorem Apart.symm {b c : Block} (h : Apart b c) : Apart c b := Or.symm h

theorem Sound.notMem {live bs : List Block} {b : Block} (h : Sound (live ++ b :: bs)) :
    b ∉ live := by
  intro hmem
  have hself := (List.pairwise_append.mp h.apart).2.2 b hmem b List.mem_cons_self
  have hpos := h.pos b (List.mem_append_left _ hmem)
  unfold Apart at hself
  omega

theorem Sound.of_cons {live bs : List Block} {b : Block} (h : Sound (live ++ b :: bs)) :
    Sound (live ++ bs) := by
  have hsub : (live ++ bs).Sublist (live ++ b :: bs) :=
    (List.Sublist.refl live).append (List.sublist_cons_self b bs)
  exact ⟨h.apart.sublist hsub, fun c hc => h.pos c (hsub.subset hc)⟩

/-- The region of a block: `free_coherent` finds the block again. -/
structure Placed (dma : BootDmaAllocator) (r : DmaRegion) : Prop where
  mapped : r.vaddr - dma.physOffset = r.paddr
  phys : (r.paddr + dma.kernelOffset).toNat = r.paddr.toNat + dma.kernelOffset.toNat

theorem Placed.addr {r : DmaRegion} (h : Placed dma r) :
    (blockOf dma r).addr.toNat = r.paddr.toNat + dma.kernelOffset.toNat := by
  rw [blockOf, h.mapped, h.phys]

theorem physApart_of_apart {r s : DmaRegion} (hr : Placed dma r) (hs : Placed dma s)
    (h : Apart (blockOf dma r) (blockOf dma s)) : PhysApart r s := by
  unfold Apart at h
  rw [hr.addr, hs.addr] at h
  simp only [blockOf] at h
  unfold PhysApart
  omega

/-- **`alloc_coherent`** returns a region whose block is new. -/
theorem allocCoherent_spec {h : Heap} (hs : Sound h.live) {size : ℕ} (hpos : 0 < size) :
    (∃ r, allocCoherent dma size pageSize h = (.ok r, ⟨h.live ++ [blockOf dma r]⟩) ∧
        Placed dma r ∧ Sound (h.live ++ [blockOf dma r])) ∨
      allocCoherent dma size pageSize h = (.panic, h) := by
  unfold allocCoherent
  split
  · cases hpick : dma.heap.pick h.live ⟨size, pageSize⟩ with
    | none => exact .inr rfl
    | some ptr =>
      have hblock : blockOf dma ⟨ptr - dma.kernelOffset + dma.physOffset, ptr - dma.kernelOffset,
          size⟩ = ⟨ptr, ⟨size, pageSize⟩⟩ := by
        rw [blockOf, UInt64.add_sub_cancel, UInt64.sub_add_cancel]
        rfl
      refine .inl ⟨_, by rw [hblock], ⟨UInt64.add_sub_cancel .., ?_⟩, ?_⟩
      · -- the subtraction of the offset does not wrap around
        have habove := dma.above hpick
        rw [UInt64.sub_add_cancel, UInt64.toNat_sub_of_le _ _ habove]
        omega
      · rw [hblock]
        refine ⟨List.pairwise_append.mpr ⟨hs.apart, List.pairwise_singleton _ _, ?_⟩, ?_⟩
        · intro b hb c hc
          obtain rfl := List.mem_singleton.mp hc
          exact (dma.heap.apart hpick b hb).symm
        · intro b hb
          rcases List.mem_append.mp hb with hb | hb
          · exact hs.pos b hb
          · obtain rfl := List.mem_singleton.mp hb
            exact hpos
  · exact .inr rfl

theorem allocAll_spec {sizes : List ℕ} (hpos : ∀ size ∈ sizes, 0 < size) {h : Heap}
    (hs : Sound h.live) :
    (∃ rs, allocAll dma sizes h = (.ok rs, ⟨h.live ++ rs.map (blockOf dma)⟩) ∧
        (∀ r ∈ rs, Placed dma r) ∧ Sound (h.live ++ rs.map (blockOf dma))) ∨
      ∃ h', allocAll dma sizes h = (.panic, h') := by
  induction sizes generalizing h with
  | nil => exact .inl ⟨[], by rw [List.map_nil, List.append_nil]; rfl, by simp, by simpa using hs⟩
  | cons size sizes ih =>
    rw [allocAll, Prog.bind_apply]
    rcases allocCoherent_spec hs (hpos size List.mem_cons_self) with ⟨r, heq, hr, hs'⟩ | heq
    · -- the other regions come behind the first
      rw [heq]
      dsimp only
      rw [Prog.bind_apply]
      rcases ih (h := ⟨h.live ++ [blockOf dma r]⟩) (fun x hx => hpos x (List.mem_cons_of_mem _ hx))
        hs' with ⟨rs, heq', hrs, hs''⟩ | ⟨h', heq'⟩
      · rw [heq']
        refine .inl ⟨r :: rs, ?_, ?_, ?_⟩
        · simp
        · intro x hx
          rcases List.mem_cons.mp hx with rfl | hx
          · exact hr
          · exact hrs x hx
        · simpa using hs''
      · rw [heq']
        exact .inr ⟨h', rfl⟩
    · rw [heq]
      exact .inr ⟨h, rfl⟩

/-- **Freeing the regions** of a device gives back exactly its blocks. -/
theorem freeAll_spec {live : List Block} {rs : List DmaRegion}
    (hs : Sound (live ++ rs.map (blockOf dma))) :
    freeAll dma rs ⟨live ++ rs.map (blockOf dma)⟩ = (.ok (), ⟨live⟩) := by
  induction rs with
  | nil =>
    rw [List.map_nil, List.append_nil]
    rfl
  | cons r rs ih =>
    rw [List.map_cons] at hs ⊢
    have hmem : (live ++ blockOf dma r :: rs.map (blockOf dma)).contains (blockOf dma r) =
        true := by
      simp
    -- the block is not among the others, so that only it is erased
    rw [freeAll, Prog.bind_apply, freeCoherent]
    dsimp only
    rw [if_pos hmem, List.erase_append_right _ hs.notMem, List.erase_cons_head]
    exact ih hs.of_cons

/-! ### The probe loops -/

/-- The driver keeps `I`, which is about the context and the NICs that are up. -/
structure Keeps {σ ν τ : Type} (I : σ → List ν → Prop) (drv : Registry.Driver σ ν τ) : Prop where
  up : ∀ {x ctx ctx' nic held}, I ctx held → drv.probe x ctx = (ctx', .ok nic) →
    I ctx' (held ++ [nic])
  down : ∀ {x ctx ctx' e held}, I ctx held → drv.probe x ctx = (ctx', .error e) → I ctx' held

section

variable {σ ν τ : Type} {I : σ → List ν → Prop}

theorem tryDrivers_keeps {drvs : List (Registry.Driver σ ν τ)} (h : ∀ drv ∈ drvs, Keeps I drv)
    (x : τ) {ctx : σ} {held : List ν} (hI : I ctx held) :
    I (Registry.tryDrivers x drvs ctx).1
      (held ++ ((Registry.tryDrivers x drvs ctx).2.1.map Registry.ProbedNic.driver).toList) := by
  induction drvs generalizing ctx with
  | nil => simpa [Registry.tryDrivers] using hI
  | cons drv drvs ih =>
    have hdrv := h drv List.mem_cons_self
    have hrest := fun d hd => h d (List.mem_cons_of_mem drv hd)
    rw [Registry.tryDrivers]
    by_cases hyes : drv.accepts x = true
    · rw [if_pos hyes]
      split
      · rename_i ctx' nic hprobe
        exact hdrv.up hI hprobe
      · rename_i ctx' e hprobe
        exact ih hrest (hdrv.down hI hprobe)
    · rw [if_neg hyes]
      exact ih hrest hI

/-- `I` of the state of a loop. -/
def OfLoop (I : σ → List ν → Prop) (p : Registry.Loop σ ν τ) : Prop :=
  I p.ctx (p.nics.map Registry.ProbedNic.driver)

theorem tryDevice_keeps {drvs : List (Registry.Driver σ ν τ)} (h : ∀ drv ∈ drvs, Keeps I drv)
    (x : τ) {p : Registry.Loop σ ν τ} (hp : OfLoop I p) : OfLoop I (p.tryDevice drvs x).1 := by
  have hkeeps := tryDrivers_keeps h x hp
  simp only [OfLoop, Registry.Loop.tryDevice, List.map_append]
  rwa [← Option.toList_map]

theorem pciLoop_keeps (reached : ℕ → Bool) {registry : Registry.DriverRegistry σ ν}
    (h : ∀ drv ∈ registry.pci, Keeps I drv) {ctx : σ} (hI : I ctx []) (devs : List PciDevice) :
    OfLoop I (Registry.pciLoop reached registry ctx devs) := by
  refine Registry.scan_invariant (I := OfLoop I) hI fun p dev hp _ => ?_
  unfold Registry.visitPci
  split
  · exact hp
  · have hkeeps := tryDevice_keeps h dev hp
    dsimp only
    split
    · exact hkeeps
    · exact hkeeps

theorem probeAll_keeps {registry : Registry.DriverRegistry σ ν}
    (hpci : ∀ drv ∈ registry.pci, Keeps I drv) (hvmbus : ∀ drv ∈ registry.vmbus, Keeps I drv)
    (offersOf : σ → List ChannelOffer) {ctx : σ} (hI : I ctx []) (devs : List PciDevice) :
    I (Registry.probeAll registry offersOf ctx devs).ctx
      ((Registry.probeAll registry offersOf ctx devs).nics.map Registry.ProbedNic.driver) :=
  Registry.scan_invariant (I := OfLoop I) (pciLoop_keeps _ hpci hI devs)
    fun _ offer hp _ => tryDevice_keeps hvmbus offer hp

end

/-! ### The drivers -/

/-- The blocks in use are those of `base`, those of the NICs and those left behind. -/
structure Own (dma : BootDmaAllocator) (base : List Block) (ctx : Ctx ρ)
    (regions : List DmaRegion) : Prop where
  sound : Sound ctx.heap.live
  live : ctx.heap.live.Perm (base ++ regions.map (blockOf dma) ++ ctx.leaked)
  placed : ∀ r ∈ regions, Placed dma r

/-- The same for the NICs of the loops, as long as the machine runs. -/
structure Owns (dma : BootDmaAllocator) (base : List Block) (ctx : Ctx ρ)
    (held : List (List DmaRegion)) : Prop where
  no_misuse : ctx.fault ≠ some .misuse
  own : ctx.fault = none → Own dma base ctx held.flatten

variable {M : Machine ρ} {base : List Block} {ctx ctx' : Ctx ρ} {held : List (List DmaRegion)}

theorem Own.toHeld {regions : List DmaRegion} (h : Own dma base ctx regions) :
    Held dma base ctx regions := by
  refine ⟨h.live, h.sound, ?_⟩
  -- the blocks of the regions are among those in use
  have hsub : (regions.map (blockOf dma)).Pairwise Apart := by
    have hall := (h.live.pairwise_iff fun hab => Apart.symm hab).mp h.sound.apart
    exact (List.pairwise_append.mp (List.pairwise_append.mp hall).1).2.1
  rw [List.pairwise_map] at hsub
  exact hsub.imp_of_mem fun hr hs => physApart_of_apart (h.placed _ hr) (h.placed _ hs)

theorem cardSizes_pos (card : PciDriver) : ∀ size ∈ cardSizes card, 0 < size := by
  cases card <;> decide

theorem stageSizes_pos (stage : Stage) : ∀ size ∈ stage.sizes, 0 < size := by
  cases stage <;> decide

theorem perm_insert {live a b c d : List Block} (h : live.Perm (a ++ b ++ c)) :
    (live ++ d).Perm (a ++ (b ++ d) ++ c) := by
  refine (h.append_right d).trans ?_
  rw [List.append_assoc (a ++ b), ← List.append_assoc a b d, List.append_assoc (a ++ b)]
  exact List.perm_append_comm.append_left (a ++ b)

theorem Own.placed_append {regions rs : List DmaRegion} (h : Own dma base ctx regions)
    (hrs : ∀ r ∈ rs, Placed dma r) : ∀ r ∈ regions ++ rs, Placed dma r := by
  intro r hr
  rcases List.mem_append.mp hr with hr | hr
  · exact h.placed r hr
  · exact hrs r hr

/-- New regions, for a NIC. -/
theorem Own.up {regions rs : List DmaRegion} (h : Own dma base ctx regions)
    (hrs : ∀ r ∈ rs, Placed dma r) (hs : Sound (ctx.heap.live ++ rs.map (blockOf dma)))
    (rest : ρ) :
    Own dma base { ctx with heap := ⟨ctx.heap.live ++ rs.map (blockOf dma)⟩, rest }
      (regions ++ rs) := by
  refine ⟨hs, ?_, h.placed_append hrs⟩
  rw [List.map_append]
  exact perm_insert h.live

/-- New regions that are left behind. -/
theorem Own.leak {regions rs : List DmaRegion} (h : Own dma base ctx regions)
    (hs : Sound (ctx.heap.live ++ rs.map (blockOf dma))) (rest : ρ) :
    Own dma base { ctx with
      heap := ⟨ctx.heap.live ++ rs.map (blockOf dma)⟩
      rest
      leaked := ctx.leaked ++ rs.map (blockOf dma) } regions := by
  refine ⟨hs, ?_, h.placed⟩
  rw [← List.append_assoc]
  exact h.live.append_right _

theorem newDevice_spec (card : PciDriver) {h : Heap} (hs : Sound h.live) :
    (∃ rs, newDevice dma card h = (.ok rs, ⟨h.live ++ rs.map (blockOf dma)⟩) ∧
        (∀ r ∈ rs, Placed dma r) ∧ Sound (h.live ++ rs.map (blockOf dma))) ∨
      ∃ h', newDevice dma card h = (.panic, h') := by
  rw [newDevice, Prog.bind_apply]
  rcases allocAll_spec (cardSizes_pos card) hs with ⟨rs, heq, hrs⟩ | ⟨h', heq⟩
  · rw [heq]
    dsimp only
    split
    · exact .inr ⟨_, rfl⟩
    · exact .inl ⟨rs, rfl, hrs⟩
  · rw [heq]
    exact .inr ⟨h', rfl⟩

/-- A machine that has stopped. -/
theorem owns_stop {fault : Fault} (h : fault ≠ .misuse) :
    Owns dma base { ctx with fault := some fault } held :=
  ⟨by simpa using h, by simp⟩

/-- Everything that the probe of a card can do. -/
theorem probeCard_cases (card : PciDriver) (dev : PciDevice) (h : Owns M.dma base ctx held) :
    (∃ fault e, probeCard M card dev ctx = ({ ctx with fault := some fault }, .error e) ∧
        fault ≠ .misuse) ∨
      ∃ rs rest, ctx.fault = none ∧ (∀ r ∈ rs, Placed M.dma r) ∧
        Sound (ctx.heap.live ++ rs.map (blockOf M.dma)) ∧
        (probeCard M card dev ctx =
            ({ ctx with heap := ⟨ctx.heap.live ++ rs.map (blockOf M.dma)⟩, rest }, .ok rs) ∨
          ∃ e, probeCard M card dev ctx = ({ ctx with rest }, .error e)) := by
  unfold probeCard
  cases hfault : ctx.fault with
  | some fault =>
    refine .inl ⟨fault, _, rfl, ?_⟩
    rintro rfl
    exact h.no_misuse hfault
  | none =>
    dsimp only
    rcases newDevice_spec card (h.own hfault).sound with
      ⟨rs, heq, hrs, hs⟩ | ⟨h', heq⟩
    · -- the memory is there, and the rest of the probe decides whether it stays
      rw [heq]
      dsimp only
      right
      cases hinstall : M.install card dev ctx.rest with
      | mk rest res =>
        refine ⟨rs, rest, rfl, hrs, hs, ?_⟩
        cases res with
        | ok _ => exact .inl rfl
        | error e =>
          -- the device is dropped, and all that was allocated is freed
          refine .inr ⟨e, ?_⟩
          simp only [discard, freeAll_spec hs]
    · -- an allocation has failed
      rw [heq]
      exact .inl ⟨.panicked, _, rfl, by simp⟩

/-- Everything that the probe of an offer can do. -/
theorem probeNetvsc_cases (offer : ChannelOffer) (h : Owns M.dma base ctx held) :
    (∃ fault e, probeNetvsc M offer ctx = ({ ctx with fault := some fault }, .error e) ∧
        fault ≠ .misuse) ∨
      ∃ rs rest, ctx.fault = none ∧ (∀ r ∈ rs, Placed M.dma r) ∧
        Sound (ctx.heap.live ++ rs.map (blockOf M.dma)) ∧
        (probeNetvsc M offer ctx =
            ({ ctx with heap := ⟨ctx.heap.live ++ rs.map (blockOf M.dma)⟩, rest }, .ok rs) ∨
          ∃ e, probeNetvsc M offer ctx =
            ({ ctx with
              heap := ⟨ctx.heap.live ++ rs.map (blockOf M.dma)⟩
              rest
              leaked := ctx.leaked ++ rs.map (blockOf M.dma) }, .error e)) := by
  unfold probeNetvsc
  cases hfault : ctx.fault with
  | some fault =>
    refine .inl ⟨fault, _, rfl, ?_⟩
    rintro rfl
    exact h.no_misuse hfault
  | none =>
    dsimp only
    generalize (M.netvsc offer ctx.rest).1 = rest
    generalize (M.netvsc offer ctx.rest).2 = stage
    rcases allocAll_spec (stageSizes_pos stage) (h.own hfault).sound with
      ⟨rs, heq, hrs, hs⟩ | ⟨h', heq⟩
    · rw [heq]
      dsimp only
      refine .inr ⟨rs, rest, rfl, hrs, hs, ?_⟩
      -- whether or not the device comes up, nothing is freed
      split
      · exact .inl rfl
      · exact .inr ⟨_, rfl⟩
    · rw [heq]
      exact .inl ⟨.panicked, _, rfl, by simp⟩

theorem Owns.up (h : Owns dma base ctx held) {rs : List DmaRegion} (hrs : ∀ r ∈ rs, Placed dma r)
    (hs : Sound (ctx.heap.live ++ rs.map (blockOf dma))) (rest : ρ) :
    Owns dma base { ctx with heap := ⟨ctx.heap.live ++ rs.map (blockOf dma)⟩, rest }
      (held ++ [rs]) := by
  refine ⟨h.no_misuse, fun hfault => ?_⟩
  rw [List.flatten_append, List.flatten_singleton]
  exact (h.own hfault).up hrs hs rest

/-- A PCI driver, whether or not memory has been left behind before. -/
theorem pciDriver_keeps (M : Machine ρ) (base : List Block) (card : PciDriver) (L : Prop) :
    Keeps (fun ctx held => Owns M.dma base ctx held ∧ (L → ctx.leaked = []))
      (pciDriver M card) where
  up := by
    rintro dev ctx ctx' nic held ⟨h, hL⟩ hprobe
    rcases probeCard_cases card dev h with
      ⟨fault, e, heq, -⟩ | ⟨rs, rest, -, hrs, hs, heq | ⟨e, heq⟩⟩
    · exact absurd (heq.symm.trans hprobe) (by simp)
    · obtain ⟨rfl, hnic⟩ := Prod.mk.inj (heq.symm.trans hprobe)
      obtain rfl : rs = nic := by simpa using hnic
      exact ⟨h.up hrs hs rest, hL⟩
    · exact absurd (heq.symm.trans hprobe) (by simp)
  down := by
    rintro dev ctx ctx' e held ⟨h, hL⟩ hprobe
    rcases probeCard_cases card dev h with
      ⟨fault, e', heq, hf⟩ | ⟨rs, rest, -, -, -, heq | ⟨e', heq⟩⟩
    · obtain ⟨rfl, -⟩ := Prod.mk.inj (heq.symm.trans hprobe)
      exact ⟨owns_stop hf, hL⟩
    · exact absurd (heq.symm.trans hprobe) (by simp)
    · obtain ⟨rfl, -⟩ := Prod.mk.inj (heq.symm.trans hprobe)
      refine ⟨⟨h.no_misuse, fun hfault => ?_⟩, hL⟩
      exact ⟨(h.own hfault).sound, (h.own hfault).live, (h.own hfault).placed⟩

theorem netvscDriver_keeps (M : Machine ρ) (base : List Block) :
    Keeps (fun ctx held => Owns M.dma base ctx held ∧ (False → ctx.leaked = []))
      (netvscDriver M) where
  up := by
    rintro offer ctx ctx' nic held ⟨h, -⟩ hprobe
    rcases probeNetvsc_cases offer h with
      ⟨fault, e, heq, -⟩ | ⟨rs, rest, -, hrs, hs, heq | ⟨e, heq⟩⟩
    · exact absurd (heq.symm.trans hprobe) (by simp)
    · obtain ⟨rfl, hnic⟩ := Prod.mk.inj (heq.symm.trans hprobe)
      obtain rfl : rs = nic := by simpa using hnic
      exact ⟨h.up hrs hs rest, False.elim⟩
    · exact absurd (heq.symm.trans hprobe) (by simp)
  down := by
    rintro offer ctx ctx' e held ⟨h, -⟩ hprobe
    rcases probeNetvsc_cases offer h with
      ⟨fault, e', heq, hf⟩ | ⟨rs, rest, -, -, hs, heq | ⟨e', heq⟩⟩
    · obtain ⟨rfl, -⟩ := Prod.mk.inj (heq.symm.trans hprobe)
      exact ⟨owns_stop hf, False.elim⟩
    · exact absurd (heq.symm.trans hprobe) (by simp)
    · obtain ⟨rfl, -⟩ := Prod.mk.inj (heq.symm.trans hprobe)
      exact ⟨⟨h.no_misuse, fun hfault => (h.own hfault).leak hs rest⟩, False.elim⟩

theorem registry_pci_keeps (M : Machine ρ) (base : List Block) (cards : List PciDriver)
    (vmbus : Bool) (L : Prop) : ∀ drv ∈ (registry M cards vmbus).pci,
      Keeps (fun ctx held => Owns M.dma base ctx held ∧ (L → ctx.leaked = [])) drv := by
  intro drv hdrv
  obtain ⟨card, -, rfl⟩ := List.mem_map.mp hdrv
  exact pciDriver_keeps M base card L

theorem registry_vmbus_keeps (M : Machine ρ) (base : List Block) (cards : List PciDriver)
    (vmbus : Bool) : ∀ drv ∈ (registry M cards vmbus).vmbus,
      Keeps (fun ctx held => Owns M.dma base ctx held ∧ (False → ctx.leaked = [])) drv := by
  intro drv hdrv
  cases vmbus with
  | false => exact absurd hdrv List.not_mem_nil
  | true =>
    obtain rfl := List.mem_singleton.mp hdrv
    exact netvscDriver_keeps M base

theorem Owns.toHeld {nics : List (Registry.ProbedNic (List DmaRegion))}
    (h : Owns dma base ctx (nics.map Registry.ProbedNic.driver)) (hfault : ctx.fault = none) :
    Held dma base ctx (regionsOf nics) := by
  rw [regionsOf, List.flatMap_def]
  exact (h.own hfault).toHeld

/-- **The memory is accounted for** after the probe loops, for every allocator, every list
of devices and offers and every outcome of the probes. -/
theorem accounted_of_probe (M : Machine ρ) {base : List Block} (hbase : Sound base) (rest : ρ)
    (cards : List PciDriver) (vmbus : Bool) (offersOf : Ctx ρ → List ChannelOffer)
    (devs : List PciDevice) :
    Accounted M base
      (Registry.pciLoop Registry.budgetReached (registry M cards vmbus) ⟨⟨base⟩, [], none, rest⟩
        devs)
      (Registry.probeAll (registry M cards vmbus) offersOf ⟨⟨base⟩, [], none, rest⟩ devs) := by
  have hinit : Owns M.dma base (⟨⟨base⟩, [], none, rest⟩ : Ctx ρ) [] :=
    ⟨by simp, fun _ => ⟨hbase, by simp, by simp⟩⟩
  -- after both loops memory may have been left behind, after the PCI loop it has not
  have hall := (probeAll_keeps (registry_pci_keeps M base cards vmbus False)
    (registry_vmbus_keeps M base cards vmbus) offersOf ⟨hinit, False.elim⟩ devs).1
  obtain ⟨hpci, hleaked⟩ := pciLoop_keeps Registry.budgetReached
    (registry_pci_keeps M base cards vmbus True) ⟨hinit, fun _ => rfl⟩ devs
  exact ⟨hall.no_misuse, fun hfault => ⟨hleaked trivial, hpci.toHeld hfault⟩,
    fun hfault => hall.toHeld hfault⟩

/-- The end of the highest block. -/
def topOf (live : List Block) : ℕ :=
  live.foldr (fun b top => max (b.addr.toNat + b.layout.size) top) 0x200000

theorem le_topOf (live : List Block) : 0x200000 ≤ topOf live := by
  induction live with
  | nil => exact Nat.le_refl _
  | cons b live ih => exact Nat.le_trans ih (Nat.le_max_right _ _)

theorem finish_le_topOf {live : List Block} {b : Block} (h : b ∈ live) :
    b.addr.toNat + b.layout.size ≤ topOf live := by
  induction live with
  | nil => exact absurd h List.not_mem_nil
  | cons c live ih =>
    rcases List.mem_cons.mp h with rfl | h
    · exact Nat.le_max_left _ _
    · exact Nat.le_trans (ih h) (Nat.le_max_right _ _)

/-- An allocator that takes the next page above all blocks, up to 16 MiB. -/
def bumpPick (live : List Block) (layout : Layout) : Option UInt64 :=
  let ptr := pages (topOf live)
  if ptr + layout.size ≤ 0x1000000 then some (UInt64.ofNat ptr) else none

theorem bumpPick_spec {live : List Block} {layout : Layout} {a : UInt64}
    (h : bumpPick live layout = some a) : topOf live ≤ a.toNat := by
  simp only [bumpPick, Option.ite_none_right_eq_some, Option.some.injEq] at h
  obtain ⟨hle, rfl⟩ := h
  have hpages : topOf live ≤ pages (topOf live) := by
    unfold pages pageSize
    omega
  rw [UInt64.toNat_ofNat', Nat.mod_eq_of_lt (by omega)]
  exact hpages

def bumpAlloc : GlobalAlloc where
  pick := bumpPick
  apart := fun h _ hb => .inr (Nat.le_trans (finish_le_topOf hb) (bumpPick_spec h))

theorem offset_le_topOf (live : List Block) : (0x100000 : UInt64).toNat ≤ topOf live :=
  Nat.le_trans (by decide) (le_topOf live)

def bumpDma : BootDmaAllocator where
  heap := bumpAlloc
  kernelOffset := 0x100000
  physOffset := 0xFFFF800000000000
  above := fun {live _ _} h => Nat.le_trans (offset_le_topOf live) (bumpPick_spec h)

/-- The interrupt of the card in slot 3 cannot be installed, and the host does not accept
the receive buffer. -/
def faultyMachine : Machine Unit where
  dma := bumpDma
  install := fun _ dev rest => (rest, if dev.dev = 3 then .error .noFreeVector else .ok ())
  netvsc := fun _ rest => (rest, .recvBuf)

def twoCards : List PciDevice := [⟨0, 3, 0, 0x8086, 0x100E⟩, ⟨0, 4, 0, 0x8086, 0x100E⟩]

/-- The probes of two cards and an offer; the second card comes up. -/
def faultyProbe : Registry.Probed (Ctx Unit) (List DmaRegion) :=
  Registry.probeAll (registry faultyMachine [.e1000, .tulip] true)
    (fun _ => [⟨netvscGuid, 7⟩]) ⟨⟨[]⟩, [], none, ()⟩ twoCards

theorem accounted_two_cards :
    (faultyProbe.ctx.fault, faultyProbe.nics.length, faultyProbe.ctx.heap.live.length,
        faultyProbe.ctx.leaked.length) = (none, 1, 6, 2) ∧
      Held bumpDma [] faultyProbe.ctx (regionsOf faultyProbe.nics) := by
  have hrun : (faultyProbe.ctx.fault, faultyProbe.nics.length,
      faultyProbe.ctx.heap.live.length, faultyProbe.ctx.leaked.length) = (none, 1, 6, 2) := by
    decide +kernel
  refine ⟨hrun, (accounted_of_probe faultyMachine ⟨.nil, by simp⟩ () _ _ _ _).all ?_⟩
  exact (Prod.mk.inj hrun).1

end Dma
