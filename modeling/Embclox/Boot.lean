/-
Boot: `try_init`, the vector reservations of `kmain`, and the vectors that drivers get.

`try_init` sets the handler of the VMBus vector before it initialises VMBus, and
`kmain` reserves that vector only if the initialisation succeeds.

* `NoClash` — no driver gets a vector whose handler was set before probing;
* `noClash_iff` — it holds unless VMBus initialisation fails after its handler was
  set and at least two drivers get a vector;
* `vmbus_vector_handed_out` — then the second driver gets vector 34.
-/
import Embclox.Netvsc
import Embclox.Probe

open Netvsc (HvError)

namespace Boot

/-! ### `try_init` -/

structure HvFeatures where
  hasSynic : Bool
  hasHypercall : Bool

/-- What CPUID reports and how the stages of `init` end. -/
structure Machine where
  detect : Option HvFeatures
  hypercallPage : Except HvError Unit
  connect : Except HvError Unit
  requestOffers : Except HvError (List ChannelOffer)

def apicTimerVector : ℕ := 32
def vmbusVector : ℕ := 34
def spuriousVector : ℕ := 39

/-- `init`; setting up the SynIC, between the hypercall page and `connect`, cannot
fail. -/
def init (m : Machine) : Except HvError VmBus :=
  match m.detect with
  | none => .error .notHyperV
  | some features =>
      if !features.hasSynic then .error .noSynIC
      else if !features.hasHypercall then .error .noHypercall
      else do
        m.hypercallPage
        m.connect
        let offers ← m.requestOffers
        .ok ⟨offers, [], 0⟩

def tryInit (m : Machine) (idt : Idt) : Idt × Except HvError (Option VmBus) :=
  match m.detect with
  | some features =>
      if features.hasSynic && features.hasHypercall then
        -- the handler is set before the first message of the host can arrive
        (Function.update idt vmbusVector .vmbus, (init m).map some)
      else (idt, .ok none)
  | none => (idt, .ok none)

/-! ### `kmain` -/

/-- `idt::init` and `start_apic_timer`. -/
def bootIdt : Idt :=
  Function.update (Function.update (fun _ => .default) apicTimerVector .apicTimer)
    spuriousVector .spurious

/-- What the platform brings to `kmain`. -/
structure Platform where
  machine : Machine
  ioapic : IoApic
  pci : PciDevice → ℕ → UInt32
  nextVaddr : ℕ

/-- A failure of `try_init` is logged and boot goes on without VMBus. -/
def vmbusHolder (m : Machine) : Option VmBus :=
  match (tryInit m bootIdt).2 with
  | .ok opt => opt
  | .error _ => none

def reservations (m : Machine) : List ℕ :=
  if (vmbusHolder m).isSome then [32, 34, 39] else [32, 39]

/-- The probe context that `kmain` builds. -/
def kmainCtx (p : Platform) : Option ProbeCtx := do
  let irqAlloc ← VectorAllocator.new 32 47 (reservations p.machine)
  some {
    nextVaddr := p.nextVaddr, ioapic := p.ioapic, irqAlloc
    idt := (tryInit p.machine bootIdt).1
    pci := p.pci, vmbus := vmbusHolder p.machine
    e1000RegsBase := 0, csrForIsr := none }

/-! ### Calls of `install_pci_isr_on` -/

structure IsrCall where
  line : UInt8
  handler : Handler
  cpu : CpuId

/-- The line is wired and in the IOAPIC's table. -/
def IsrCall.valid (maxEntries : ℕ) (call : IsrCall) : Bool :=
  call.line != 0xFF && decide (call.line.toNat < maxEntries)

/-- The vectors that a sequence of calls returns. -/
def installAll (ctx : ProbeCtx) : List IsrCall → List ℕ
  | [] => []
  | call :: calls =>
      match ctx.installPciIsrOn call.line call.handler call.cpu with
      | (ctx, .ok isr) => isr.vector :: installAll ctx calls
      | (ctx, .error _) => installAll ctx calls

/-- A handler was set for the vector. -/
def Live (idt : Idt) (v : ℕ) : Prop := idt v ≠ .default

instance (idt : Idt) (v : ℕ) : Decidable (Live idt v) := inferInstanceAs (Decidable (_ ≠ _))

/-- No call returns a vector that was live before the first call. -/
def NoClash (p : Platform) (calls : List IsrCall) : Prop :=
  ∃ ctx, kmainCtx p = some ctx ∧ ∀ v ∈ installAll ctx calls, ¬ Live ctx.idt v

/-- VMBus initialisation fails after its handler has been set. -/
def FailsAfterInstall (m : Machine) : Prop :=
  ∃ features e, m.detect = some features ∧ features.hasSynic = true ∧
    features.hasHypercall = true ∧ init m = .error e

/-! ### What the calls return -/

/-- The vectors of `k` allocations in a row. -/
def allocs : ℕ → VectorAllocator → List ℕ
  | 0, _ => []
  | k + 1, a =>
      match a.allocate with
      | none => []
      | some (v, b) => v :: allocs k b

section

variable {ctx : ProbeCtx} {call : IsrCall} {calls : List IsrCall}

theorem install_invalid (h : call.valid ctx.ioapic.maxEntries = false) :
    ∃ e, ctx.installPciIsrOn call.line call.handler call.cpu = (ctx, .error e) := by
  unfold ProbeCtx.installPciIsrOn
  by_cases hff : call.line = 0xFF
  · exact ⟨_, if_pos hff⟩
  · rw [if_neg hff]
    by_cases hmax : ctx.ioapic.maxEntries ≤ call.line.toNat
    · exact ⟨_, if_pos hmax⟩
    · simp [IsrCall.valid, hff] at h
      exact absurd h hmax

theorem install_none (h : call.valid ctx.ioapic.maxEntries = true)
    (ha : ctx.irqAlloc.allocate = none) :
    ctx.installPciIsrOn call.line call.handler call.cpu = (ctx, .error .noFreeVector) := by
  simp only [IsrCall.valid, Bool.and_eq_true, bne_iff_ne, decide_eq_true_eq] at h
  rw [ProbeCtx.installPciIsrOn, if_neg h.1, if_neg (Nat.not_le.mpr h.2), ha]

theorem install_some (h : call.valid ctx.ioapic.maxEntries = true) {v : ℕ} {b : VectorAllocator}
    (ha : ctx.irqAlloc.allocate = some (v, b)) :
    ctx.installPciIsrOn call.line call.handler call.cpu =
      (ctx.wire call.line call.handler call.cpu v b, .ok ⟨v, call.cpu⟩) := by
  simp only [IsrCall.valid, Bool.and_eq_true, bne_iff_ne, decide_eq_true_eq] at h
  rw [ProbeCtx.installPciIsrOn, if_neg h.1, if_neg (Nat.not_le.mpr h.2), ha]

/-- Each call with a valid line is one allocation. -/
theorem installAll_eq_allocs (ctx : ProbeCtx) (calls : List IsrCall) :
    installAll ctx calls =
      allocs (calls.filter (IsrCall.valid ctx.ioapic.maxEntries)).length ctx.irqAlloc := by
  induction calls generalizing ctx with
  | nil => rfl
  | cons call calls ih =>
    unfold installAll
    cases hvalid : call.valid ctx.ioapic.maxEntries with
    | false =>
      obtain ⟨e, he⟩ := install_invalid hvalid
      rw [he, List.filter_cons_of_neg (by simp [hvalid])]
      exact ih ctx
    | true =>
      rw [List.filter_cons_of_pos hvalid, List.length_cons, allocs]
      cases halloc : ctx.irqAlloc.allocate with
      | none =>
        -- an exhausted allocator stays exhausted
        rw [install_none hvalid halloc]
        dsimp only
        rw [ih ctx]
        cases (calls.filter (IsrCall.valid ctx.ioapic.maxEntries)).length with
        | zero => rfl
        | succ k => rw [allocs, halloc]
      | some r =>
        rw [install_some hvalid halloc]
        dsimp only
        rw [ih]
        rfl

/-- A vector that is taken is never handed out. -/
theorem not_mem_allocs {k v : ℕ} {a : VectorAllocator} (h : a.taken v = true) :
    v ∉ allocs k a := by
  induction k generalizing a with
  | zero => exact List.not_mem_nil
  | succ k ih =>
    rw [allocs]
    cases halloc : a.allocate with
    | none => exact List.not_mem_nil
    | some r =>
      obtain ⟨w, b⟩ := r
      rw [List.mem_cons, not_or]
      refine ⟨?_, ih (VectorAllocator.taken_of_allocate halloc h)⟩
      rintro rfl
      rw [VectorAllocator.not_taken_of_allocate halloc] at h
      exact absurd h (by decide)

end

/-! ### Which vectors are live -/

theorem live_bootIdt {v : ℕ} (h : Live bootIdt v) : v = apicTimerVector ∨ v = spuriousVector := by
  by_contra hne
  rw [not_or] at hne
  apply h
  rw [bootIdt, Function.update_of_ne hne.2, Function.update_of_ne hne.1]

theorem tryInit_installs {m : Machine} {features : HvFeatures} (hd : m.detect = some features)
    (hs : features.hasSynic = true) (hh : features.hasHypercall = true) :
    tryInit m bootIdt = (Function.update bootIdt vmbusVector .vmbus, (init m).map some) := by
  simp [tryInit, hd, hs, hh]

/-- Without its features, `try_init` leaves the IDT alone. -/
theorem tryInit_skips {m : Machine} (h : ∀ features, m.detect = some features →
    ¬ (features.hasSynic = true ∧ features.hasHypercall = true)) :
    tryInit m bootIdt = (bootIdt, .ok none) := by
  unfold tryInit
  cases hd : m.detect with
  | none => rfl
  | some features =>
    have := h features hd
    dsimp only
    rw [if_neg (by rwa [Bool.and_eq_true])]

/-- Unless the initialisation fails after the handler was set, `kmain` reserves every
live vector. -/
theorem mem_reservations {m : Machine} (h : ¬ FailsAfterInstall m) {v : ℕ}
    (hv : Live (tryInit m bootIdt).1 v) : v ∈ reservations m ∧ 32 ≤ v ∧ v ≤ 47 := by
  by_cases hf : ∃ features, m.detect = some features ∧
      features.hasSynic = true ∧ features.hasHypercall = true
  · obtain ⟨features, hd, hs, hh⟩ := hf
    have htry := tryInit_installs hd hs hh
    have hres : reservations m = [32, 34, 39] := by
      unfold reservations vmbusHolder
      rw [htry]
      cases hinit : init m with
      | error e => exact absurd ⟨features, e, hd, hs, hh, hinit⟩ h
      | ok vmbus => rfl
    rw [htry] at hv
    rw [hres]
    by_cases heq : v = vmbusVector
    · subst heq
      decide
    · rw [Live] at hv
      dsimp only at hv
      rw [Function.update_of_ne heq] at hv
      rcases live_bootIdt hv with rfl | rfl
      · decide
      · decide
  · have htry := tryInit_skips fun features hd hboth => hf ⟨features, hd, hboth⟩
    have hres : reservations m = [32, 39] := by
      rw [reservations, vmbusHolder, htry]
      rfl
    rw [htry] at hv
    rw [hres]
    rcases live_bootIdt hv with rfl | rfl
    · decide
    · decide

/-! ### No clash -/

/-- The vectors that the calls return, from the allocator that `kmain` builds. -/
theorem noClash_iff_allocs (p : Platform) (calls : List IsrCall) :
    ∃ a, VectorAllocator.new 32 47 (reservations p.machine) = some a ∧
      (NoClash p calls ↔
        ∀ v ∈ allocs (calls.filter (IsrCall.valid p.ioapic.maxEntries)).length a,
          ¬ Live (tryInit p.machine bootIdt).1 v) := by
  obtain ⟨a, ha⟩ : ∃ a, VectorAllocator.new 32 47 (reservations p.machine) = some a :=
    ⟨_, dif_pos (by decide)⟩
  refine ⟨a, ha, ?_⟩
  unfold NoClash kmainCtx
  rw [ha]
  constructor
  · rintro ⟨ctx, hctx, h⟩
    obtain rfl := Option.some.inj hctx
    rwa [installAll_eq_allocs] at h
  · intro h
    refine ⟨_, rfl, ?_⟩
    rw [installAll_eq_allocs]
    exact h

/-- The allocator that does not reserve the VMBus vector hands it out second. -/
theorem allocs_unreserved {a : VectorAllocator} (ha : VectorAllocator.new 32 47 [32, 39] = some a) :
    allocs 1 a = [33] ∧ ∀ k, ∃ l, allocs (k + 2) a = 33 :: 34 :: l := by
  obtain rfl := Option.some.inj ha
  exact ⟨by decide, fun k => ⟨_, rfl⟩⟩

/-- After a late failure the VMBus vector is live and not reserved. -/
theorem FailsAfterInstall.spec {m : Machine} (h : FailsAfterInstall m) :
    (tryInit m bootIdt).1 = Function.update bootIdt vmbusVector .vmbus ∧
      reservations m = [32, 39] := by
  obtain ⟨features, e, hd, hs, hh, hinit⟩ := h
  have htry := tryInit_installs hd hs hh
  refine ⟨by rw [htry], ?_⟩
  rw [reservations, vmbusHolder, htry, hinit]
  rfl

/-- **Drivers never get a live vector, unless VMBus initialisation fails after its
handler was set and two of them get a vector.** -/
theorem noClash_iff (p : Platform) (calls : List IsrCall) :
    NoClash p calls ↔ ¬ FailsAfterInstall p.machine ∨
      (calls.filter (IsrCall.valid p.ioapic.maxEntries)).length ≤ 1 := by
  obtain ⟨a, ha, hiff⟩ := noClash_iff_allocs p calls
  rw [hiff]
  generalize (calls.filter (IsrCall.valid p.ioapic.maxEntries)).length = n
  by_cases hfail : FailsAfterInstall p.machine
  · obtain ⟨hidt, hres⟩ := hfail.spec
    rw [hres] at ha
    obtain ⟨hone, hmore⟩ := allocs_unreserved ha
    rw [hidt]
    constructor
    · intro h
      -- two vectors would be 33 and the live 34
      refine .inr (Nat.le_of_not_lt fun hlt => ?_)
      obtain ⟨k, rfl⟩ : ∃ k, n = k + 2 := ⟨n - 2, by omega⟩
      obtain ⟨l, hl⟩ := hmore k
      exact h 34 (by simp [hl]) (by decide)
    · rintro (hnot | hle)
      · exact absurd hfail hnot
      · rcases Nat.le_one_iff_eq_zero_or_eq_one.mp hle with rfl | rfl
        · exact fun v hv => absurd hv List.not_mem_nil
        · rw [hone]
          intro v hv
          obtain rfl := List.mem_singleton.mp hv
          decide
  · refine iff_of_true (fun v hv hlive => ?_) (.inl hfail)
    obtain ⟨hmem, hrange⟩ := mem_reservations hfail hlive
    exact not_mem_allocs (VectorAllocator.taken_new ha hmem hrange) hv

/-- A Hyper-V machine whose host does not answer. -/
def silentHost : Platform where
  machine := ⟨some ⟨true, true⟩, .ok (), .error .timeout, .ok []⟩
  ioapic := ⟨24, fun _ => none⟩
  pci := fun _ _ => 0
  nextVaddr := 0x400000000000

/-- The handler of the second PCI driver replaces that of VMBus. -/
theorem vmbus_vector_handed_out :
    (∃ ctx, kmainCtx silentHost = some ctx ∧ ctx.idt 34 = .vmbus ∧
      installAll ctx [⟨10, .e1000, .bsp⟩, ⟨11, .tulip, .bsp⟩] = [33, 34]) ∧
    ¬ NoClash silentHost [⟨10, .e1000, .bsp⟩, ⟨11, .tulip, .bsp⟩] := by
  refine ⟨⟨_, rfl, rfl, by decide⟩, ?_⟩
  rintro ⟨ctx, hctx, h⟩
  obtain rfl := Option.some.inj hctx
  exact h 34 (by decide) (by decide)

end Boot
