/-
One channel per VMBus offer.

`probe_all` probes every offer, but `NetvscDevice::init` does not get the offer: it
looks up the first one of type NETVSC.

* `OwnChannels` — every channel is opened for the offer it belongs to, and none is
  opened twice;
* `ownChannels_iff` — this holds, whatever the host answers, exactly when NetVSC is not
  registered, the PCI devices used up the probe budget, or at most one offer is of type
  NETVSC;
* `second_offer_opens_first` — of two NETVSC offers, the first is opened twice.
-/
import Embclox.ProbePci

namespace Boot

structure OwnChannels (vmbus : VmBus) : Prop where
  own : ∀ e ∈ vmbus.opened, e.channel = e.offer
  once : (vmbus.opened.map Opened.channel).Nodup

def ChannelOffer.isNetvsc (offer : ChannelOffer) : Bool := offer.deviceType = netvscGuid

/-- What `offer` opens: the first NETVSC channel. -/
def Opens (vmbus : VmBus) (offer : ChannelOffer) (e : Opened) : Prop :=
  ∃ first, vmbus.findOffer netvscGuid = some first ∧ e = ⟨offer.childRelid, first.childRelid⟩

/-! ### The PCI part of the loop -/

theorem scanPci_vmbus (registry : DriverRegistry) (ctx : ProbeCtx) (devs : List PciDevice) :
    (scanPci registry ctx devs).ctx.vmbus = ctx.vmbus := by
  refine scan_invariant (I := fun p => p.ctx.vmbus = ctx.vmbus) rfl fun p dev _ hp => ?_
  rcases visitPci_cases registry.pci p dev with ⟨-, heq⟩ | ⟨-, hctx, -⟩
  · rwa [heq]
  · rw [hctx, (tried_sameBus registry.pci p dev).vmbus]
    exact hp

theorem kmainRegistry_vmbus (filter : Option String) :
    (kmainRegistry filter).vmbus = [] ∨ (kmainRegistry filter).vmbus = [.netvsc] := by
  cases filter with
  | none => exact .inr rfl
  | some name =>
    unfold kmainRegistry registerNamedDriver
    dsimp only
    split
    · exact .inl rfl
    · split
      · exact .inl rfl
      · split
        · exact .inr rfl
        · exact .inl rfl

/-! ### The VMBus part -/

section

variable {host : ℕ → Handshake} {p : Probing} {vmbus : VmBus} {offer : ChannelOffer}

theorem visitVmBus_other (h : offer.isNetvsc = false) :
    visitVmBus host [.netvsc] p offer = p := by
  have hnone : ∀ drv ∈ [VmBusDriver.netvsc], drv.accepts offer = false := fun drv hd => by
    obtain rfl := List.mem_singleton.mp hd
    exact h
  rw [visitVmBus, tryDrivers_of_none hnone]

theorem visitVmBus_netvsc (host : ℕ → Handshake) (p : Probing) (h : offer.isNetvsc = true) :
    (visitVmBus host [.netvsc] p offer).ctx = (VmBusDriver.netvscProbe host offer p.ctx).1 ∧
      ∀ e, (VmBusDriver.netvscProbe host offer p.ctx).2 = .error e →
        (visitVmBus host [.netvsc] p offer).nics = p.nics :=
  tryDrivers_singleton h

/-- A probe opens the first NETVSC channel or none. -/
theorem netvscProbe_opened (host : ℕ → Handshake) (offer : ChannelOffer)
    (hv : p.ctx.vmbus = some vmbus) :
    ∃ new, (VmBusDriver.netvscProbe host offer p.ctx).1.vmbus =
        some ⟨vmbus.offers, vmbus.opened ++ new, vmbus.attempts + 1⟩ ∧
      (new = [] ∨ ∃ e, new = [e] ∧ Opens vmbus offer e) := by
  have hctx : ∀ channel ok, VmBusDriver.netvscInit host vmbus = (channel, ok) →
      (VmBusDriver.netvscProbe host offer p.ctx).1.vmbus = some ⟨vmbus.offers, vmbus.opened ++
        channel.toList.map (fun relid => ⟨offer.childRelid, relid⟩), vmbus.attempts + 1⟩ := by
    intro channel ok hinit
    simp only [VmBusDriver.netvscProbe, hv, hinit]
    split
    · rfl
    · rfl
  unfold VmBusDriver.netvscInit at hctx
  cases hfind : vmbus.findOffer netvscGuid with
  | none =>
    rw [hfind] at hctx
    exact ⟨_, hctx _ _ rfl, .inl rfl⟩
  | some first =>
    rw [hfind] at hctx
    cases hhost : host vmbus.attempts with
    | openFails =>
      rw [hhost] at hctx
      exact ⟨_, hctx _ _ rfl, .inl rfl⟩
    | initFails =>
      rw [hhost] at hctx
      exact ⟨_, hctx _ _ rfl, .inr ⟨_, rfl, first, hfind, rfl⟩⟩
    | ready =>
      rw [hhost] at hctx
      exact ⟨_, hctx _ _ rfl, .inr ⟨_, rfl, first, hfind, rfl⟩⟩

/-- A host that opens every channel and then fails. -/
theorem netvscProbe_initFails (offer : ChannelOffer) {first : ChannelOffer}
    (hv : p.ctx.vmbus = some vmbus) (hfind : vmbus.findOffer netvscGuid = some first) :
    (VmBusDriver.netvscProbe (fun _ => .initFails) offer p.ctx).1.vmbus =
        some ⟨vmbus.offers, vmbus.opened ++ [⟨offer.childRelid, first.childRelid⟩],
          vmbus.attempts + 1⟩ ∧
      ∃ e, (VmBusDriver.netvscProbe (fun _ => .initFails) offer p.ctx).2 = .error e := by
  simp only [VmBusDriver.netvscProbe, hv, VmBusDriver.netvscInit, hfind]
  exact ⟨rfl, _, rfl⟩

/-- What a scan of the offers opens. -/
theorem scan_opened (host : ℕ → Handshake) (offers : List ChannelOffer)
    (hv : p.ctx.vmbus = some vmbus) :
    ∃ new attempts, (scan (visitVmBus host [.netvsc]) p offers).ctx.vmbus =
        some ⟨vmbus.offers, vmbus.opened ++ new, attempts⟩ ∧
      new.length ≤ (offers.filter ChannelOffer.isNetvsc).length ∧
      ∀ e ∈ new, ∃ o ∈ offers, o.isNetvsc = true ∧ Opens vmbus o e := by
  have hnone : ∀ {q : Probing} {v : VmBus}, q.ctx.vmbus = some v →
      q.ctx.vmbus = some ⟨v.offers, v.opened ++ [], v.attempts⟩ := by
    intro q v hq
    rw [List.append_nil]
    exact hq
  induction offers generalizing p vmbus with
  | nil => exact ⟨[], _, hnone hv, Nat.le_refl _, fun e he => absurd he List.not_mem_nil⟩
  | cons offer offers ih =>
    unfold scan
    split
    · exact ⟨[], _, hnone hv, Nat.zero_le _, fun e he => absurd he List.not_mem_nil⟩
    · cases hnet : offer.isNetvsc with
      | false =>
        rw [visitVmBus_other hnet, List.filter_cons_of_neg (by simp [hnet])]
        obtain ⟨new, attempts, hctx, hlen, hopens⟩ := ih hv
        refine ⟨new, attempts, hctx, hlen, fun e he => ?_⟩
        obtain ⟨o, ho, hrest⟩ := hopens e he
        exact ⟨o, List.mem_cons_of_mem offer ho, hrest⟩
      | true =>
        -- the probe opens at most one channel, and the other offers follow
        obtain ⟨new, hprobe, hnew⟩ := netvscProbe_opened host offer hv
        rw [← (visitVmBus_netvsc host p hnet).1] at hprobe
        obtain ⟨rest, attempts, hctx, hlen, hopens⟩ := ih hprobe
        refine ⟨new ++ rest, attempts, by rw [← List.append_assoc]; exact hctx, ?_, ?_⟩
        · rw [List.filter_cons_of_pos hnet, List.length_cons, List.length_append]
          rcases hnew with rfl | ⟨e, rfl, -⟩
          · exact Nat.le_trans (by simpa using hlen) (Nat.le_succ _)
          · rw [List.length_singleton]
            omega
        · intro e he
          rcases List.mem_append.mp he with he | he
          · rcases hnew with rfl | ⟨e', rfl, hopens'⟩
            · exact absurd he List.not_mem_nil
            · obtain rfl := List.mem_singleton.mp he
              exact ⟨offer, List.mem_cons_self, hnet, hopens'⟩
          · obtain ⟨o, ho, hrest⟩ := hopens e he
            exact ⟨o, List.mem_cons_of_mem offer ho, hrest⟩

/-- Every NETVSC offer opens the first one's channel, if the host then fails. -/
theorem scan_initFails {first : ChannelOffer} (offers : List ChannelOffer)
    (hbudget : ¬ probeBudget ≤ p.nics.length) (hv : p.ctx.vmbus = some vmbus)
    (hfind : vmbus.findOffer netvscGuid = some first) :
    ∃ attempts, (scan (visitVmBus (fun _ => .initFails) [.netvsc]) p offers).ctx.vmbus =
      some ⟨vmbus.offers, vmbus.opened ++ (offers.filter ChannelOffer.isNetvsc).map
        (fun o => ⟨o.childRelid, first.childRelid⟩), attempts⟩ := by
  induction offers generalizing p vmbus with
  | nil => exact ⟨vmbus.attempts, by rw [List.filter_nil, List.map_nil, List.append_nil]; exact hv⟩
  | cons offer offers ih =>
    rw [scan, if_neg hbudget]
    cases hnet : offer.isNetvsc with
    | false =>
      rw [visitVmBus_other hnet, List.filter_cons_of_neg (by simp [hnet])]
      exact ih hbudget hv hfind
    | true =>
      obtain ⟨hprobe, e, he⟩ := netvscProbe_initFails offer hv hfind
      have hvisit := visitVmBus_netvsc (fun _ => .initFails) p hnet
      rw [← hvisit.1] at hprobe
      rw [← hvisit.2 e he] at hbudget
      obtain ⟨attempts, hctx⟩ := ih hbudget hprobe hfind
      refine ⟨attempts, ?_⟩
      rw [hctx, List.filter_cons_of_pos hnet, List.map_cons, List.append_assoc,
        List.singleton_append]

end

/-! ### Own channels -/

theorem probeAll_eq (host : ℕ → Handshake) (registry : DriverRegistry) {ctx : ProbeCtx}
    (devs : List PciDevice) {vmbus : VmBus} (hv : ctx.vmbus = some vmbus) :
    probeAll host registry ctx devs = scan (visitVmBus host registry.vmbus)
      (scanPci registry ctx devs) vmbus.offers := by
  unfold probeAll
  dsimp only
  rw [scanPci_vmbus, hv]

/-- The context with the offers that the host has announced. -/
def ProbeCtx.withOffers (ctx : ProbeCtx) (offers : List ChannelOffer) : ProbeCtx :=
  { ctx with vmbus := some ⟨offers, [], 0⟩ }

theorem findOffer_mem {vmbus : VmBus} {first : ChannelOffer}
    (h : vmbus.findOffer netvscGuid = some first) :
    first ∈ vmbus.offers.filter ChannelOffer.isNetvsc :=
  List.mem_filter.mpr ⟨List.mem_of_find?_eq_some h, List.find?_some h⟩

theorem eq_of_length_filter_le_one {offers : List ChannelOffer} {a b : ChannelOffer}
    (h : (offers.filter ChannelOffer.isNetvsc).length ≤ 1)
    (ha : a ∈ offers.filter ChannelOffer.isNetvsc)
    (hb : b ∈ offers.filter ChannelOffer.isNetvsc) : a = b := by
  match hl : offers.filter ChannelOffer.isNetvsc, ha, hb with
  | [x], ha, hb => rw [List.mem_singleton.mp ha, List.mem_singleton.mp hb]
  | x :: y :: l, _, _ =>
    rw [hl] at h
    exact absurd h (by simp)

/-- A single NETVSC offer is the one that its probe opens. -/
theorem ownChannels_of_single {offers : List ChannelOffer} {p : Probing} {host : ℕ → Handshake}
    (hv : p.ctx.vmbus = some ⟨offers, [], 0⟩)
    (hone : (offers.filter ChannelOffer.isNetvsc).length ≤ 1) {vmbus : VmBus}
    (h : (scan (visitVmBus host [.netvsc]) p offers).ctx.vmbus = some vmbus) :
    OwnChannels vmbus := by
  obtain ⟨new, attempts, hctx, hlen, hopens⟩ := scan_opened host offers hv
  rw [hctx] at h
  obtain rfl := Option.some.inj h
  refine ⟨fun e he => ?_, ?_⟩
  · obtain ⟨o, ho, hnet, first, hfind, rfl⟩ := hopens e he
    have heq : first = o := eq_of_length_filter_le_one hone (findOffer_mem hfind)
      (List.mem_filter.mpr ⟨ho, hnet⟩)
    rw [heq]
  · have hle := Nat.le_trans hlen hone
    show (new.map Opened.channel).Nodup
    match new, hle with
    | [], _ => exact List.nodup_nil
    | [e], _ => simp

/-- Two NETVSC offers open the same channel, if the host fails after opening it. -/
theorem not_ownChannels_of_two {offers : List ChannelOffer} {p : Probing}
    (hv : p.ctx.vmbus = some ⟨offers, [], 0⟩) (hbudget : ¬ probeBudget ≤ p.nics.length)
    (htwo : 1 < (offers.filter ChannelOffer.isNetvsc).length) :
    ∃ vmbus, (scan (visitVmBus (fun _ => .initFails) [.netvsc]) p offers).ctx.vmbus =
      some vmbus ∧ ¬ OwnChannels vmbus := by
  match hl : offers.filter ChannelOffer.isNetvsc, htwo with
  | x :: y :: l, _ =>
    have hx : x ∈ offers.filter ChannelOffer.isNetvsc := by
      rw [hl]
      exact List.mem_cons_self
    obtain ⟨first, hfind⟩ : ∃ first, VmBus.findOffer ⟨offers, [], 0⟩ netvscGuid = some first := by
      rw [← Option.isSome_iff_exists, VmBus.findOffer, List.find?_isSome]
      exact ⟨x, (List.mem_filter.mp hx).1, (List.mem_filter.mp hx).2⟩
    obtain ⟨attempts, hctx⟩ := scan_initFails offers hbudget hv hfind
    refine ⟨_, hctx, fun hown => ?_⟩
    have honce := hown.once
    rw [hl] at honce
    simp at honce

/-- **Every offer opens its own channel, whatever the host answers, exactly when at most
one offer is of type NETVSC**, NetVSC is not registered, or the budget is used up. -/
theorem ownChannels_iff (nicFilter : Option String) (ctx : ProbeCtx) (devs : List PciDevice)
    (offers : List ChannelOffer) :
    (∀ host vmbus, (probeAll host (kmainRegistry nicFilter) (ctx.withOffers offers)
        devs).ctx.vmbus = some vmbus → OwnChannels vmbus) ↔
      (kmainRegistry nicFilter).vmbus = [] ∨
      probeBudget ≤ (scanPci (kmainRegistry nicFilter) (ctx.withOffers offers) devs).nics.length ∨
      (offers.filter ChannelOffer.isNetvsc).length ≤ 1 := by
  have hall := fun host => probeAll_eq host (kmainRegistry nicFilter) devs
    (show (ctx.withOffers offers).vmbus = some ⟨offers, [], 0⟩ from rfl)
  have hv : (scanPci (kmainRegistry nicFilter) (ctx.withOffers offers) devs).ctx.vmbus =
      some ⟨offers, [], 0⟩ := scanPci_vmbus _ _ _
  have hempty : OwnChannels ⟨offers, [], 0⟩ :=
    ⟨fun e he => absurd he List.not_mem_nil, List.nodup_nil⟩
  rcases kmainRegistry_vmbus nicFilter with hreg | hreg
  · refine iff_of_true (fun host vmbus h => ?_) (.inl hreg)
    have hsame : (probeAll host (kmainRegistry nicFilter) (ctx.withOffers offers) devs).ctx.vmbus =
        some ⟨offers, [], 0⟩ := by
      rw [hall, hreg]
      exact scan_invariant (I := fun p => p.ctx.vmbus = some ⟨offers, [], 0⟩) hv
        fun p o _ hp => hp
    rw [hsame] at h
    obtain rfl := Option.some.inj h
    exact hempty
  · rw [hreg] at hall
    simp only [hall, hreg]
    generalize scanPci (kmainRegistry nicFilter) (ctx.withOffers offers) devs = p at hv
    by_cases hbudget : probeBudget ≤ p.nics.length
    · refine iff_of_true (fun host vmbus h => ?_) (.inr (.inl hbudget))
      rw [scan_of_budget hbudget, hv] at h
      obtain rfl := Option.some.inj h
      exact hempty
    · constructor
      · intro h
        refine .inr (.inr (Nat.le_of_not_lt fun htwo => ?_))
        obtain ⟨vmbus, hctx, hnot⟩ := not_ownChannels_of_two hv hbudget htwo
        exact hnot (h _ vmbus hctx)
      · rintro (h | h | h)
        · exact absurd h (by simp)
        · exact absurd h hbudget
        · exact fun host vmbus => ownChannels_of_single hv h

/-- Two network adapters. -/
def twoAdapters : List ChannelOffer := [⟨netvscGuid, 5⟩, ⟨netvscGuid, 7⟩]

/-- Both probes open channel 5, and channel 7 is never opened. -/
theorem second_offer_opens_first :
    ∃ vmbus, (probeAll (fun _ => .ready) registerDefaultDrivers
        (twoSlots.withOffers twoAdapters) []).ctx.vmbus = some vmbus ∧
      vmbus.opened = [⟨5, 5⟩, ⟨7, 5⟩] ∧ ¬ OwnChannels vmbus := by
  refine ⟨_, rfl, rfl, fun h => ?_⟩
  exact absurd (h.own ⟨7, 5⟩ (by decide)) (by decide)

end Boot
