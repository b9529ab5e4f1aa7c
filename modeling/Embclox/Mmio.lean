/-
The mapper of MMIO and code regions.

`map_mmio` and `map_code` place a region at a cursor that only grows, and leave a page
free behind it; `unmap_mmio` removes the pages of a region and does not move the cursor.

* `MemoryMapper` — the cursor and the page table; `none` is a panic, of an address that
  is no address or of a page table operation;
* `Inv` — the regions returned lie in order below the cursor, and the pages of the live
  ones are the only mapped pages from the first address on;
* `mappings_never_collide` — so no call meets a mapped page, a live mapping can be
  unmapped, and the others do not change;
* `translate_exact_iff` — a mapping translates to the physical region it was made for
  exactly if that starts at a page;
* `bar_translated_to_page_start` — a BAR that does not.
-/
import Embclox.Exec
import Embclox.PageTable
import Embclox.Probe
import Mathlib.Algebra.Group.Nat.Defs

open Run PageTable

namespace Mmio

def mmioVirtBase : ℕ := 0x400000000000

structure PageTableFlags where
  present : Bool
  writable : Bool
  noCache : Bool
  deriving DecidableEq

structure Entry where
  frame : ℕ
  flags : PageTableFlags
  deriving DecidableEq

structure MmioMapping where
  vaddr : ℕ
  size : ℕ
  deriving DecidableEq

/-- The cursor and the page table; the two offsets, with which the table and its frames
are found, are left out. -/
structure MemoryMapper where
  nextVaddr : ℕ
  table : Table Entry

/-- `VirtAddr::new` accepts the canonical addresses. -/
def virtAddrOk (addr : ℕ) : Prop := addr < 2 ^ 47 ∨ 2 ^ 64 - 2 ^ 47 ≤ addr ∧ addr < 2 ^ 64

/-- `PhysAddr::new` accepts addresses of 52 bits. -/
def physAddrOk (addr : ℕ) : Prop := addr < 2 ^ 52

instance (addr : ℕ) : Decidable (virtAddrOk addr) := inferInstanceAs (Decidable (_ ∨ _))

instance (addr : ℕ) : Decidable (physAddrOk addr) := inferInstanceAs (Decidable (_ < _))

/-- The page, or the frame, that contains an address. -/
def pageOf (addr : ℕ) : Option ℕ := if virtAddrOk addr then some (addr / 0x1000) else none
def frameOf (addr : ℕ) : Option ℕ := if physAddrOk addr then some (addr / 0x1000) else none

/-- `size.div_ceil(0x1000)` -/
def numPages (size : ℕ) : ℕ := (size + 0xFFF) / 0x1000

/-- The page and the entry of one round of the mapping loop. -/
def roundOf (flags : PageTableFlags) (virtBase physBase i : ℕ) : Option (ℕ × Entry) :=
  (pageOf (virtBase + i * 0x1000)).bind fun page =>
    (frameOf (physBase + i * 0x1000)).map fun frame => (page, ⟨frame, flags⟩)

/-- `map_mmio` and `map_code`, which differ in the flags. -/
def MemoryMapper.mapRegion (m : MemoryMapper) (flags : PageTableFlags) (physBase size : ℕ) :
    Option (MmioMapping × MemoryMapper) :=
  let virtBase := m.nextVaddr
  (mapEach (roundOf flags virtBase physBase) (numPages size) m.table).map fun table =>
    (⟨virtBase, size⟩, ⟨virtBase + (numPages size + 1) * 0x1000, table⟩)

def mmioFlags : PageTableFlags := ⟨true, true, true⟩
def codeFlags : PageTableFlags := ⟨true, true, false⟩

def MemoryMapper.mapMmio (m : MemoryMapper) (physBase size : ℕ) :
    Option (MmioMapping × MemoryMapper) :=
  m.mapRegion mmioFlags physBase size

def MemoryMapper.mapCode (m : MemoryMapper) (physBase size : ℕ) :
    Option (MmioMapping × MemoryMapper) :=
  m.mapRegion codeFlags physBase size

def MemoryMapper.translateAddr (m : MemoryMapper) (vaddr : ℕ) : Option (Option ℕ) :=
  (pageOf vaddr).map fun page =>
    (m.table page).map fun entry => entry.frame * 0x1000 + vaddr % 0x1000

def MemoryMapper.unmapMmio (m : MemoryMapper) (mapping : MmioMapping) : Option MemoryMapper :=
  (unmapEach (fun i => pageOf (mapping.vaddr + i * 0x1000)) (numPages mapping.size) m.table).map
    fun table => { m with table }

/-- The probes keep only the cursor, and move it as the mapper does. -/
theorem probe_mapMmio {m m' : MemoryMapper} {physBase size : ℕ} {mapping : MmioMapping}
    {ctx : Boot.ProbeCtx} (hcursor : ctx.nextVaddr = m.nextVaddr)
    (h : m.mapMmio physBase size = some (mapping, m')) :
    ctx.mapMmio size = (mapping.vaddr, { ctx with nextVaddr := m'.nextVaddr }) := by
  obtain ⟨table, -, heq⟩ := Option.map_eq_some_iff.mp h
  obtain ⟨rfl, rfl⟩ := Prod.mk.inj heq
  rw [Boot.ProbeCtx.mapMmio, hcursor]
  rfl

/-! ### Runs -/

inductive MapCall
  | mapMmio
  | mapCode
  deriving DecidableEq

def MapCall.flags : MapCall → PageTableFlags
  | mapMmio => mmioFlags
  | mapCode => codeFlags

def MapCall.run : MapCall → MemoryMapper → ℕ → ℕ → Option (MmioMapping × MemoryMapper)
  | mapMmio => MemoryMapper.mapMmio
  | mapCode => MemoryMapper.mapCode

/-- A mapping with the call that returned it. -/
structure Returned where
  mapping : MmioMapping
  physBase : ℕ
  call : MapCall

namespace Returned

/-- The first page. -/
def page (r : Returned) : ℕ := r.mapping.vaddr / 0x1000
def pages (r : Returned) : ℕ := numPages r.mapping.size

/-- The page after the last one. -/
def guard (r : Returned) : ℕ := r.page + r.pages

def entry (r : Returned) (i : ℕ) : Entry := ⟨r.physBase / 0x1000 + i, r.call.flags⟩

end Returned

/-- The mapper, the mappings it has returned, and the numbers of those unmapped. -/
structure Sys where
  mapper : MemoryMapper
  returned : List Returned
  unmapped : List ℕ

inductive Act
  | map (call : MapCall) (physBase size : ℕ)
  /-- Unmap the mapping with this number. -/
  | unmap (i : ℕ)

/-- A call that panics ends the run. -/
def step (s : Sys) : Act → Option Sys
  | .map call physBase size =>
      (call.run s.mapper physBase size).map fun r =>
        { s with mapper := r.2, returned := s.returned ++ [⟨r.1, physBase, call⟩] }
  | .unmap i =>
      s.returned[i]?.bind fun r => (s.mapper.unmapMmio r.mapping).map fun m =>
        { s with mapper := m, unmapped := s.unmapped ++ [i] }

def init (table : Table Entry) : Sys := ⟨⟨mmioVirtBase, table⟩, [], []⟩

/-- Nothing is mapped from the first address of the mapper on. -/
def FreeAbove (table : Table Entry) : Prop := ∀ p, mmioVirtBase / 0x1000 ≤ p → table p = none

/-- The addresses of a call are addresses. -/
def Addressable (m : MemoryMapper) (physBase size : ℕ) : Prop :=
  ∀ i < numPages size,
    virtAddrOk (m.nextVaddr + i * 0x1000) ∧ physAddrOk (physBase + i * 0x1000)

instance (m : MemoryMapper) (physBase size : ℕ) : Decidable (Addressable m physBase size) :=
  inferInstanceAs (Decidable (∀ i < _, _ ∧ _))

/-- The mapping with number `i` is there and not unmapped. -/
def Live (s : Sys) (i : ℕ) (r : Returned) : Prop := s.returned[i]? = some r ∧ i ∉ s.unmapped

structure MappingsOk (s : Sys) : Prop where
  /-- Between two mappings there is a page that belongs to neither. -/
  apart : s.returned.Pairwise fun r r' => r.guard < r'.page
  /-- A call with valid addresses meets no mapped page. -/
  maps : ∀ call physBase size, Addressable s.mapper physBase size →
    ∃ u, step s (.map call physBase size) = some u
  /-- A live mapping can be unmapped, which removes its pages and no others. -/
  unmaps : ∀ i r, Live s i r → ∃ u, step s (.unmap i) = some u ∧
    ∀ p, u.mapper.table p = if r.page ≤ p ∧ p < r.guard then none else s.mapper.table p
  /-- A mapping that stays live is translated as before. -/
  others : ∀ a u, step s a = some u → ∀ i r, Live s i r → i ∉ u.unmapped →
    ∀ k < r.mapping.size, u.mapper.translateAddr (r.mapping.vaddr + k) =
      s.mapper.translateAddr (r.mapping.vaddr + k)

/-! ### The invariant -/

structure Inv (s : Sys) : Prop where
  cursor : 0x1000 ∣ s.mapper.nextVaddr ∧ mmioVirtBase ≤ s.mapper.nextVaddr
  placed : ∀ r ∈ s.returned, 0x1000 ∣ r.mapping.vaddr ∧ mmioVirtBase ≤ r.mapping.vaddr ∧
    r.guard < s.mapper.nextVaddr / 0x1000
  valid : ∀ r ∈ s.returned, ∀ i < r.pages, virtAddrOk (r.mapping.vaddr + i * 0x1000)
  apart : s.returned.Pairwise fun r r' => r.guard < r'.page
  known : ∀ i ∈ s.unmapped, i < s.returned.length
  mapped : ∀ i r, Live s i r → ∀ k < r.pages, s.mapper.table (r.page + k) = some (r.entry k)
  only : ∀ p, mmioVirtBase / 0x1000 ≤ p → s.mapper.table p ≠ none →
    ∃ i r, Live s i r ∧ r.page ≤ p ∧ p < r.guard

theorem init_inv {table : Table Entry} (h : FreeAbove table) : Inv (init table) where
  cursor := ⟨⟨0x400000000, rfl⟩, Nat.le_refl _⟩
  placed := fun r hr => absurd hr (by simp [init])
  valid := fun r hr => absurd hr (by simp [init])
  apart := List.Pairwise.nil
  known := fun i hi => absurd hi (by simp [init])
  mapped := fun i r hl => absurd hl.1 (by simp [init])
  only := fun p hp hne => absurd (h p hp) hne

section

variable {s u : Sys} {call : MapCall} {physBase size : ℕ}

/-- The pages from the cursor on are free. -/
theorem Inv.free (hi : Inv s) {p : ℕ} (hp : s.mapper.nextVaddr / 0x1000 ≤ p) :
    s.mapper.table p = none := by
  by_contra hne
  have hbase := hi.cursor.2
  obtain ⟨i, r, hl, -, hlt⟩ := hi.only p (by omega) hne
  have hguard := (hi.placed r (List.mem_of_getElem? hl.1)).2.2
  omega

/-- A page belongs to one mapping only. -/
theorem Inv.eq_of_page (hi : Inv s) {i j : ℕ} {r r' : Returned} (hr : s.returned[i]? = some r)
    (hr' : s.returned[j]? = some r') {p : ℕ} (hp : r.page ≤ p ∧ p < r.guard)
    (hp' : r'.page ≤ p ∧ p < r'.guard) : i = j := by
  obtain ⟨hi', rfl⟩ := List.getElem?_eq_some_iff.mp hr
  obtain ⟨hj', rfl⟩ := List.getElem?_eq_some_iff.mp hr'
  have hpair := List.pairwise_iff_getElem.mp hi.apart
  rcases Nat.lt_trichotomy i j with hlt | heq | hlt
  · have := hpair i j hi' hj' hlt
    omega
  · exact heq
  · have := hpair j i hj' hi' hlt
    omega

/-! ### What a step does -/

theorem roundOf_eq {flags : PageTableFlags} {virtBase i : ℕ} (hd : 0x1000 ∣ virtBase)
    (hv : virtAddrOk (virtBase + i * 0x1000)) (hp : physAddrOk (physBase + i * 0x1000)) :
    roundOf flags virtBase physBase i =
      some (virtBase / 0x1000 + i, ⟨physBase / 0x1000 + i, flags⟩) := by
  have hpage : (virtBase + i * 0x1000) / 0x1000 = virtBase / 0x1000 + i := by omega
  have hframe : (physBase + i * 0x1000) / 0x1000 = physBase / 0x1000 + i := by omega
  rw [roundOf, pageOf, frameOf, if_pos hv, if_pos hp, hpage, hframe]
  rfl

theorem addressable_of_roundOf {flags : PageTableFlags} {virtBase i : ℕ} {x : ℕ × Entry}
    (h : roundOf flags virtBase physBase i = some x) :
    virtAddrOk (virtBase + i * 0x1000) ∧ physAddrOk (physBase + i * 0x1000) := by
  obtain ⟨page, hpage, h⟩ := Option.bind_eq_some_iff.mp h
  obtain ⟨frame, hframe, -⟩ := Option.map_eq_some_iff.mp h
  exact ⟨(Option.ite_none_right_eq_some.mp hpage).1, (Option.ite_none_right_eq_some.mp hframe).1⟩

theorem MapCall.run_eq (call : MapCall) (m : MemoryMapper) :
    call.run m physBase size = m.mapRegion call.flags physBase size := by
  cases call <;> rfl

/-- The mapping that a call returns. -/
def newMapping (s : Sys) (call : MapCall) (physBase size : ℕ) : Returned :=
  ⟨⟨s.mapper.nextVaddr, size⟩, physBase, call⟩

/-- The system after a mapping call. -/
def afterMap (s : Sys) (call : MapCall) (physBase size : ℕ) : Sys where
  mapper := ⟨s.mapper.nextVaddr + (numPages size + 1) * 0x1000,
    setRange s.mapper.table (s.mapper.nextVaddr / 0x1000) (numPages size)
      fun i => some ((newMapping s call physBase size).entry i)⟩
  returned := s.returned ++ [newMapping s call physBase size]
  unmapped := s.unmapped

theorem table_afterMap : (afterMap s call physBase size).mapper.table =
    setRange s.mapper.table (newMapping s call physBase size).page
      (newMapping s call physBase size).pages
      fun i => some ((newMapping s call physBase size).entry i) :=
  rfl

/-- **A call with valid addresses maps its pages.** -/
theorem Inv.run_eq (hi : Inv s) (call : MapCall) (hfits : Addressable s.mapper physBase size) :
    call.run s.mapper physBase size =
      some ((newMapping s call physBase size).mapping, (afterMap s call physBase size).mapper) := by
  have hmap : mapEach (roundOf call.flags s.mapper.nextVaddr physBase) (numPages size)
      s.mapper.table = some (setRange s.mapper.table (s.mapper.nextVaddr / 0x1000) (numPages size)
        fun i => some ((newMapping s call physBase size).entry i)) :=
    mapEach_eq (fun i hlt => roundOf_eq hi.cursor.1 (hfits i hlt).1 (hfits i hlt).2)
      fun i _ => hi.free (by omega)
  rw [MapCall.run_eq, MemoryMapper.mapRegion, hmap]
  rfl

theorem Inv.step_map (hi : Inv s) (call : MapCall) (hfits : Addressable s.mapper physBase size) :
    step s (.map call physBase size) = some (afterMap s call physBase size) := by
  rw [step, hi.run_eq call hfits]
  rfl

theorem addressable_of_step (h : step s (.map call physBase size) = some u) :
    Addressable s.mapper physBase size := by
  rw [step, MapCall.run_eq, MemoryMapper.mapRegion, Option.map_map] at h
  obtain ⟨table, htable, -⟩ := Option.map_eq_some_iff.mp h
  intro i hlt
  obtain ⟨x, hx⟩ := exists_of_mapEach htable i hlt
  exact addressable_of_roundOf hx

/-- The system after mapping `i`, which is `r`, has been unmapped. -/
def afterUnmap (s : Sys) (i : ℕ) (r : Returned) : Sys :=
  { s with
    mapper := { s.mapper with table := setRange s.mapper.table r.page r.pages fun _ => none }
    unmapped := s.unmapped ++ [i] }

theorem table_afterUnmap (i : ℕ) (r : Returned) : (afterUnmap s i r).mapper.table =
    setRange s.mapper.table r.page r.pages fun _ => none :=
  rfl

theorem Inv.pageOf_eq (hi : Inv s) {r : Returned} (hr : r ∈ s.returned) {k : ℕ} (hk : k < r.pages) :
    pageOf (r.mapping.vaddr + k * 0x1000) = some (r.page + k) := by
  have hd := (hi.placed r hr).1
  have hpage : (r.mapping.vaddr + k * 0x1000) / 0x1000 = r.page + k := by
    rw [Returned.page]
    omega
  rw [pageOf, if_pos (hi.valid r hr k hk), hpage]

theorem Inv.step_unmap (hi : Inv s) {i : ℕ} {r : Returned} (hr : s.returned[i]? = some r)
    (hmapped : ∀ k < r.pages, s.mapper.table (r.page + k) ≠ none) :
    step s (.unmap i) = some (afterUnmap s i r) := by
  have hpages := unmapEach_eq (fun k hk => hi.pageOf_eq (List.mem_of_getElem? hr) hk) hmapped
  rw [step, hr, Option.bind_some, MemoryMapper.unmapMmio]
  show ((unmapEach _ r.pages _).map _).map _ = _
  rw [hpages]
  rfl

theorem Inv.step_unmap_inv (hi : Inv s) {i : ℕ} (h : step s (.unmap i) = some u) :
    ∃ r, s.returned[i]? = some r ∧ u = afterUnmap s i r := by
  have hstep := h
  rw [step] at h
  obtain ⟨r, hr, h⟩ := Option.bind_eq_some_iff.mp h
  obtain ⟨m, hm, -⟩ := Option.map_eq_some_iff.mp h
  obtain ⟨table, htable, -⟩ := Option.map_eq_some_iff.mp hm
  have hmapped := mapped_of_unmapEach
    (fun k hk => hi.pageOf_eq (List.mem_of_getElem? hr) hk) htable
  exact ⟨r, hr, Option.some.inj (hstep.symm.trans (hi.step_unmap hr hmapped))⟩

/-! ### Every step keeps the invariant -/

/-- The mappings after a call: those before and the new one. -/
theorem live_afterMap {i : ℕ} {r : Returned}
    (h : Live (afterMap s call physBase size) i r) :
    Live s i r ∨ i = s.returned.length ∧ r = newMapping s call physBase size := by
  obtain ⟨hr, hnot⟩ := h
  rcases Nat.lt_trichotomy i s.returned.length with hlt | heq | hgt
  · left
    refine ⟨?_, hnot⟩
    rwa [afterMap, List.getElem?_append_left hlt] at hr
  · right
    refine ⟨heq, ?_⟩
    rw [afterMap, heq, List.getElem?_concat_length] at hr
    exact (Option.some.inj hr).symm
  · rw [afterMap, List.getElem?_eq_none (by simp; omega)] at hr
    exact absurd hr (by simp)

theorem Inv.afterMap (hi : Inv s) (hfits : Addressable s.mapper physBase size) :
    Inv (afterMap s call physBase size) := by
  obtain ⟨hdvd, hbase⟩ := hi.cursor
  have hcursor : (s.mapper.nextVaddr + (numPages size + 1) * 0x1000) / 0x1000 =
      s.mapper.nextVaddr / 0x1000 + numPages size + 1 := by omega
  have hlive : ∀ i r, Live s i r → Live (Mmio.afterMap s call physBase size) i r := by
    rintro i r ⟨hr, hnot⟩
    refine ⟨?_, hnot⟩
    rw [Mmio.afterMap, List.getElem?_append_left (List.getElem?_eq_some_iff.mp hr).1]
    exact hr
  refine ⟨⟨?_, ?_⟩, ?_, ?_, ?_, ?_, ?_, ?_⟩
  · exact Nat.dvd_add hdvd (Nat.dvd_mul_left _ _)
  · exact Nat.le_trans hbase (Nat.le_add_right _ _)
  · intro r hr
    show _ ∧ _ ∧ r.guard < (s.mapper.nextVaddr + (numPages size + 1) * 0x1000) / 0x1000
    rw [hcursor]
    rcases List.mem_append.mp hr with hr | hr
    · obtain ⟨hd, hb, hg⟩ := hi.placed r hr
      exact ⟨hd, hb, by omega⟩
    · rw [List.mem_singleton.mp hr]
      exact ⟨hdvd, hbase, Nat.lt_succ_self _⟩
  · intro r hr
    rcases List.mem_append.mp hr with hr | hr
    · exact hi.valid r hr
    · rw [List.mem_singleton.mp hr]
      exact fun i hlt => (hfits i hlt).1
  · refine List.pairwise_append.mpr ⟨hi.apart, List.pairwise_singleton _ _, fun r hr r' hr' => ?_⟩
    rw [List.mem_singleton.mp hr']
    exact (hi.placed r hr).2.2
  · intro i hmem
    have := hi.known i hmem
    rw [Mmio.afterMap, List.length_append]
    omega
  · intro i r hl k hk
    rw [table_afterMap]
    rcases live_afterMap hl with hl | ⟨-, rfl⟩
    · -- an earlier mapping lies below the cursor
      have hguard : r.page + r.pages < (newMapping s call physBase size).page :=
        (hi.placed r (List.mem_of_getElem? hl.1)).2.2
      rw [setRange_of_not (by omega)]
      exact hi.mapped i r hl k hk
    · exact setRange_of_lt hk
  · intro p hp hne
    rw [table_afterMap] at hne
    by_cases hnew : (newMapping s call physBase size).page ≤ p ∧
        p < (newMapping s call physBase size).guard
    · refine ⟨s.returned.length, newMapping s call physBase size, ⟨?_, fun hmem => ?_⟩, hnew⟩
      · exact List.getElem?_concat_length
      · exact absurd (hi.known _ hmem) (Nat.lt_irrefl _)
    · rw [setRange_of_not hnew] at hne
      obtain ⟨i, r, hl, hr⟩ := hi.only p hp hne
      exact ⟨i, r, hlive i r hl, hr⟩

theorem Inv.afterUnmap (hi : Inv s) {i : ℕ} {r : Returned} (hr : s.returned[i]? = some r) :
    Inv (afterUnmap s i r) := by
  refine ⟨hi.cursor, hi.placed, hi.valid, hi.apart, ?_, ?_, ?_⟩
  · intro j hj
    rcases List.mem_append.mp hj with hj | hj
    · exact hi.known j hj
    · rw [List.mem_singleton.mp hj]
      exact (List.getElem?_eq_some_iff.mp hr).1
  · intro j r' hl k hk
    have hl' : Live s j r' := ⟨hl.1, fun hj => hl.2 (List.mem_append_left _ hj)⟩
    have hout : ¬ (r.page ≤ r'.page + k ∧ r'.page + k < r.page + r.pages) := by
      -- the page belongs to one mapping only, and that one is unmapped now
      intro hp
      have heq : i = j := hi.eq_of_page hr hl'.1 hp
        ⟨Nat.le_add_right _ _, Nat.add_lt_add_left hk _⟩
      exact hl.2 (List.mem_append_right _ (by simp [heq]))
    rw [table_afterUnmap, setRange_of_not hout]
    exact hi.mapped j r' hl' k hk
  · intro p hp hne
    rw [table_afterUnmap] at hne
    have hout : ¬ (r.page ≤ p ∧ p < r.page + r.pages) := by
      intro hin
      rw [setRange, if_pos hin] at hne
      exact hne rfl
    rw [setRange_of_not hout] at hne
    obtain ⟨j, r', hl, hr'⟩ := hi.only p hp hne
    refine ⟨j, r', ⟨hl.1, fun hmem => ?_⟩, hr'⟩
    rcases List.mem_append.mp hmem with hmem | hmem
    · exact hl.2 hmem
    · obtain rfl := List.mem_singleton.mp hmem
      obtain rfl := Option.some.inj (hr.symm.trans hl.1)
      exact hout hr'

theorem Inv.step (hi : Inv s) {a : Act} (h : step s a = some u) : Inv u := by
  cases a with
  | map call physBase size =>
    have hfits := addressable_of_step h
    obtain rfl := Option.some.inj ((hi.step_map call hfits).symm.trans h)
    exact hi.afterMap hfits
  | unmap i =>
    obtain ⟨r, hr, rfl⟩ := hi.step_unmap_inv h
    exact hi.afterUnmap hr

/-! ### Mappings never collide -/

theorem pages_of_lt {size k : ℕ} (h : k < size) : k / 0x1000 < numPages size := by
  rw [numPages]
  omega

/-- **What a live mapping translates to**: the physical region from the start of its
first frame on. -/
theorem Inv.translateAddr_eq (hi : Inv s) {i : ℕ} {r : Returned} (hl : Live s i r) {k : ℕ}
    (hk : k < r.mapping.size) :
    s.mapper.translateAddr (r.mapping.vaddr + k) =
      some (some (r.physBase / 0x1000 * 0x1000 + k)) := by
  have hmem := List.mem_of_getElem? hl.1
  have hd := (hi.placed r hmem).1
  have hlt : k / 0x1000 < r.pages := pages_of_lt hk
  have hok : virtAddrOk (r.mapping.vaddr + k) := by
    have := hi.valid r hmem _ hlt
    unfold virtAddrOk at this ⊢
    omega
  have hpage : (r.mapping.vaddr + k) / 0x1000 = r.page + k / 0x1000 := by
    rw [Returned.page]
    omega
  have hoff : (r.physBase / 0x1000 + k / 0x1000) * 0x1000 + (r.mapping.vaddr + k) % 0x1000 =
      r.physBase / 0x1000 * 0x1000 + k := by omega
  rw [MemoryMapper.translateAddr, pageOf, if_pos hok, hpage, Option.map_some,
    hi.mapped i r hl _ hlt, Option.map_some, Returned.entry, hoff]

theorem returned_mono {a : Act} (h : Mmio.step s a = some u) : s.returned <+: u.returned := by
  cases a with
  | map call physBase size =>
    obtain ⟨r, -, rfl⟩ := Option.map_eq_some_iff.mp h
    exact List.prefix_append _ _
  | unmap i =>
    obtain ⟨r, -, h⟩ := Option.bind_eq_some_iff.mp h
    obtain ⟨m, -, rfl⟩ := Option.map_eq_some_iff.mp h
    exact List.prefix_rfl

theorem Inv.ok (hi : Inv s) : MappingsOk s := by
  refine ⟨hi.apart, fun call physBase size hfits => ⟨_, hi.step_map call hfits⟩,
    fun i r hl => ?_, fun a u h i r hl hnot k hk => ?_⟩
  · refine ⟨_, hi.step_unmap hl.1 fun k hk => ?_, fun p => rfl⟩
    rw [hi.mapped i r hl k hk]
    exact Option.some_ne_none _
  · have hr : u.returned[i]? = some r := by
      obtain ⟨tail, htail⟩ := returned_mono h
      rw [← htail, List.getElem?_append_left (List.getElem?_eq_some_iff.mp hl.1).1]
      exact hl.1
    rw [(hi.step h).translateAddr_eq ⟨hr, hnot⟩ hk, hi.translateAddr_eq hl hk]

/-- The page behind a mapping belongs to no mapping. -/
theorem Inv.guard_not_mem (hi : Inv s) {r r' : Returned} (hr : r ∈ s.returned)
    (hr' : r' ∈ s.returned) : ¬ (r'.page ≤ r.guard ∧ r.guard < r'.guard) := by
  intro hp
  obtain ⟨i, hi', rfl⟩ := List.getElem_of_mem hr
  obtain ⟨j, hj', rfl⟩ := List.getElem_of_mem hr'
  have hpage : (s.returned[i]).page ≤ (s.returned[i]).guard := Nat.le_add_right _ _
  have hpair := List.pairwise_iff_getElem.mp hi.apart
  rcases Nat.lt_trichotomy i j with hlt | rfl | hlt
  · have := hpair i j hi' hj' hlt
    omega
  · omega
  · have := hpair j i hj' hi' hlt
    omega

end

section

variable {table : Table Entry} {l : List Act} {s : Sys}

theorem inv_of_run (h0 : FreeAbove table) (h : Exec step (fun _ _ => True) (init table) l s) :
    Inv s :=
  h.invariant (init_inv h0) fun hi _ hstep => hi.step hstep

theorem returned_of_run {s' : Sys} {l' : List Act} (h : Exec step (fun _ _ => True) s' l' s) :
    s'.returned <+: s.returned :=
  h.invariant (I := fun t => s'.returned <+: t.returned) List.prefix_rfl
    fun hp _ hstep => hp.trans (returned_mono hstep)

/-- **Mappings never collide.**  In every run the regions of all mappings ever returned
are apart, calls meet no mapped page, live mappings can be unmapped and do not disturb
each other, and the page behind a mapping is never mapped, not even before or after. -/
theorem mappings_never_collide (h0 : FreeAbove table)
    (h : Exec step (fun _ _ => True) (init table) l s) :
    MappingsOk s ∧ ∀ l' s', l' <+: l → Exec step (fun _ _ => True) (init table) l' s' →
      ∀ r ∈ s.returned, s'.mapper.table r.guard = none := by
  have hi := inv_of_run h0 h
  refine ⟨hi.ok, fun l' s' hl' h' r hr => ?_⟩
  by_contra hne
  obtain ⟨l'', rfl⟩ := hl'
  obtain ⟨t, ht, hrest⟩ := h.append_inv
  obtain rfl := h'.unique ht
  -- a page mapped on the way belongs to a mapping that is still in the list
  have hbase : mmioVirtBase / 0x1000 ≤ r.guard := by
    have := (hi.placed r hr).2.1
    unfold Returned.guard Returned.page
    omega
  obtain ⟨i, r', hl, hp⟩ := (inv_of_run h0 h').only r.guard hbase hne
  exact hi.guard_not_mem hr ((returned_of_run hrest).subset (List.mem_of_getElem? hl.1)) hp

/-- Two mappings, one of them of size 0, and a third after the first was unmapped. -/
theorem mappings_never_collide_remap : ∃ s,
    Exec step (fun _ _ => True) (init fun _ => none)
      [.map .mapMmio 0xFED00800 0x1801, .map .mapCode 0x5000 0, .unmap 0,
        .map .mapCode 0x5000 0x1000] s ∧
    s.returned.map Returned.page = [0x400000000, 0x400000003, 0x400000004] ∧ MappingsOk s := by
  obtain ⟨s, hs, hpages⟩ : ∃ s, Exec step (fun _ _ => True) (init fun _ => none)
      [.map .mapMmio 0xFED00800 0x1801, .map .mapCode 0x5000 0, .unmap 0,
        .map .mapCode 0x5000 0x1000] s ∧
      s.returned.map Returned.page = [0x400000000, 0x400000003, 0x400000004] :=
    Exec.exists_of_run (by decide +kernel)
  exact ⟨s, hs, hpages, (mappings_never_collide (fun _ _ => rfl) hs).1⟩

/-! ### Byte-accurate mappings -/

/-- The mapping that a call returns starts at the cursor and translates to the physical
region from the start of its first frame on. -/
theorem Inv.translateAddr_new (hi : Inv s) (call : MapCall) {physBase size : ℕ}
    (hfits : Addressable s.mapper physBase size) {k : ℕ} (hk : k < size) :
    (Mmio.afterMap s call physBase size).mapper.translateAddr (s.mapper.nextVaddr + k) =
      some (some (physBase / 0x1000 * 0x1000 + k)) := by
  have hlive : Live (Mmio.afterMap s call physBase size) s.returned.length
      (newMapping s call physBase size) :=
    ⟨List.getElem?_concat_length, fun hmem => absurd (hi.known _ hmem) (Nat.lt_irrefl _)⟩
  exact (hi.afterMap hfits).translateAddr_eq hlive hk

/-- **Which mappings are byte-accurate**: a call with valid addresses returns, after any
other calls, and every byte of its mapping translates to the same byte of the physical
region exactly if that starts at a page, or is empty. -/
theorem translate_exact_iff (h0 : FreeAbove table)
    (h : Exec step (fun _ _ => True) (init table) l s) (call : MapCall) {physBase size : ℕ}
    (hfits : Addressable s.mapper physBase size) :
    ∃ mapping m, call.run s.mapper physBase size = some (mapping, m) ∧ mapping.size = size ∧
      ((∀ k < size, m.translateAddr (mapping.vaddr + k) = some (some (physBase + k))) ↔
        size = 0 ∨ 0x1000 ∣ physBase) := by
  have hi := inv_of_run h0 h
  refine ⟨_, _, hi.run_eq call hfits, rfl, ⟨fun hall => ?_, fun hcond k hk => ?_⟩⟩
  · rcases Nat.eq_zero_or_pos size with hzero | hpos
    · exact .inl hzero
    · right
      have hfirst := (hi.translateAddr_new call hfits hpos).symm.trans (hall 0 hpos)
      have heq := Option.some.inj (Option.some.inj hfirst)
      omega
  · rcases hcond with rfl | hdvd
    · exact absurd hk (Nat.not_lt_zero k)
    · have hstart : physBase / 0x1000 * 0x1000 = physBase := Nat.div_mul_cancel hdvd
      have hnew := hi.translateAddr_new call hfits hk
      rw [hstart] at hnew
      exact hnew

/-- A mapping of two pages after one of a page. -/
theorem translate_exact_two_pages : ∃ s mapping m,
    Exec step (fun _ _ => True) (init fun _ => none) [.map .mapMmio 0xFED00000 0x1000] s ∧
    s.mapper.mapMmio 0xFEBC0000 0x1801 = some (mapping, m) ∧
    ∀ k < 0x1801, m.translateAddr (mapping.vaddr + k) = some (some (0xFEBC0000 + k)) := by
  obtain ⟨s, hs, hfits⟩ : ∃ s, Exec step (fun _ _ => True) (init fun _ => none)
      [.map .mapMmio 0xFED00000 0x1000] s ∧ Addressable s.mapper 0xFEBC0000 0x1801 :=
    Exec.exists_of_run (by decide +kernel)
  obtain ⟨mapping, m, hrun, -, hiff⟩ :=
    translate_exact_iff (fun _ _ => rfl) hs .mapMmio hfits
  exact ⟨s, mapping, m, hs, hrun, hiff.mpr (.inr ⟨0xFEBC0, rfl⟩)⟩

end

/-- **A BAR of 128 bytes in the middle of a page**: its mapping translates to the start of
the page. -/
theorem bar_translated_to_page_start : ∃ mapping m,
    (init fun _ => none).mapper.mapMmio 0xFEBF1080 0x80 = some (mapping, m) ∧
    m.translateAddr mapping.vaddr = some (some 0xFEBF1000) ∧
    m.translateAddr mapping.vaddr ≠ some (some 0xFEBF1080) := by
  refine ⟨_, _, rfl, ?_⟩
  decide +kernel

end Mmio
