/-
The e1000 descriptor rings, transmit side.

The driver and the NIC share a ring of `TX_RING_SIZE` descriptors and the two
registers `TDH` and `TDT`.  Software takes descriptor `TDT` whenever its `DD` bit
is set; the hardware sees the descriptors from `TDH` up to `TDT` and takes an
empty window to mean an empty ring.

* `TxRingOk` — the accepted and not yet sent descriptors are exactly the
  hardware's window;
* `txRingOk_iff_room` — it holds all along a run exactly when no frame is
  accepted into the last free descriptor (`HasRoom`);
* `txRing_hidden_when_filled` — the 256th frame in a row makes `TDT` meet `TDH`
  and hides the whole ring.
-/
import Embclox.Bits
import Embclox.Circular
import Embclox.Exec
import Embclox.Memory
import Mathlib.Logic.Function.Basic

open Circular Run

namespace E1000

def txRingSize : ℕ := 256
def rxRingSize : ℕ := 256
def mbufSize : ℕ := 2048

def txdCmdEop : UInt8 := 0x01
def txdCmdRs : UInt8 := 0x08
def txdStatDd : UInt8 := 0x01

/-- Transmit descriptor. -/
structure TxDesc where
  addr : UInt64
  length : UInt16
  cso : UInt8
  cmd : UInt8
  status : UInt8
  css : UInt8
  special : UInt16

/-- Receive descriptor. -/
structure RxDesc where
  addr : UInt64
  length : UInt16
  csum : UInt16
  status : UInt8
  errors : UInt8
  special : UInt16

/-- The descriptor-done bit. -/
def TxDesc.dd (desc : TxDesc) : Bool := desc.status &&& txdStatDd != 0

/-- The ring memory and the packet buffers of one direction; offsets into the
buffers count from `bufs_vaddr`. -/
structure RingState (δ : Type) where
  ring : ℕ → δ
  bufs : ℕ → UInt8
  bufsPaddr : ℕ

/-- The head and tail registers. -/
structure Regs where
  tdh : ℕ
  tdt : ℕ
  rdh : ℕ
  rdt : ℕ

structure E1000Device where
  regs : Regs
  tx : RingState TxDesc
  rx : RingState RxDesc

/-- `init_rings`: every transmit descriptor is done, every receive descriptor is
empty, and the hardware owns all receive descriptors but the last. -/
def initRings (d : E1000Device) : E1000Device where
  regs := { tdh := 0, tdt := 0, rdh := 0, rdt := rxRingSize - 1 }
  tx := { d.tx with
    ring := fun i => if i < txRingSize then
      { addr := UInt64.ofNat (d.tx.bufsPaddr + i * mbufSize), length := 0, cso := 0, cmd := 0,
        status := txdStatDd, css := 0, special := 0 } else d.tx.ring i }
  rx := { d.rx with
    ring := fun i => if i < rxRingSize then
      { addr := UInt64.ofNat (d.rx.bufsPaddr + i * mbufSize), length := 0, csum := 0,
        status := 0, errors := 0, special := 0 } else d.rx.ring i }

/-! ### `TxHalf` -/

/-- `has_tx_space`; `none` is the panic of an index out of range. -/
def hasTxSpace (d : E1000Device) : Option Bool :=
  if d.regs.tdt < txRingSize then some (d.tx.ring d.regs.tdt).dd else none

/-- Hand descriptor `tindex` over: its buffer holds `bytes`, `DD` is clear and
the tail register moves past it. -/
def submit (d : E1000Device) (tindex : ℕ) (bytes : List UInt8) : E1000Device :=
  { d with
    regs := { d.regs with tdt := (tindex + 1) % txRingSize }
    tx := { d.tx with
      bufs := Memory.write d.tx.bufs (tindex * mbufSize) bytes
      ring := Function.update d.tx.ring tindex
        { d.tx.ring tindex with
          length := UInt16.ofNat bytes.length, status := 0, cmd := txdCmdRs ||| txdCmdEop } } }

/-- `transmit`: copy the packet into the buffer of descriptor `TDT`; a full ring
drops it. -/
def transmit (d : E1000Device) (packet : List UInt8) : Option E1000Device :=
  let tindex := d.regs.tdt
  if tindex < txRingSize then
    if (d.tx.ring tindex).dd then some (submit d tindex (packet.take (min packet.length mbufSize)))
    else some d
  else none

/-- `transmit_with`: the closure gets the first `len` bytes of the buffer and
leaves other bytes there. -/
def transmitWith {τ : Type} (d : E1000Device) (len : ℕ) (f : List UInt8 → τ × List UInt8) :
    Option (E1000Device × Option τ) :=
  let tindex := d.regs.tdt
  if tindex < txRingSize then
    if (d.tx.ring tindex).dd then
      let buf := Memory.read d.tx.bufs (tindex * mbufSize) (min len mbufSize)
      let (result, bytes) := f buf
      -- the closure cannot resize the slice: what it does not write stays
      some (submit d tindex (bytes.take buf.length ++ buf.drop bytes.length), some result)
    else some (d, none)
  else none

/-! ### Runs of the driver and the hardware -/

/-- The device together with the descriptors that software has accepted and the
hardware has not sent yet, a history variable. -/
structure TxSys where
  dev : E1000Device
  unsent : List ℕ

inductive TxAct
  | hasTxSpace
  | transmit (packet : List UInt8)
  | transmitWith (len : ℕ) (f : List UInt8 → Unit × List UInt8)
  /-- The hardware sends descriptor `TDH`. -/
  | send

/-- The hardware's step: the ring is empty when the registers agree; otherwise
it sends descriptor `TDH`, sets its `DD` and moves on. -/
def hwSend (d : E1000Device) : Option E1000Device :=
  if d.regs.tdh = d.regs.tdt then none
  else
    let desc := d.tx.ring d.regs.tdh
    some { d with
      regs := { d.regs with tdh := (d.regs.tdh + 1) % txRingSize }
      tx := { d.tx with
        ring := Function.update d.tx.ring d.regs.tdh
          { desc with status := desc.status ||| txdStatDd } } }

/-- The descriptor a transmit call takes, if it takes one. -/
def accepted (d : E1000Device) : List ℕ := if (d.tx.ring d.regs.tdt).dd then [d.regs.tdt] else []

def txStep (s : TxSys) : TxAct → Option TxSys
  | .hasTxSpace => (hasTxSpace s.dev).map fun _ => s
  | .transmit packet => (transmit s.dev packet).map fun d => ⟨d, s.unsent ++ accepted s.dev⟩
  | .transmitWith len f =>
      (transmitWith s.dev len f).map fun r => ⟨r.1, s.unsent ++ accepted s.dev⟩
  | .send => (hwSend s.dev).map fun d => ⟨d, s.unsent.filter (· != s.dev.regs.tdh)⟩

/-- The state `init_rings` leaves. -/
def txInit (d : E1000Device) : TxSys := ⟨initRings d, []⟩

/-- The descriptors the hardware can see: from `TDH` up to, but not including,
`TDT`. -/
def Visible (d : E1000Device) (i : ℕ) : Prop := InWindow txRingSize d.regs.tdh d.regs.tdt i

/-- No frame is hidden from the hardware: the accepted and not yet sent
descriptors are exactly the visible ones, and a clear `DD` bit on descriptor
`TDT` (software sees a full ring) excludes `TDH = TDT` (the hardware sees an
empty one). -/
def TxRingOk (s : TxSys) : Prop :=
  (∀ i, i ∈ s.unsent ↔ Visible s.dev i) ∧
    ((s.dev.tx.ring s.dev.regs.tdt).dd = false → s.dev.regs.tdh ≠ s.dev.regs.tdt)

/-- The step is not a transmit call that fills the last free descriptor. -/
def HasRoom (s : TxSys) : TxAct → Prop
  | .transmit _ | .transmitWith _ _ =>
      (s.dev.tx.ring s.dev.regs.tdt).dd = true →
        (s.dev.regs.tdt + 1) % txRingSize ≠ s.dev.regs.tdh
  | .hasTxSpace | .send => True

/-! ### What a step does -/

@[simp] theorem submit_tdh (d : E1000Device) (i : ℕ) (bytes : List UInt8) :
    (submit d i bytes).regs.tdh = d.regs.tdh := rfl

@[simp] theorem submit_tdt (d : E1000Device) (i : ℕ) (bytes : List UInt8) :
    (submit d i bytes).regs.tdt = (i + 1) % txRingSize := rfl

@[simp] theorem submit_dd (d : E1000Device) (i : ℕ) (bytes : List UInt8) :
    ((submit d i bytes).tx.ring i).dd = false := by
  simp [submit, TxDesc.dd]

theorem submit_ring_of_ne (d : E1000Device) {i j : ℕ} (bytes : List UInt8) (h : j ≠ i) :
    (submit d i bytes).tx.ring j = d.tx.ring j := by
  simp [submit, h]

theorem dd_sent (desc : TxDesc) :
    ({ desc with status := desc.status ||| txdStatDd } : TxDesc).dd = true := by
  rw [TxDesc.dd, Bits.or_and_self]
  decide

/-- Everything a step can do: leave the state alone, hand over descriptor `TDT`,
or send descriptor `TDH`. -/
theorem txStep_cases {s u : TxSys} {a : TxAct} (h : txStep s a = some u) :
    u = s ∧ (a = .hasTxSpace ∨ (s.dev.tx.ring s.dev.regs.tdt).dd = false) ∨
    ((∃ p, a = .transmit p) ∨ ∃ len f, a = .transmitWith len f) ∧
      s.dev.regs.tdt < txRingSize ∧ (s.dev.tx.ring s.dev.regs.tdt).dd = true ∧
      (∃ bytes, u = ⟨submit s.dev s.dev.regs.tdt bytes, s.unsent ++ [s.dev.regs.tdt]⟩) ∨
    a = .send ∧ s.dev.regs.tdh ≠ s.dev.regs.tdt ∧
      hwSend s.dev = some u.dev ∧ u.unsent = s.unsent.filter (· != s.dev.regs.tdh) := by
  cases a with
  | hasTxSpace =>
    simp only [txStep, Option.map_eq_some_iff] at h
    obtain ⟨_, _, rfl⟩ := h
    exact .inl ⟨rfl, .inl rfl⟩
  | transmit packet =>
    simp only [txStep, transmit, accepted, Option.map_eq_some_iff] at h
    by_cases ht : s.dev.regs.tdt < txRingSize
    · by_cases hd : (s.dev.tx.ring s.dev.regs.tdt).dd = true
      · simp only [if_pos ht, if_pos hd, Option.some.injEq, exists_eq_left'] at h
        exact .inr (.inl ⟨.inl ⟨packet, rfl⟩, ht, hd, _, h.symm⟩)
      · simp only [if_pos ht, if_neg hd, Option.some.injEq, exists_eq_left', List.append_nil] at h
        exact .inl ⟨h.symm, .inr (Bool.not_eq_true _ ▸ hd)⟩
    · simp [if_neg ht] at h
  | transmitWith len f =>
    simp only [txStep, transmitWith, accepted, Option.map_eq_some_iff] at h
    by_cases ht : s.dev.regs.tdt < txRingSize
    · by_cases hd : (s.dev.tx.ring s.dev.regs.tdt).dd = true
      · simp only [if_pos ht, if_pos hd, Option.some.injEq, exists_eq_left'] at h
        exact .inr (.inl ⟨.inr ⟨len, f, rfl⟩, ht, hd, _, h.symm⟩)
      · simp only [if_pos ht, if_neg hd, Option.some.injEq, exists_eq_left', List.append_nil] at h
        exact .inl ⟨h.symm, .inr (Bool.not_eq_true _ ▸ hd)⟩
    · simp [if_neg ht] at h
  | send =>
    simp only [txStep, Option.map_eq_some_iff] at h
    obtain ⟨d, hd, rfl⟩ := h
    refine .inr (.inr ⟨rfl, ?_, hd, rfl⟩)
    intro heq
    rw [hwSend, if_pos heq] at hd
    exact absurd hd (by simp)

/-! ### The invariant -/

/-- The registers are in range, `DD` is clear exactly on the accepted and not yet
sent descriptors, and these are the visible ones. -/
structure TxInv (s : TxSys) : Prop where
  tdh_lt : s.dev.regs.tdh < txRingSize
  tdt_lt : s.dev.regs.tdt < txRingSize
  dd : ∀ i < txRingSize, (s.dev.tx.ring i).dd = false ↔ i ∈ s.unsent
  visible : ∀ i, i ∈ s.unsent ↔ Visible s.dev i

theorem TxInv.ok {s : TxSys} (hi : TxInv s) : TxRingOk s := by
  refine ⟨hi.visible, fun hdd _ => ?_⟩
  -- a clear `DD` puts `TDT` itself into the window that ends before it
  have hmem := (hi.dd _ hi.tdt_lt).mp hdd
  exact not_inWindow_end _ _ ((hi.visible _).mp hmem)

theorem txInit_inv (d : E1000Device) : TxInv (txInit d) := by
  refine ⟨Nat.zero_lt_succ _, Nat.zero_lt_succ _, fun i hi => ?_, fun i => ?_⟩
  · simp [txInit, initRings, hi, TxDesc.dd, txdStatDd]
  · simp [txInit, initRings, Visible, not_inWindow_self (N := txRingSize) (s := 0) (by decide)]

theorem submit_inv {s : TxSys} {bytes : List UInt8} (hi : TxInv s)
    (hroom : (s.dev.regs.tdt + 1) % txRingSize ≠ s.dev.regs.tdh) :
    TxInv ⟨submit s.dev s.dev.regs.tdt bytes, s.unsent ++ [s.dev.regs.tdt]⟩ := by
  have hh := hi.tdh_lt
  have ht := hi.tdt_lt
  refine ⟨hh, Nat.mod_lt _ (by decide), fun i hlt => ?_, fun i => ?_⟩
  · by_cases hit : i = s.dev.regs.tdt
    · subst hit
      simp
    · simp [submit_ring_of_ne _ _ hit, hit, hi.dd i hlt]
  · -- the window grows by exactly the old tail
    have hmod : s.dev.regs.tdh % txRingSize = s.dev.regs.tdh := Nat.mod_eq_of_lt hh
    simp only [List.mem_append, List.mem_singleton, hi.visible i, Visible, submit_tdh, submit_tdt]
    rw [inWindow_push ht (by rwa [hmod])]

theorem hwSend_inv {s u : TxSys} (hi : TxInv s) (hne : s.dev.regs.tdh ≠ s.dev.regs.tdt)
    (hd : hwSend s.dev = some u.dev)
    (hu : u.unsent = s.unsent.filter (· != s.dev.regs.tdh)) : TxInv u := by
  have hh := hi.tdh_lt
  have ht := hi.tdt_lt
  rw [hwSend, if_neg hne, Option.some.injEq] at hd
  obtain ⟨dev, unsent⟩ := u
  obtain rfl : _ = dev := hd
  obtain rfl : unsent = _ := hu
  refine ⟨Nat.mod_lt _ (by decide), ht, fun i hlt => ?_, fun i => ?_⟩
  · by_cases hih : i = s.dev.regs.tdh
    · subst hih
      simp [dd_sent]
    · simp [hih, hi.dd i hlt]
  · -- the window loses exactly the old head
    simp only [List.mem_filter, bne_iff_ne, hi.visible i, Visible]
    rw [inWindow_pop hh ht hne]

theorem txStep_inv {s u : TxSys} {a : TxAct} (hi : TxInv s) (hroom : HasRoom s a)
    (h : txStep s a = some u) : TxInv u := by
  obtain ⟨rfl, -⟩ | ⟨ha, -, hdd, bytes, rfl⟩ | ⟨-, hne, hd, hu⟩ := txStep_cases h
  · exact hi
  · obtain ⟨p, rfl⟩ | ⟨len, f, rfl⟩ := ha
    · exact submit_inv hi (hroom hdd)
    · exact submit_inv hi (hroom hdd)
  · exact hwSend_inv hi hne hd hu

/-- A frame that goes into the last free descriptor is hidden: `TDT` meets
`TDH`. -/
theorem not_ok_of_no_room {s u : TxSys} {a : TxAct} (hi : TxInv s) (hroom : ¬ HasRoom s a)
    (h : txStep s a = some u) : ¬ TxRingOk u := by
  -- without room the step is a transmit call that takes descriptor `TDT`
  have hfull : (s.dev.regs.tdt + 1) % txRingSize = s.dev.regs.tdh ∧
      (s.dev.tx.ring s.dev.regs.tdt).dd = true ∧ a ≠ .hasTxSpace ∧ a ≠ .send := by
    cases a with
    | hasTxSpace => exact absurd trivial hroom
    | send => exact absurd trivial hroom
    | transmit p =>
      simp only [HasRoom, Classical.not_imp, not_not] at hroom
      exact ⟨hroom.2, hroom.1, by simp, by simp⟩
    | transmitWith len f =>
      simp only [HasRoom, Classical.not_imp, not_not] at hroom
      exact ⟨hroom.2, hroom.1, by simp, by simp⟩
  obtain ⟨hmeet, hdd, hspace, hsend⟩ := hfull
  obtain ⟨-, rfl | hclear⟩ | ⟨-, -, -, bytes, rfl⟩ | ⟨rfl, -⟩ := txStep_cases h
  · exact absurd rfl hspace
  · exact absurd (hdd.symm.trans hclear) (by simp)
  · rintro ⟨hvis, -⟩
    have hmem : Visible (submit s.dev s.dev.regs.tdt bytes) s.dev.regs.tdt :=
      (hvis s.dev.regs.tdt).mp (by simp)
    simp only [Visible, submit_tdh, submit_tdt, hmeet] at hmem
    exact not_inWindow_self hi.tdh_lt hmem
  · exact absurd rfl hsend

/-! ### The transmit ring along a run -/

/-- **The transmit ring hides no frame exactly while one descriptor stays
free.**  Along every run of driver calls and hardware steps from the state
`init_rings` leaves, the accepted and not yet sent descriptors are the hardware's
window in every state, if and only if no transmit call is accepted into the last
free descriptor. -/
theorem txRingOk_iff_room (d : E1000Device) {l : List TxAct} {s : TxSys}
    (h : Exec txStep (fun _ _ => True) (txInit d) l s) :
    (∀ l' s', l' <+: l → Exec txStep (fun _ _ => True) (txInit d) l' s' → TxRingOk s') ↔
      Exec txStep (fun t a => True ∧ HasRoom t a) (txInit d) l s := by
  have hinv : ∀ {l s}, Exec txStep (fun t a => True ∧ HasRoom t a) (txInit d) l s → TxInv s :=
    fun hr => hr.invariant (txInit_inv d) fun hi hg hs => txStep_inv hi hg.2 hs
  refine Exec.guarded_iff (fun hr => (hinv hr).ok) ?_ h
  intro l t u a hr _ hroom hs
  exact not_ok_of_no_room (hinv hr) hroom hs

/-- A device with all memory zero. -/
def zeroDevice : E1000Device where
  regs := ⟨0, 0, 0, 0⟩
  tx := ⟨fun _ => ⟨0, 0, 0, 0, 0, 0, 0⟩, fun _ => 0, 0⟩
  rx := ⟨fun _ => ⟨0, 0, 0, 0, 0, 0⟩, fun _ => 0, 0⟩

instance (s : TxSys) : (a : TxAct) → Decidable (HasRoom s a)
  | .transmit _ | .transmitWith _ _ => inferInstanceAs (Decidable (_ → _))
  | .hasTxSpace | .send => .isTrue trivial

/-- A frame is accepted and sent, and no state on the way hides one. -/
theorem txRingOk_iff_room_transmit_send :
    ∃ s, Exec txStep (fun _ _ => True) (txInit zeroDevice) [.transmit [1, 2], .send] s ∧
      ∀ l' s', l' <+: [.transmit [1, 2], .send] →
        Exec txStep (fun _ _ => True) (txInit zeroDevice) l' s' → TxRingOk s' := by
  obtain ⟨s, hs, -⟩ : ∃ s, Exec txStep (fun t a => True ∧ HasRoom t a) (txInit zeroDevice)
      [.transmit [1, 2], .send] s ∧ True := Exec.exists_of_run (by decide)
  have hrun := hs.mono (H := fun _ _ => True) fun _ _ _ => trivial
  exact ⟨s, hrun, (txRingOk_iff_room zeroDevice hrun).mpr hs⟩

/-- After `n ≤ 256` transmit calls in a row, without a hardware step, the first
`n` descriptors are taken. -/
theorem fill (d : E1000Device) (packet : List UInt8) {n : ℕ} (hn : n ≤ txRingSize) :
    ∃ s, Exec txStep (fun _ _ => True) (txInit d) (List.replicate n (.transmit packet)) s ∧
      s.dev.regs.tdh = 0 ∧ s.dev.regs.tdt = n % txRingSize ∧ s.unsent = List.range n ∧
      ∀ i, n ≤ i → i < txRingSize → (s.dev.tx.ring i).dd = true := by
  induction n with
  | zero =>
    refine ⟨txInit d, .nil, rfl, rfl, rfl, fun i _ hi => ?_⟩
    simp [txInit, initRings, hi, TxDesc.dd, txdStatDd]
  | succ n ih =>
    obtain ⟨s, hs, hh, ht, hu, hdd⟩ := ih (by omega)
    rw [Nat.mod_eq_of_lt hn] at ht
    have hfree : (s.dev.tx.ring n).dd = true := hdd n (Nat.le_refl n) hn
    refine ⟨⟨submit s.dev s.dev.regs.tdt (packet.take (min packet.length mbufSize)),
      s.unsent ++ [s.dev.regs.tdt]⟩, ?_, hh, ?_, ?_, ?_⟩
    · rw [List.replicate_succ']
      refine .snoc hs trivial ?_
      simp only [txStep, transmit, accepted, ht, if_pos hfree, if_pos (Nat.lt_of_succ_le hn),
        Option.map_some]
    · rw [submit_tdt, ht]
    · rw [hu, ht, List.range_succ]
    · intro i hi hlt
      rw [submit_ring_of_ne _ _ (by omega)]
      exact hdd i (by omega) hlt

/-- Filling the ring without a hardware step hides all 256 frames. -/
theorem txRing_hidden_when_filled :
    ∃ s, Exec txStep (fun _ _ => True) (txInit zeroDevice) (List.replicate 256 (.transmit [1])) s ∧
      s.unsent = List.range 256 ∧ s.dev.regs.tdh = s.dev.regs.tdt ∧ ¬ TxRingOk s := by
  obtain ⟨s, hs, hh, ht, hu, -⟩ := fill zeroDevice [1] (n := 256) (Nat.le_refl _)
  have heq : s.dev.regs.tdh = s.dev.regs.tdt := by rw [hh, ht]; rfl
  refine ⟨s, hs, hu, heq, ?_⟩
  rintro ⟨hvis, -⟩
  have h0 : Visible s.dev 0 := (hvis 0).mp (by simp [hu])
  rw [Visible, ← heq, hh] at h0
  exact not_inWindow_self (by decide) h0

end E1000
