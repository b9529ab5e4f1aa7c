/-
The e1000 descriptor rings, receive side.

The only cursor of the driver is the register `RDT`: the next frame is in the
descriptor after it.  The hardware fills descriptor `RDH` while the two registers
differ, so one descriptor always stays empty.

* `RxRingOk` — the frames handed to closures are those the hardware wrote, in order;
  `recv_with` returns `None` exactly when there is no other; the hardware spares the
  unread frames; every slice lies in the buffer of its descriptor;
* `rxRingOk_of_run` — it holds in every state of every run, if no receive buffer lies
  at the physical address 0;
* `frame_stuck_at_address_zero` — a descriptor with address 0 counts as absent, and
  its frame is never received.
-/
import Embclox.E1000
import Embclox.Slots

open Run Slots

namespace E1000

def rxdStatDd : UInt8 := 0x01
def rxdStatEop : UInt8 := 0x02

/-! ### `RxHalf` -/

/-- The descriptor after `RDT`. -/
def rindex (d : E1000Device) : ℕ := (d.regs.rdt + 1) % rxRingSize

def hasRxPacket (d : E1000Device) : Bool :=
  let desc := d.rx.ring (rindex d)
  desc.addr != 0 && desc.status &&& rxdStatDd != 0

/-- Give descriptor `i` back to the hardware. -/
def giveBack (d : E1000Device) (i : ℕ) : E1000Device :=
  { d with
    regs := { d.regs with rdt := i }
    rx := { d.rx with
      ring := Function.update d.rx.ring i { d.rx.ring i with status := 0 } } }

/-- The slice of the buffers that belongs to descriptor `i`: its start and its
length. -/
def rxSlice (d : E1000Device) (i : ℕ) : ℕ × ℕ :=
  (i * mbufSize, min (d.rx.ring i).length.toNat mbufSize)

/-- `recv_with`: the closure gets the frame and leaves other bytes in its place, of
which the first 64 are cleared. -/
def recvWith {τ : Type} (d : E1000Device) (f : List UInt8 → τ × List UInt8) :
    E1000Device × Option τ :=
  let i := rindex d
  let desc := d.rx.ring i
  if desc.addr = 0 then (d, none)
  else if desc.status &&& (rxdStatDd ||| rxdStatEop) ≠ rxdStatDd ||| rxdStatEop then (d, none)
  else if desc.errors ≠ 0 then (giveBack d i, none)
  else
    let (start, len) := rxSlice d i
    let buf := Memory.read d.rx.bufs start len
    let (result, bytes) := f buf
    -- the closure cannot resize the slice: what it does not write stays
    let bytes := bytes.take len ++ buf.drop bytes.length
    let bytes := List.replicate (min 64 len) 0 ++ bytes.drop (min 64 len)
    (giveBack { d with rx := { d.rx with bufs := Memory.write d.rx.bufs start bytes } } i,
      some result)

/-! ### Runs of the driver and the hardware -/

/-- The hardware's step: while the registers differ it writes a frame to the buffer of
descriptor `RDH`, as far as it fits, and moves on. -/
def hwFill (d : E1000Device) (frame : List UInt8) : Option E1000Device :=
  if d.regs.rdh = d.regs.rdt then none
  else
    let desc := d.rx.ring d.regs.rdh
    some { d with
      regs := { d.regs with rdh := (d.regs.rdh + 1) % rxRingSize }
      rx := { d.rx with
        bufs := Memory.write d.rx.bufs (desc.addr.toNat - d.rx.bufsPaddr) (frame.take mbufSize)
        ring := Function.update d.rx.ring d.regs.rdh
          { desc with
            status := rxdStatDd ||| rxdStatEop, errors := 0,
            length := UInt16.ofNat frame.length } } }

/-- The device, the frames in the order in which the hardware wrote them into the
buffers, and the frames in the order in which closures got them. -/
structure RxSys where
  dev : E1000Device
  written : List (List UInt8)
  handed : List (List UInt8)

inductive RxAct
  | hasRxPacket
  /-- `f` is what the closure does to its slice. -/
  | recvWith (f : List UInt8 → List UInt8)
  /-- The hardware receives a frame. -/
  | fill (frame : List UInt8)

def rxStep (s : RxSys) : RxAct → Option RxSys
  | .hasRxPacket => some s
  | .recvWith f =>
      let r := recvWith s.dev fun buf => (buf, f buf)
      some ⟨r.1, s.written, s.handed ++ r.2.toList⟩
  | .fill frame =>
      -- the length field has 16 bits
      if frame.length < 2 ^ 16 then
        (hwFill s.dev frame).map fun d => ⟨d, s.written ++ [frame.take mbufSize], s.handed⟩
      else none

/-- The state `init_rings` leaves. -/
def rxInit (d : E1000Device) : RxSys := ⟨initRings d, [], []⟩

/-- The receive buffers lie in the address space, and not at its very start. -/
def BufsPlaced (d : E1000Device) : Prop :=
  0 < d.rx.bufsPaddr ∧ d.rx.bufsPaddr + rxRingSize * mbufSize ≤ 2 ^ 64

instance (d : E1000Device) : Decidable (BufsPlaced d) := inferInstanceAs (Decidable (_ ∧ _))

/-- Descriptor `i` is filled and not yet read. -/
def Unread (s : RxSys) (i : ℕ) : Prop := Held rxRingSize s.handed.length s.written.length i

/-- A descriptor and its buffer stay as they are. -/
def SameSlot (d d' : E1000Device) (i : ℕ) : Prop :=
  d'.rx.ring i = d.rx.ring i ∧
    Memory.read d'.rx.bufs (i * mbufSize) mbufSize = Memory.read d.rx.bufs (i * mbufSize) mbufSize

structure RxRingOk (s : RxSys) : Prop where
  /-- The closures get the written frames in order, each once. -/
  order : s.handed <+: s.written
  /-- A call finds nothing exactly when all of them have been consumed. -/
  none_iff : ∀ {τ : Type} (f : List UInt8 → τ × List UInt8),
    (recvWith s.dev f).2 = none ↔ s.handed = s.written
  ready_iff : hasRxPacket s.dev = true ↔ s.handed ≠ s.written
  /-- The hardware fills no descriptor, and writes no buffer, with an unread frame. -/
  spared : ∀ frame u, rxStep s (.fill frame) = some u → ∀ i, Unread s i → SameSlot s.dev u.dev i
  /-- A slice lies in the buffer that its descriptor points to. -/
  inside : ∀ i, Unread s i → (rxSlice s.dev i).2 ≤ mbufSize ∧
    s.dev.rx.bufsPaddr + (rxSlice s.dev i).1 = (s.dev.rx.ring i).addr.toNat

/-! ### What a step does -/

section

variable {d : E1000Device} {i : ℕ}

/-- A complete frame without errors. -/
def RxDesc.complete (desc : RxDesc) : Prop :=
  desc.status = rxdStatDd ||| rxdStatEop ∧ desc.errors = 0

theorem recvWith_empty {τ : Type} (f : List UInt8 → τ × List UInt8)
    (h : (d.rx.ring (rindex d)).status = 0) : recvWith d f = (d, none) := by
  unfold recvWith
  dsimp only
  split
  · rfl
  · rw [if_pos (by rw [h]; decide)]

/-- What the closure leaves of its slice. -/
def leftBytes (bytes buf : List UInt8) (len : ℕ) : List UInt8 :=
  List.replicate (min 64 len) 0 ++ (bytes.take len ++ buf.drop bytes.length).drop (min 64 len)

theorem length_leftBytes_le (bytes : List UInt8) {buf : List UInt8} {len : ℕ}
    (h : buf.length = len) :
    (leftBytes bytes buf len).length ≤ len := by
  simp only [leftBytes, List.length_append, List.length_replicate, List.length_drop,
    List.length_take]
  omega

theorem recvWith_complete {τ : Type} (f : List UInt8 → τ × List UInt8)
    (ha : (d.rx.ring (rindex d)).addr ≠ 0) (hc : (d.rx.ring (rindex d)).complete)
    {buf : List UInt8}
    (hbuf : Memory.read d.rx.bufs (rxSlice d (rindex d)).1 (rxSlice d (rindex d)).2 = buf) :
    recvWith d f = (giveBack { d with rx := { d.rx with
      bufs := Memory.write d.rx.bufs (rindex d * mbufSize)
        (leftBytes (f buf).2 buf (rxSlice d (rindex d)).2) } } (rindex d), some (f buf).1) := by
  unfold recvWith
  dsimp only
  rw [if_neg ha, if_neg (by rw [hc.1]; decide), if_neg (by rw [hc.2]; decide)]
  subst hbuf
  rfl

end

/-! ### The invariant -/

/-- The frame in descriptor `i`. -/
def rxFrame (d : E1000Device) (i : ℕ) : List UInt8 :=
  Memory.read d.rx.bufs (rxSlice d i).1 (rxSlice d i).2

structure RxInv (s : RxSys) : Prop where
  placed : BufsPlaced s.dev
  addr : ∀ i < rxRingSize,
    (s.dev.rx.ring i).addr = UInt64.ofNat (s.dev.rx.bufsPaddr + i * mbufSize)
  chan : Chan rxRingSize (fun i => (s.dev.rx.ring i).complete) (rxFrame s.dev) s.written s.handed
  empty : ∀ i < rxRingSize, ¬ (s.dev.rx.ring i).complete → (s.dev.rx.ring i).status = 0
  room : s.written.length < s.handed.length + rxRingSize
  rdh : s.dev.regs.rdh = s.written.length % rxRingSize
  rdt : s.dev.regs.rdt = (s.handed.length + (rxRingSize - 1)) % rxRingSize

theorem rxRingSize_pos : 0 < rxRingSize := by decide

theorem rindex_lt (d : E1000Device) : rindex d < rxRingSize := Nat.mod_lt _ rxRingSize_pos

section

variable {s u : RxSys} {d d' : E1000Device}

theorem RxInv.rdh_lt (hi : RxInv s) : s.dev.regs.rdh < rxRingSize := by
  rw [hi.rdh]
  exact Nat.mod_lt _ rxRingSize_pos

theorem RxInv.toNat_addr (hi : RxInv s) {i : ℕ} (hlt : i < rxRingSize) :
    (s.dev.rx.ring i).addr.toNat = s.dev.rx.bufsPaddr + i * mbufSize := by
  have hfits := hi.placed.2
  have hmul : (i + 1) * mbufSize ≤ rxRingSize * mbufSize := Nat.mul_le_mul_right _ hlt
  rw [Nat.succ_mul] at hmul
  rw [hi.addr i hlt, UInt64.toNat_ofNat', Nat.mod_eq_of_lt]
  unfold mbufSize at *
  omega

theorem RxInv.addr_ne_zero (hi : RxInv s) {i : ℕ} (hlt : i < rxRingSize) :
    (s.dev.rx.ring i).addr ≠ 0 := by
  intro h0
  have hpos := hi.placed.1
  have haddr := hi.toNat_addr hlt
  rw [h0, UInt64.toNat_zero] at haddr
  omega

/-- The descriptor after `RDT` is that of the oldest unread frame. -/
theorem RxInv.rindex_eq (hi : RxInv s) : rindex s.dev = s.handed.length % rxRingSize := by
  rw [rindex, hi.rdt, Nat.mod_add_mod]
  exact Nat.add_mod_right s.handed.length rxRingSize

theorem RxInv.complete_rindex_iff (hi : RxInv s) :
    (s.dev.rx.ring (rindex s.dev)).complete ↔ s.handed ≠ s.written := by
  rw [hi.rindex_eq]
  exact hi.chan.full_first_iff rxRingSize_pos

theorem RxInv.status_of_eq (hi : RxInv s) (heq : s.handed = s.written) :
    (s.dev.rx.ring (rindex s.dev)).status = 0 :=
  hi.empty _ (rindex_lt _) fun hc => hi.complete_rindex_iff.mp hc heq

/-- Descriptor `RDH` holds no unread frame. -/
theorem RxInv.not_complete_rdh (hi : RxInv s) : ¬ (s.dev.rx.ring s.dev.regs.rdh).complete := by
  have hroom := hi.room
  rw [hi.rdh, hi.chan.full_next_iff rxRingSize_pos]
  omega

/-- While the registers differ, one more frame leaves a descriptor empty. -/
theorem RxInv.room_of_ne (hi : RxInv s) (hne : s.dev.regs.rdh ≠ s.dev.regs.rdt) :
    s.written.length + 1 < s.handed.length + rxRingSize := by
  have hroom := hi.room
  by_contra hfull
  have hlen : s.written.length = s.handed.length + (rxRingSize - 1) := by
    unfold rxRingSize at *
    omega
  rw [hi.rdh, hi.rdt, hlen] at hne
  exact hne rfl

theorem rxInit_inv (h : BufsPlaced d) : RxInv (rxInit d) := by
  have hstatus : ∀ i < rxRingSize, ((rxInit d).dev.rx.ring i).status = 0 := fun i hi => by
    simp [rxInit, initRings, hi]
  refine ⟨h, fun i hi => ?_, ?_, fun i hi _ => hstatus i hi, rxRingSize_pos, rfl, rfl⟩
  · simp [rxInit, initRings, hi]
  · refine Chan.of_empty fun i hi hc => ?_
    have := (hstatus i hi).symm.trans hc.1
    exact absurd this (by decide)

/-! ### What a step leaves alone -/

/-- The buffers stay where they are, and so do the addresses in the descriptors. -/
def SamePlaces (d d' : E1000Device) : Prop :=
  d'.rx.bufsPaddr = d.rx.bufsPaddr ∧ ∀ i, (d'.rx.ring i).addr = (d.rx.ring i).addr

/-- An update of one descriptor that keeps its address keeps all of them. -/
theorem addr_update {ring : ℕ → RxDesc} {j : ℕ} {desc : RxDesc} (h : desc.addr = (ring j).addr)
    (i : ℕ) : (Function.update ring j desc i).addr = (ring i).addr := by
  by_cases hij : i = j
  · rw [hij, Function.update_self, h]
  · rw [Function.update_of_ne hij]

theorem giveBack_samePlaces (d : E1000Device) (j : ℕ) : SamePlaces d (giveBack d j) :=
  ⟨rfl, addr_update rfl⟩

theorem SameSlot.rxFrame {i : ℕ} (h : SameSlot d d' i) : rxFrame d' i = rxFrame d i := by
  have hslice : rxSlice d' i = rxSlice d i := by rw [rxSlice, rxSlice, h.1]
  have hle : (rxSlice d i).2 ≤ mbufSize := Nat.min_le_right _ _
  rw [E1000.rxFrame, hslice, E1000.rxFrame, ← Memory.take_read hle]
  show List.take _ (Memory.read d'.rx.bufs (i * mbufSize) mbufSize) = _
  rw [h.2, Memory.take_read hle]
  rfl

/-- What two states of the ring with the same slot `i` share. -/
theorem SameSlot.chan {i : ℕ} (h : SameSlot d d' i) :
    ((d'.rx.ring i).complete ↔ (d.rx.ring i).complete) ∧
      ((d.rx.ring i).complete → E1000.rxFrame d' i = E1000.rxFrame d i) := by
  refine ⟨by rw [h.1], fun _ => h.rxFrame⟩

/-! ### The hardware's step -/

theorem hwFill_eq_some {frame : List UInt8} (h : hwFill d frame = some d') :
    d.regs.rdh ≠ d.regs.rdt ∧
      d' = { d with
        regs := { d.regs with rdh := (d.regs.rdh + 1) % rxRingSize }
        rx := { d.rx with
          bufs := Memory.write d.rx.bufs ((d.rx.ring d.regs.rdh).addr.toNat - d.rx.bufsPaddr)
            (frame.take mbufSize)
          ring := Function.update d.rx.ring d.regs.rdh
            { d.rx.ring d.regs.rdh with
              status := rxdStatDd ||| rxdStatEop, errors := 0,
              length := UInt16.ofNat frame.length } } } := by
  unfold hwFill at h
  by_cases hne : d.regs.rdh = d.regs.rdt
  · rw [if_pos hne] at h
    exact absurd h (by simp)
  · rw [if_neg hne] at h
    exact ⟨hne, (Option.some.inj h).symm⟩

theorem rxStep_fill {frame : List UInt8} (h : rxStep s (.fill frame) = some u) :
    frame.length < 2 ^ 16 ∧ ∃ d', hwFill s.dev frame = some d' ∧
      u = ⟨d', s.written ++ [frame.take mbufSize], s.handed⟩ := by
  by_cases hlen : frame.length < 2 ^ 16
  · simp only [rxStep, if_pos hlen, Option.map_eq_some_iff] at h
    obtain ⟨d', hfill, rfl⟩ := h
    exact ⟨hlen, d', hfill, rfl⟩
  · simp only [rxStep, if_neg hlen] at h
    exact absurd h (by simp)

theorem hwFill_samePlaces {frame : List UInt8} (h : hwFill d frame = some d') :
    SamePlaces d d' := by
  obtain ⟨-, rfl⟩ := hwFill_eq_some h
  exact ⟨rfl, addr_update rfl⟩

theorem hwFill_complete {frame : List UInt8} (h : hwFill d frame = some d') :
    (d'.rx.ring d.regs.rdh).complete := by
  obtain ⟨-, rfl⟩ := hwFill_eq_some h
  dsimp only
  rw [Function.update_self]
  exact ⟨rfl, rfl⟩

theorem RxInv.fill_sameSlot (hi : RxInv s) {frame : List UInt8} (h : hwFill s.dev frame = some d')
    {i : ℕ} (hne : i ≠ s.dev.regs.rdh) : SameSlot s.dev d' i := by
  obtain ⟨-, rfl⟩ := hwFill_eq_some h
  refine ⟨Function.update_of_ne hne _ _, ?_⟩
  dsimp only
  rw [hi.toNat_addr hi.rdh_lt, Nat.add_sub_cancel_left]
  exact Memory.read_write_block _ hne (Nat.le_refl _) (List.length_take_le _ _)

theorem RxInv.fill_rxFrame (hi : RxInv s) {frame : List UInt8} (hlen : frame.length < 2 ^ 16)
    (h : hwFill s.dev frame = some d') : rxFrame d' s.dev.regs.rdh = frame.take mbufSize := by
  have haddr := hi.toNat_addr hi.rdh_lt
  obtain ⟨-, rfl⟩ := hwFill_eq_some h
  have hslice : min (UInt16.ofNat frame.length).toNat mbufSize = (frame.take mbufSize).length := by
    rw [UInt16.toNat_ofNat', Nat.mod_eq_of_lt hlen, List.length_take, Nat.min_comm]
  rw [rxFrame, rxSlice]
  dsimp only
  rw [Function.update_self, hslice, haddr, Nat.add_sub_cancel_left]
  exact Memory.read_write _ _ _

theorem RxInv.fill (hi : RxInv s) {frame : List UInt8} (hlen : frame.length < 2 ^ 16)
    (h : hwFill s.dev frame = some d') :
    RxInv ⟨d', s.written ++ [frame.take mbufSize], s.handed⟩ := by
  have hsame : ∀ i, i ≠ s.dev.regs.rdh → SameSlot s.dev d' i := fun i => hi.fill_sameSlot h
  have hplaces := hwFill_samePlaces h
  have hcomplete := hwFill_complete h
  have hroom := hi.room_of_ne (hwFill_eq_some h).1
  have hrdh := hi.rdh
  refine ⟨?_, fun i hlt => ?_, ?_, fun i hlt hnot => ?_, ?_, ?_, ?_⟩
  · rw [BufsPlaced, hplaces.1]
    exact hi.placed
  · rw [hplaces.1, hplaces.2]
    exact hi.addr i hlt
  · rw [← hi.fill_rxFrame hlen h, hrdh]
    refine hi.chan.push rxRingSize_pos ?_ ?_ fun i _ hne => (hsame i (hrdh ▸ hne)).chan
    · rw [← hrdh]
      exact hi.not_complete_rdh
    · rw [← hrdh]
      exact hcomplete
  · have hne : i ≠ s.dev.regs.rdh := fun heq => hnot (heq ▸ hcomplete)
    rw [(hsame i hne).1] at hnot ⊢
    exact hi.empty i hlt hnot
  · rw [List.length_append, List.length_singleton]
    exact hroom
  · obtain ⟨-, rfl⟩ := hwFill_eq_some h
    rw [List.length_append, List.length_singleton]
    dsimp only
    rw [hrdh, Nat.mod_add_mod]
  · obtain ⟨-, rfl⟩ := hwFill_eq_some h
    exact hi.rdt

/-! ### The driver's step -/

/-- The device after a frame has been handed over. -/
def consumed (d : E1000Device) (bytes : List UInt8) : E1000Device :=
  giveBack { d with rx := { d.rx with
    bufs := Memory.write d.rx.bufs (rindex d * mbufSize) bytes } } (rindex d)

theorem consumed_sameSlot {bytes : List UInt8} (hlen : bytes.length ≤ mbufSize) {i : ℕ}
    (hne : i ≠ rindex d) : SameSlot d (consumed d bytes) i :=
  ⟨Function.update_of_ne hne _ _, Memory.read_write_block _ hne (Nat.le_refl _) hlen⟩

theorem status_consumed (d : E1000Device) (bytes : List UInt8) :
    ((consumed d bytes).rx.ring (rindex d)).status = 0 := by
  simp [consumed, giveBack]

theorem RxInv.consume (hi : RxInv s) {bytes : List UInt8} (hlen : bytes.length ≤ mbufSize)
    (hne : s.handed ≠ s.written) :
    RxInv ⟨consumed s.dev bytes, s.written, s.handed ++ [rxFrame s.dev (rindex s.dev)]⟩ := by
  have hsame : ∀ i, i ≠ rindex s.dev → SameSlot s.dev (consumed s.dev bytes) i :=
    fun i => consumed_sameSlot hlen
  have hplaces : SamePlaces s.dev (consumed s.dev bytes) := giveBack_samePlaces _ _
  have hstatus := status_consumed s.dev bytes
  have hr := hi.rindex_eq
  have hroom := hi.room
  refine ⟨?_, fun i hlt => ?_, ?_, fun i hlt hnot => ?_, ?_, hi.rdh, ?_⟩
  · rw [BufsPlaced, hplaces.1]
    exact hi.placed
  · rw [hplaces.1, hplaces.2]
    exact hi.addr i hlt
  · rw [hr]
    refine hi.chan.pop rxRingSize_pos ((hi.chan.full_first_iff rxRingSize_pos).mpr hne) ?_
      fun i _ hi' => (hsame i (hr ▸ hi')).chan
    intro hc
    rw [← hr] at hc
    exact absurd (hstatus.symm.trans hc.1) (by decide)
  · by_cases heq : i = rindex s.dev
    · rw [heq]
      exact hstatus
    · rw [(hsame i heq).1] at hnot ⊢
      exact hi.empty i hlt hnot
  · rw [List.length_append, List.length_singleton]
    exact Nat.lt_of_lt_of_le hroom (by omega)
  · show rindex s.dev = _
    rw [hr, List.length_append, List.length_singleton]
    exact (Nat.add_mod_right s.handed.length rxRingSize).symm

/-- A call of `recv_with` hands over the oldest unread frame. -/
theorem RxInv.recvWith_next (hi : RxInv s) (hne : s.handed ≠ s.written) {τ : Type}
    (f : List UInt8 → τ × List UInt8) :
    ∃ bytes, bytes.length ≤ mbufSize ∧ recvWith s.dev f =
      (consumed s.dev bytes, some (f (rxFrame s.dev (rindex s.dev))).1) := by
  have hbytes := length_leftBytes_le (f (rxFrame s.dev (rindex s.dev))).2
    (Memory.length_read s.dev.rx.bufs (rxSlice s.dev (rindex s.dev)).1
      (rxSlice s.dev (rindex s.dev)).2)
  exact ⟨_, Nat.le_trans hbytes (Nat.min_le_right _ _),
    recvWith_complete f (hi.addr_ne_zero (rindex_lt _)) (hi.complete_rindex_iff.mpr hne) rfl⟩

theorem RxInv.step (hi : RxInv s) {a : RxAct} (h : rxStep s a = some u) : RxInv u := by
  cases a with
  | hasRxPacket =>
    obtain rfl := Option.some.inj h
    exact hi
  | recvWith f =>
    obtain rfl := Option.some.inj h
    by_cases heq : s.handed = s.written
    · rw [recvWith_empty _ (hi.status_of_eq heq)]
      dsimp only
      rw [Option.toList_none, List.append_nil]
      exact hi
    · obtain ⟨bytes, hlen, hrecv⟩ := hi.recvWith_next heq fun buf => (buf, f buf)
      rw [hrecv]
      exact hi.consume hlen heq
  | fill frame =>
    obtain ⟨hlen, d', hfill, rfl⟩ := rxStep_fill h
    exact hi.fill hlen hfill

theorem RxInv.ok (hi : RxInv s) : RxRingOk s := by
  refine ⟨hi.chan.order, fun f => ?_, ?_, ?_, ?_⟩
  · by_cases heq : s.handed = s.written
    · rw [recvWith_empty f (hi.status_of_eq heq)]
      exact ⟨fun _ => heq, fun _ => rfl⟩
    · obtain ⟨bytes, -, hrecv⟩ := hi.recvWith_next heq f
      rw [hrecv]
      exact ⟨fun h => absurd h (by simp), fun h => absurd h heq⟩
  · unfold hasRxPacket
    dsimp only
    by_cases heq : s.handed = s.written
    · rw [hi.status_of_eq heq]
      simp [heq]
    · have hdd : (rxdStatDd ||| rxdStatEop) &&& rxdStatDd ≠ 0 := by decide
      rw [(hi.complete_rindex_iff.mpr heq).1]
      simp [heq, hi.addr_ne_zero (rindex_lt s.dev), hdd]
  · intro frame u h i hun
    obtain ⟨-, d', hfill, rfl⟩ := rxStep_fill h
    have hc := (hi.chan.full_iff i (hun.lt rxRingSize_pos)).mpr hun
    exact hi.fill_sameSlot hfill fun heq => hi.not_complete_rdh (heq ▸ hc)
  · intro i hun
    refine ⟨Nat.min_le_right _ _, ?_⟩
    rw [hi.toNat_addr (hun.lt rxRingSize_pos)]
    rfl

end

/-- **In every run the closures get the written frames in order, each once, and the
hardware spares those not yet read**, if no receive buffer lies at address 0. -/
theorem rxRingOk_of_run {d : E1000Device} (hd : BufsPlaced d) {acts : List RxAct} {s : RxSys}
    (h : Exec rxStep (fun _ _ => True) (rxInit d) acts s) : RxRingOk s :=
  RxInv.ok (h.invariant (rxInit_inv hd) fun hi _ hstep => hi.step hstep)

def placedDevice : E1000Device :=
  { zeroDevice with rx := { zeroDevice.rx with bufsPaddr := 0x100000 } }

/-- Two frames arrive around a call that finds only the first. -/
theorem rxRingOk_two_frames : ∃ s, Exec rxStep (fun _ _ => True) (rxInit placedDevice)
    [.fill [1, 2, 3], .hasRxPacket, .recvWith id, .recvWith id, .fill [4]] s ∧
      s.handed = [[1, 2, 3]] ∧ RxRingOk s := by
  obtain ⟨s, hs, hh⟩ : ∃ s, Exec rxStep (fun _ _ => True) (rxInit placedDevice)
      [.fill [1, 2, 3], .hasRxPacket, .recvWith id, .recvWith id, .fill [4]] s ∧
        s.handed = [[1, 2, 3]] := Exec.exists_of_run (by decide +kernel)
  exact ⟨s, hs, hh, rxRingOk_of_run (by decide) hs⟩

/-- With the buffers at address 0, the frame in the first descriptor is never seen. -/
theorem frame_stuck_at_address_zero : ∃ s, Exec rxStep (fun _ _ => True) (rxInit zeroDevice)
    [.fill [1, 2, 3], .recvWith id] s ∧ ¬ RxRingOk s := by
  obtain ⟨s, hs, hnone, hne⟩ : ∃ s, Exec rxStep (fun _ _ => True) (rxInit zeroDevice)
      [.fill [1, 2, 3], .recvWith id] s ∧
        (recvWith s.dev fun buf => (buf, buf)).2 = none ∧ s.handed ≠ s.written :=
    Exec.exists_of_run (by decide +kernel)
  exact ⟨s, hs, fun hok => hne ((hok.none_iff _).mp hnone)⟩

end E1000
