/-
Frames through an e1000.

The two halves of the device with their frames: what the driver submits, what the
hardware sends and receives, and what the closures of `recv_with` get.  The hardware
reads a frame from the address and with the length in its descriptor, at any time after
the driver has moved `TDT`.  In loopback mode it receives what it sends.

* `WireInv` — the transmit ring is a channel from the submitted to the sent frames, and
  the receive ring one from the received to the handed frames;
* `sent_of_run` — the frames go out in order and unchanged, and all of them while one
  descriptor stays free;
* `loopback_of_run` — in loopback mode the driver gets back what it has submitted.
-/
import Embclox.E1000Rx

open Run Slots

namespace E1000

/-! ### The wire -/

/-- The frame that the hardware reads for descriptor `i`. -/
def txFrame (d : E1000Device) (i : ℕ) : List UInt8 :=
  Memory.read d.tx.bufs ((d.tx.ring i).addr.toNat - d.tx.bufsPaddr) (d.tx.ring i).length.toNat

/-- The bytes that `transmit_with` leaves in the buffer of descriptor `TDT`. -/
def filledFrame (d : E1000Device) (len : ℕ) (f : List UInt8 → List UInt8) : List UInt8 :=
  let buf := Memory.read d.tx.bufs (d.regs.tdt * mbufSize) (min len mbufSize)
  (f buf).take buf.length ++ buf.drop (f buf).length

/-- The device and the frames: those that the driver has submitted, those that the
hardware has sent and received, and those that closures got. -/
structure WireSys where
  dev : E1000Device
  submitted : List (List UInt8)
  sent : List (List UInt8)
  written : List (List UInt8)
  handed : List (List UInt8)

/-- A transmit call submits its frame if descriptor `TDT` is free. -/
def WireSys.submits (s : WireSys) (bytes : List UInt8) : List (List UInt8) :=
  if (s.dev.tx.ring s.dev.regs.tdt).dd then [bytes] else []

inductive WireAct
  | transmit (packet : List UInt8)
  | transmitWith (len : ℕ) (f : List UInt8 → List UInt8)
  | recvWith (f : List UInt8 → List UInt8)
  /-- The hardware sends a frame. -/
  | send
  /-- The hardware receives a frame. -/
  | fill (frame : List UInt8)
  /-- The hardware sends a frame in loopback mode; without a free descriptor it is
  lost. -/
  | loop

def sendStep (s : WireSys) : Option WireSys :=
  (hwSend s.dev).map fun d => { s with dev := d, sent := s.sent ++ [txFrame s.dev s.dev.regs.tdh] }

def fillStep (s : WireSys) (frame : List UInt8) : Option WireSys :=
  -- the length field has 16 bits
  if frame.length < 2 ^ 16 then
    (hwFill s.dev frame).map fun d =>
      { s with dev := d, written := s.written ++ [frame.take mbufSize] }
  else none

def wireStep (s : WireSys) : WireAct → Option WireSys
  | .transmit packet => (transmit s.dev packet).map fun d =>
      { s with
        dev := d
        submitted := s.submitted ++ s.submits (packet.take (min packet.length mbufSize)) }
  | .transmitWith len f => (transmitWith s.dev len fun buf => ((), f buf)).map fun r =>
      { s with dev := r.1, submitted := s.submitted ++ s.submits (filledFrame s.dev len f) }
  | .recvWith f =>
      let r := recvWith s.dev fun buf => (buf, f buf)
      some { s with dev := r.1, handed := s.handed ++ r.2.toList }
  | .send => sendStep s
  | .fill frame => fillStep s frame
  | .loop => (sendStep s).map fun t =>
      (fillStep t (txFrame s.dev s.dev.regs.tdh)).getD t

/-- The state `init_rings` leaves. -/
def wireInit (d : E1000Device) : WireSys := ⟨initRings d, [], [], [], []⟩

/-- The transmit buffers lie in the address space. -/
def TxBufsPlaced (d : E1000Device) : Prop := d.tx.bufsPaddr + txRingSize * mbufSize ≤ 2 ^ 64

instance (d : E1000Device) : Decidable (TxBufsPlaced d) := inferInstanceAs (Decidable (_ ≤ _))

/-- A transmit call leaves one descriptor free. -/
def LeavesSpare (s : WireSys) : WireAct → Prop
  | .transmit _ | .transmitWith _ _ =>
      (s.dev.tx.ring s.dev.regs.tdt).dd = true →
        (s.dev.regs.tdt + 1) % txRingSize ≠ s.dev.regs.tdh
  | _ => True

instance (s : WireSys) : (a : WireAct) → Decidable (LeavesSpare s a)
  | .transmit _ | .transmitWith _ _ => inferInstanceAs (Decidable (_ → _))
  | .recvWith _ | .send | .fill _ | .loop => .isTrue trivial

/-- The descriptors that the hardware owns hold the frames that it has not sent, the oldest
first. -/
structure Outstanding (s : WireSys) : Prop where
  fits : s.submitted.length ≤ s.sent.length + txRingSize
  frame : ∀ k bytes, s.sent.length ≤ k → s.submitted[k]? = some bytes →
    (s.dev.tx.ring (k % txRingSize)).dd = false ∧ txFrame s.dev (k % txRingSize) = bytes
  others : ∀ i < txRingSize, (s.dev.tx.ring i).dd = false →
    ∃ k < s.submitted.length, s.sent.length ≤ k ∧ k % txRingSize = i

/-! ### The invariant -/

structure WireInv (s : WireSys) : Prop where
  placed : TxBufsPlaced s.dev
  addr : ∀ i < txRingSize,
    (s.dev.tx.ring i).addr = UInt64.ofNat (s.dev.tx.bufsPaddr + i * mbufSize)
  chan : Chan txRingSize (fun i => (s.dev.tx.ring i).dd = false) (txFrame s.dev)
    s.submitted s.sent
  tdh : s.dev.regs.tdh = s.sent.length % txRingSize
  tdt : s.dev.regs.tdt = s.submitted.length % txRingSize
  short : ∀ bytes ∈ s.submitted, bytes.length ≤ mbufSize
  rx : RxInv ⟨s.dev, s.written, s.handed⟩

theorem txRingSize_pos : 0 < txRingSize := by decide

theorem wireInit_inv {d : E1000Device} (htx : TxBufsPlaced d) (hrx : BufsPlaced d) :
    WireInv (wireInit d) := by
  refine ⟨htx, fun i hi => ?_, Chan.of_empty fun i hi => ?_, rfl, rfl, ?_, rxInit_inv hrx⟩
  · simp [wireInit, initRings, hi]
  · simp [wireInit, initRings, hi, TxDesc.dd, txdStatDd]
  · simp [wireInit]

/-- The receive half does not notice what the transmit half does. -/
theorem RxInv.of_eq {d d' : E1000Device} {written handed : List (List UInt8)}
    (h : RxInv ⟨d, written, handed⟩) (hrx : d'.rx = d.rx) (hrdh : d'.regs.rdh = d.regs.rdh)
    (hrdt : d'.regs.rdt = d.regs.rdt) : RxInv ⟨d', written, handed⟩ := by
  have hframe : rxFrame d' = rxFrame d := by
    funext i
    rw [rxFrame, rxFrame, rxSlice, rxSlice, hrx]
  refine ⟨?_, ?_, ?_, ?_, h.room, hrdh.trans h.rdh, hrdt.trans h.rdt⟩
  · rw [BufsPlaced, hrx]
    exact h.placed
  · rw [hrx]
    exact h.addr
  · rw [hframe, hrx]
    exact h.chan
  · rw [hrx]
    exact h.empty

section

variable {s u : WireSys}

/-- The transmit half does not notice what the receive half does. -/
theorem WireInv.of_rx {d : E1000Device} {written handed : List (List UInt8)} (hi : WireInv s)
    (htx : d.tx = s.dev.tx) (htdh : d.regs.tdh = s.dev.regs.tdh)
    (htdt : d.regs.tdt = s.dev.regs.tdt) (hrx : RxInv ⟨d, written, handed⟩) :
    WireInv { s with dev := d, written := written, handed := handed } := by
  have hframe : txFrame d = txFrame s.dev := by
    funext i
    rw [txFrame, txFrame, htx]
  refine ⟨?_, ?_, ?_, htdh.trans hi.tdh, htdt.trans hi.tdt, hi.short, hrx⟩
  · rw [TxBufsPlaced, htx]
    exact hi.placed
  · rw [htx]
    exact hi.addr
  · rw [hframe, htx]
    exact hi.chan

theorem WireInv.tdt_lt (hi : WireInv s) : s.dev.regs.tdt < txRingSize := by
  rw [hi.tdt]
  exact Nat.mod_lt _ txRingSize_pos

theorem WireInv.tdh_lt (hi : WireInv s) : s.dev.regs.tdh < txRingSize := by
  rw [hi.tdh]
  exact Nat.mod_lt _ txRingSize_pos

theorem WireInv.toNat_addr (hi : WireInv s) {i : ℕ} (hlt : i < txRingSize) :
    (s.dev.tx.ring i).addr.toNat = s.dev.tx.bufsPaddr + i * mbufSize := by
  have hfits := hi.placed
  have hmul : (i + 1) * mbufSize ≤ txRingSize * mbufSize := Nat.mul_le_mul_right _ hlt
  rw [Nat.succ_mul] at hmul
  unfold TxBufsPlaced at hfits
  rw [hi.addr i hlt, UInt64.toNat_ofNat', Nat.mod_eq_of_lt]
  unfold mbufSize at *
  omega

theorem WireInv.outstanding (hi : WireInv s) : Outstanding s where
  fits := hi.chan.room
  frame := by
    intro k bytes hle hk
    have hlt := (List.getElem?_eq_some_iff.mp hk).1
    refine ⟨(hi.chan.full_iff _ (Nat.mod_lt k txRingSize_pos)).mpr ⟨k, hlt, hle, rfl⟩, ?_⟩
    exact hi.chan.stored k bytes hle hk
  others := fun i hlt hfull => (hi.chan.full_iff i hlt).mp hfull

/-- Between different registers there is a frame to be sent. -/
theorem WireInv.unsent (hi : WireInv s) (hne : s.dev.regs.tdh ≠ s.dev.regs.tdt) :
    s.sent ≠ s.submitted := by
  intro heq
  rw [hi.tdh, hi.tdt, heq] at hne
  exact hne rfl

/-- With a descriptor to spare, equal registers mean that all frames have been sent. -/
theorem WireInv.all_sent (hi : WireInv s)
    (hspare : s.submitted.length < s.sent.length + txRingSize)
    (heq : s.dev.regs.tdh = s.dev.regs.tdt) : s.sent = s.submitted := by
  refine hi.chan.order.eq_of_length ?_
  rw [hi.tdh, hi.tdt] at heq
  exact mod_inj (Nat.le_refl _) (Nat.lt_add_of_pos_right txRingSize_pos)
    hi.chan.order.length_le hspare heq

/-- The length in the descriptor of a frame that is still to be sent. -/
theorem WireInv.length_le (hi : WireInv s) {i : ℕ} (hlt : i < txRingSize)
    (hfull : (s.dev.tx.ring i).dd = false) : (s.dev.tx.ring i).length.toNat ≤ mbufSize := by
  obtain ⟨k, hk, hle, rfl⟩ := (hi.chan.full_iff i hlt).mp hfull
  have hframe := hi.chan.stored k _ hle (List.getElem?_eq_getElem hk)
  have hshort := hi.short _ (List.getElem_mem hk)
  rwa [← hframe, txFrame, Memory.length_read] at hshort

/-! ### Submitting and sending -/

theorem submit_addr (d : E1000Device) (j : ℕ) (bytes : List UInt8) (i : ℕ) :
    ((submit d j bytes).tx.ring i).addr = (d.tx.ring i).addr := by
  by_cases heq : i = j
  · rw [heq]
    simp [submit]
  · rw [submit_ring_of_ne _ _ heq]

/-- The hardware reads the submitted frame from the buffer of its descriptor. -/
theorem WireInv.txFrame_submit (hi : WireInv s) {bytes : List UInt8}
    (hlen : bytes.length ≤ mbufSize) :
    txFrame (submit s.dev s.dev.regs.tdt bytes) s.dev.regs.tdt = bytes := by
  have hfield : (UInt16.ofNat bytes.length).toNat = bytes.length := by
    unfold mbufSize at hlen
    rw [UInt16.toNat_ofNat', Nat.mod_eq_of_lt (by omega)]
  have hlength : ((submit s.dev s.dev.regs.tdt bytes).tx.ring s.dev.regs.tdt).length.toNat =
      bytes.length := by
    simp [submit, hfield]
  rw [txFrame, submit_addr, hi.toNat_addr hi.tdt_lt, hlength]
  show Memory.read (Memory.write s.dev.tx.bufs _ bytes)
    (s.dev.tx.bufsPaddr + _ - s.dev.tx.bufsPaddr)
    bytes.length = bytes
  rw [Nat.add_sub_cancel_left]
  exact Memory.read_write _ _ _

/-- The frames in the other descriptors stay. -/
theorem WireInv.txFrame_submit_of_ne (hi : WireInv s) {bytes : List UInt8}
    (hlen : bytes.length ≤ mbufSize) {i : ℕ} (hlt : i < txRingSize) (hne : i ≠ s.dev.regs.tdt)
    (hfull : (s.dev.tx.ring i).dd = false) :
    txFrame (submit s.dev s.dev.regs.tdt bytes) i = txFrame s.dev i := by
  have hle := hi.length_le hlt hfull
  rw [txFrame, txFrame, submit_addr, submit_ring_of_ne _ _ hne, hi.toNat_addr hlt]
  show Memory.read (Memory.write s.dev.tx.bufs _ bytes)
    (s.dev.tx.bufsPaddr + _ - s.dev.tx.bufsPaddr)
    _ = Memory.read _ (s.dev.tx.bufsPaddr + _ - s.dev.tx.bufsPaddr) _
  rw [Nat.add_sub_cancel_left]
  exact Memory.read_write_block _ hne hle hlen

theorem WireInv.accept (hi : WireInv s) {bytes : List UInt8} (hlen : bytes.length ≤ mbufSize)
    (hfree : (s.dev.tx.ring s.dev.regs.tdt).dd = true) :
    WireInv { s with
      dev := submit s.dev s.dev.regs.tdt bytes, submitted := s.submitted ++ [bytes] } := by
  have htdt := hi.tdt
  refine ⟨hi.placed, fun i hlt => ?_, ?_, hi.tdh, ?_, ?_, hi.rx.of_eq rfl rfl rfl⟩
  · rw [submit_addr]
    exact hi.addr i hlt
  · -- the free descriptor gets the frame
    have hnew := hi.txFrame_submit hlen
    have hdd := submit_dd s.dev s.dev.regs.tdt bytes
    have hsame : ∀ i < txRingSize, i ≠ s.dev.regs.tdt →
        (((submit s.dev s.dev.regs.tdt bytes).tx.ring i).dd = false ↔
            (s.dev.tx.ring i).dd = false) ∧
          ((s.dev.tx.ring i).dd = false →
            txFrame (submit s.dev s.dev.regs.tdt bytes) i = txFrame s.dev i) :=
      fun i hlt hne => ⟨by rw [submit_ring_of_ne _ _ hne],
        hi.txFrame_submit_of_ne hlen hlt hne⟩
    generalize submit s.dev s.dev.regs.tdt bytes = d at hnew hdd hsame
    rw [htdt] at hnew hdd hsame hfree
    rw [← hnew]
    exact hi.chan.push txRingSize_pos (by rw [hfree]; decide) hdd hsame
  · rw [submit_tdt, List.length_append, List.length_singleton, htdt, Nat.mod_add_mod]
  · intro x hx
    rcases List.mem_append.mp hx with hx | hx
    · exact hi.short x hx
    · obtain rfl := List.mem_singleton.mp hx
      exact hlen

/-- What both transmit calls do. -/
theorem WireInv.submits (hi : WireInv s) {bytes : List UInt8} (hlen : bytes.length ≤ mbufSize)
    {d : E1000Device}
    (hd : d = if (s.dev.tx.ring s.dev.regs.tdt).dd then submit s.dev s.dev.regs.tdt bytes
      else s.dev) :
    WireInv { s with dev := d, submitted := s.submitted ++ s.submits bytes } := by
  unfold WireSys.submits
  by_cases hfree : (s.dev.tx.ring s.dev.regs.tdt).dd = true
  · rw [if_pos hfree] at hd ⊢
    rw [hd]
    exact hi.accept hlen hfree
  · rw [if_neg hfree] at hd ⊢
    rw [hd, List.append_nil]
    exact hi

/-- The device after the hardware has sent descriptor `TDH`. -/
def finished (d : E1000Device) : E1000Device :=
  { d with
    regs := { d.regs with tdh := (d.regs.tdh + 1) % txRingSize }
    tx := { d.tx with
      ring := Function.update d.tx.ring d.regs.tdh
        { d.tx.ring d.regs.tdh with status := (d.tx.ring d.regs.tdh).status ||| txdStatDd } } }

section

variable {d d' : E1000Device}

theorem hwSend_eq_some (h : hwSend d = some d') : d.regs.tdh ≠ d.regs.tdt ∧ d' = finished d := by
  unfold hwSend at h
  by_cases hne : d.regs.tdh = d.regs.tdt
  · rw [if_pos hne] at h
    exact absurd h (by simp)
  · rw [if_neg hne] at h
    exact ⟨hne, (Option.some.inj h).symm⟩

theorem finished_dd (d : E1000Device) : ((finished d).tx.ring d.regs.tdh).dd = true := by
  rw [finished]
  dsimp only
  rw [Function.update_self]
  exact dd_sent _

theorem finished_ring_of_ne {i : ℕ} (hne : i ≠ d.regs.tdh) :
    (finished d).tx.ring i = d.tx.ring i :=
  Function.update_of_ne hne _ _

theorem finished_addr (i : ℕ) : ((finished d).tx.ring i).addr = (d.tx.ring i).addr := by
  by_cases heq : i = d.regs.tdh
  · rw [heq]
    simp [finished]
  · rw [finished_ring_of_ne heq]

theorem txFrame_finished {i : ℕ} (hne : i ≠ d.regs.tdh) : txFrame (finished d) i = txFrame d i := by
  rw [txFrame, txFrame, finished_ring_of_ne hne]
  rfl

end

/-- **The hardware sends the oldest frame.** -/
theorem WireInv.sendStep (hi : WireInv s) (h : sendStep s = some u) : WireInv u := by
  obtain ⟨d, hd, rfl⟩ := Option.map_eq_some_iff.mp h
  obtain ⟨hne, rfl⟩ := hwSend_eq_some hd
  have htdh := hi.tdh
  have hunsent := hi.unsent hne
  refine ⟨hi.placed, fun i hlt => ?_, ?_, ?_, hi.tdt, hi.short, hi.rx.of_eq rfl rfl rfl⟩
  · rw [finished_addr]
    exact hi.addr i hlt
  · have hdone := finished_dd s.dev
    have hsame : ∀ i, i ≠ s.dev.regs.tdh →
        (((finished s.dev).tx.ring i).dd = false ↔ (s.dev.tx.ring i).dd = false) ∧
          ((s.dev.tx.ring i).dd = false → txFrame (finished s.dev) i = txFrame s.dev i) :=
      fun i hne => ⟨by rw [finished_ring_of_ne hne], fun _ => txFrame_finished hne⟩
    rw [htdh] at hdone hsame ⊢
    refine hi.chan.pop txRingSize_pos ((hi.chan.full_first_iff txRingSize_pos).mpr hunsent) ?_
      fun i _ => hsame i
    rw [hdone]
    decide
  · show (s.dev.regs.tdh + 1) % txRingSize = _
    rw [htdh, List.length_append, List.length_singleton, Nat.mod_add_mod]

theorem WireInv.fillStep (hi : WireInv s) {frame : List UInt8} (h : fillStep s frame = some u) :
    WireInv u := by
  unfold E1000.fillStep at h
  by_cases hlen : frame.length < 2 ^ 16
  · rw [if_pos hlen] at h
    obtain ⟨d, hd, rfl⟩ := Option.map_eq_some_iff.mp h
    have hrx := hi.rx.fill hlen hd
    obtain ⟨-, rfl⟩ := hwFill_eq_some hd
    exact hi.of_rx rfl rfl rfl hrx
  · rw [if_neg hlen] at h
    exact absurd h (by simp)

/-! ### Runs -/

theorem transmit_eq {d : E1000Device} (ht : d.regs.tdt < txRingSize) (packet : List UInt8) :
    transmit d packet = some (if (d.tx.ring d.regs.tdt).dd then
      submit d d.regs.tdt (packet.take (min packet.length mbufSize)) else d) := by
  unfold transmit
  dsimp only
  rw [if_pos ht]
  split <;> rfl

theorem transmitWith_eq {d : E1000Device} (ht : d.regs.tdt < txRingSize) (len : ℕ)
    (f : List UInt8 → List UInt8) :
    ∃ r, transmitWith d len (fun buf => ((), f buf)) = some r ∧
      r.1 = if (d.tx.ring d.regs.tdt).dd then submit d d.regs.tdt (filledFrame d len f) else d := by
  unfold transmitWith
  dsimp only
  rw [if_pos ht]
  split
  · exact ⟨_, rfl, rfl⟩
  · exact ⟨_, rfl, rfl⟩

theorem length_filledFrame (d : E1000Device) (len : ℕ) (f : List UInt8 → List UInt8) :
    (filledFrame d len f).length ≤ mbufSize := by
  simp only [filledFrame, List.length_append, List.length_take, List.length_drop,
    Memory.length_read]
  omega

theorem recvWith_halves {τ : Type} (d : E1000Device) (f : List UInt8 → τ × List UInt8) :
    (recvWith d f).1.tx = d.tx ∧ (recvWith d f).1.regs.tdh = d.regs.tdh ∧
      (recvWith d f).1.regs.tdt = d.regs.tdt := by
  unfold recvWith
  dsimp only
  split_ifs <;> exact ⟨rfl, rfl, rfl⟩

theorem WireInv.recvWith (hi : WireInv s) (f : List UInt8 → List UInt8) :
    WireInv { s with
      dev := (recvWith s.dev fun buf => (buf, f buf)).1
      handed := s.handed ++ (E1000.recvWith s.dev fun buf => (buf, f buf)).2.toList } := by
  obtain ⟨htx, htdh, htdt⟩ := recvWith_halves s.dev fun buf => (buf, f buf)
  exact hi.of_rx htx htdh htdt (hi.rx.step (a := .recvWith f) rfl)

theorem WireInv.step (hi : WireInv s) {a : WireAct} (h : wireStep s a = some u) :
    WireInv u := by
  cases a with
  | transmit packet =>
    rw [wireStep, transmit_eq hi.tdt_lt] at h
    obtain rfl := Option.some.inj h
    refine hi.submits ?_ rfl
    exact Nat.le_trans (List.length_take_le _ _) (Nat.min_le_right _ _)
  | transmitWith len f =>
    obtain ⟨r, hr, hd⟩ := transmitWith_eq hi.tdt_lt len f
    rw [wireStep, hr] at h
    obtain rfl := Option.some.inj h
    exact hi.submits (length_filledFrame _ _ _) hd
  | recvWith f =>
    obtain rfl := Option.some.inj h
    exact hi.recvWith f
  | send => exact hi.sendStep h
  | fill frame => exact hi.fillStep h
  | loop =>
    obtain ⟨t, ht, rfl⟩ := Option.map_eq_some_iff.mp h
    have hit := hi.sendStep ht
    rcases hfill : E1000.fillStep t (txFrame s.dev s.dev.regs.tdh) with _ | v
    · exact hit
    · exact hit.fillStep hfill

theorem wireInv_of_run {G : WireSys → WireAct → Prop} {d : E1000Device} (htx : TxBufsPlaced d)
    (hrx : BufsPlaced d) {l : List WireAct} (h : Exec wireStep G (wireInit d) l s) : WireInv s :=
  h.invariant (wireInit_inv htx hrx) fun hi _ hs => hi.step hs

/-! ### A descriptor to spare -/

/-- A transmit call that submits a frame leaves a descriptor to spare. -/
theorem WireInv.spare_submits (hi : WireInv s) {bytes : List UInt8}
    (hroom : s.submitted.length < s.sent.length + txRingSize)
    (hspare : (s.dev.tx.ring s.dev.regs.tdt).dd = true →
      (s.dev.regs.tdt + 1) % txRingSize ≠ s.dev.regs.tdh) :
    (s.submitted ++ s.submits bytes).length < s.sent.length + txRingSize := by
  unfold WireSys.submits
  split
  · rename_i hfree
    rw [List.length_append, List.length_singleton]
    -- otherwise `TDT` would meet `TDH`
    refine Nat.lt_of_le_of_ne hroom fun hlast => hspare hfree ?_
    rw [hi.tdt, hi.tdh, Nat.mod_add_mod, hlast, Nat.add_mod_right]
  · rwa [List.append_nil]

theorem spare_sendStep (hroom : s.submitted.length < s.sent.length + txRingSize)
    (h : sendStep s = some u) : u.submitted.length < u.sent.length + txRingSize := by
  obtain ⟨d, -, rfl⟩ := Option.map_eq_some_iff.mp h
  show s.submitted.length < (s.sent ++ [_]).length + txRingSize
  rw [List.length_append, List.length_singleton]
  omega

theorem fillStep_frames {frame : List UInt8} (h : fillStep s frame = some u) :
    u.submitted = s.submitted ∧ u.sent = s.sent := by
  unfold fillStep at h
  split at h
  · obtain ⟨d, -, rfl⟩ := Option.map_eq_some_iff.mp h
    exact ⟨rfl, rfl⟩
  · simp at h

theorem spare_fillStep {frame : List UInt8}
    (hroom : s.submitted.length < s.sent.length + txRingSize) (h : fillStep s frame = some u) :
    u.submitted.length < u.sent.length + txRingSize := by
  obtain ⟨hsubmitted, hsent⟩ := fillStep_frames h
  rwa [hsubmitted, hsent]

theorem spare_step {a : WireAct} (hi : WireInv s)
    (hroom : s.submitted.length < s.sent.length + txRingSize) (hg : LeavesSpare s a)
    (h : wireStep s a = some u) : u.submitted.length < u.sent.length + txRingSize := by
  cases a with
  | transmit packet =>
    obtain ⟨d, -, rfl⟩ := Option.map_eq_some_iff.mp h
    exact hi.spare_submits hroom hg
  | transmitWith len f =>
    obtain ⟨r, -, rfl⟩ := Option.map_eq_some_iff.mp h
    exact hi.spare_submits hroom hg
  | recvWith f =>
    obtain rfl := Option.some.inj h
    exact hroom
  | send => exact spare_sendStep hroom h
  | fill frame => exact spare_fillStep hroom h
  | loop =>
    obtain ⟨t, ht, rfl⟩ := Option.map_eq_some_iff.mp h
    have hnext := spare_sendStep hroom ht
    -- a frame without a receive descriptor is dropped
    rcases hfill : fillStep t (txFrame s.dev s.dev.regs.tdh) with _ | v
    · exact hnext
    · exact spare_fillStep hnext hfill

/-- If every transmit call leaves a descriptor free, an empty ring has sent all frames. -/
theorem all_sent_of_run {d : E1000Device} (htx : TxBufsPlaced d) (hrx : BufsPlaced d)
    {l : List WireAct} (h : Exec wireStep LeavesSpare (wireInit d) l s)
    (heq : s.dev.regs.tdh = s.dev.regs.tdt) : s.sent = s.submitted := by
  have hi := h.invariant
    (I := fun s => WireInv s ∧ s.submitted.length < s.sent.length + txRingSize)
    ⟨wireInit_inv htx hrx, txRingSize_pos⟩
    fun hi hg hs => ⟨hi.1.step hs, spare_step hi.1 hi.2 hg hs⟩
  exact hi.1.all_sent hi.2 heq

end

/-- **Frames go out in order and unchanged**, and come in in order.  All of them have gone
out once the hardware sees an empty ring, if every transmit call leaves a descriptor
free. -/
theorem sent_of_run {d : E1000Device} (htx : TxBufsPlaced d) (hrx : BufsPlaced d)
    {l : List WireAct} {s : WireSys} (h : Exec wireStep (fun _ _ => True) (wireInit d) l s) :
    s.sent <+: s.submitted ∧ Outstanding s ∧ s.handed <+: s.written ∧
      (Exec wireStep LeavesSpare (wireInit d) l s → s.dev.regs.tdh = s.dev.regs.tdt →
        s.sent = s.submitted) := by
  have hi := wireInv_of_run htx hrx h
  exact ⟨hi.chan.order, hi.outstanding, hi.rx.chan.order, all_sent_of_run htx hrx⟩

/-- A frame of the driver goes out while another comes in. -/
theorem sent_while_receiving : ∃ s, Exec wireStep (fun _ _ => True) (wireInit placedDevice)
    [.transmitWith 3 fun _ => [1, 2, 3], .fill [9], .transmit [4, 5], .recvWith id, .send] s ∧
      s.sent = [[1, 2, 3]] ∧ s.submitted = [[1, 2, 3], [4, 5]] ∧ s.sent <+: s.submitted ∧
      Outstanding s := by
  obtain ⟨s, hs, heq⟩ : ∃ s, Exec wireStep (fun _ _ => True) (wireInit placedDevice)
      [.transmitWith 3 fun _ => [1, 2, 3], .fill [9], .transmit [4, 5], .recvWith id, .send] s ∧
        (s.sent, s.submitted) = ([[1, 2, 3]], [[1, 2, 3], [4, 5]]) :=
    Exec.exists_of_map (by decide +kernel)
  obtain ⟨hsent, hsubmitted⟩ := Prod.mk.inj heq
  obtain ⟨horder, houtstanding, -⟩ := sent_of_run (by decide) (by decide) hs
  exact ⟨s, hs, hsent, hsubmitted, horder, houtstanding⟩

/-! ### Loopback -/

/-- The device is in loopback mode, and has a receive descriptor for every frame. -/
def Looped (s : WireSys) : WireAct → Prop
  | .send | .fill _ => False
  | .loop => s.dev.regs.rdh ≠ s.dev.regs.rdt
  | .transmit _ | .transmitWith _ _ | .recvWith _ => True

instance (s : WireSys) : (a : WireAct) → Decidable (Looped s a)
  | .send | .fill _ => .isFalse id
  | .loop => inferInstanceAs (Decidable (_ ≠ _))
  | .transmit _ | .transmitWith _ _ | .recvWith _ => .isTrue trivial

section

variable {s u : WireSys}

/-- The next frame to be sent fits in a receive buffer. -/
theorem WireInv.length_next (hi : WireInv s) (hne : s.dev.regs.tdh ≠ s.dev.regs.tdt) :
    (txFrame s.dev s.dev.regs.tdh).length ≤ mbufSize := by
  have hunsent := hi.unsent hne
  rw [txFrame, Memory.length_read]
  refine hi.length_le hi.tdh_lt ?_
  rw [hi.tdh]
  exact (hi.chan.full_first_iff txRingSize_pos).mpr hunsent

/-- What is sent is received. -/
theorem WireInv.loop (hi : WireInv s) (hrx : s.dev.regs.rdh ≠ s.dev.regs.rdt)
    (h : wireStep s .loop = some u) :
    ∃ frame, u.sent = s.sent ++ [frame] ∧ u.written = s.written ++ [frame] := by
  obtain ⟨t, ht, rfl⟩ := Option.map_eq_some_iff.mp h
  obtain ⟨d, hd, rfl⟩ := Option.map_eq_some_iff.mp ht
  obtain ⟨hne, rfl⟩ := hwSend_eq_some hd
  have hlen := hi.length_next hne
  have hfill : ∃ d', hwFill (finished s.dev) (txFrame s.dev s.dev.regs.tdh) = some d' :=
    ⟨_, if_neg hrx⟩
  obtain ⟨d', hd'⟩ := hfill
  refine ⟨txFrame s.dev s.dev.regs.tdh, ?_⟩
  unfold E1000.fillStep
  rw [if_pos (by unfold mbufSize at hlen; omega), hd', List.take_of_length_le hlen]
  exact ⟨rfl, rfl⟩

theorem looped_step {a : WireAct} (hi : WireInv s ∧ s.written = s.sent) (hg : Looped s a)
    (h : wireStep s a = some u) : WireInv u ∧ u.written = u.sent := by
  refine ⟨hi.1.step h, ?_⟩
  cases a with
  | transmit packet =>
    obtain ⟨d, -, rfl⟩ := Option.map_eq_some_iff.mp h
    exact hi.2
  | transmitWith len f =>
    obtain ⟨r, -, rfl⟩ := Option.map_eq_some_iff.mp h
    exact hi.2
  | recvWith f =>
    obtain rfl := Option.some.inj h
    exact hi.2
  | send => exact absurd hg id
  | fill frame => exact absurd hg id
  | loop =>
    obtain ⟨frame, hsent, hwritten⟩ := hi.1.loop hg h
    rw [hsent, hwritten, hi.2]

end

end E1000
