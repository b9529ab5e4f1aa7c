/-
The NIC wrapper around an e1000 device.

`rx_ready` looks at the address and the `DD` bit of the next descriptor.  The device's
`recv_with` also wants the `EOP` bit and a clear errors byte, returns `None` without
them, and the wrapper turns `None` into a panic.

* `receives_iff` — which descriptors `recv_with` takes a frame from;
* `receives_when_ready_iff` — after `rx_ready` returned `true`, a receive works exactly
  if the descriptor holds the end of a frame and no error;
* `receives_when_ready_of_run` — so it does along every run with a hardware that writes
  whole frames;
* `transmits_iff_txReady` — on the transmit side both sides ask the same question;
* `recv_panics` — a frame in two descriptors, and a frame with an error.
-/
import Embclox.E1000Rx

open Run

namespace E1000

/-- `NicE1000`; the MAC address and the mapping of the registers are left out. -/
structure NicE1000 where
  device : E1000Device

namespace NicE1000

def rxReady (nic : NicE1000) : Bool := hasRxPacket nic.device

/-- `tx_ready`; `none` is the panic of an index out of range. -/
def txReady (nic : NicE1000) : Option Bool := hasTxSpace nic.device

section

variable {γ : Type}

/-- `recv_with`: the closure is called on the caller's state `g`, which it may change.
`none` is the panic of `expect`. -/
def recvWith (nic : NicE1000) (f : γ → List UInt8 → γ × List UInt8) (g : γ) :
    Option (γ × NicE1000) :=
  let r := E1000.recvWith nic.device (f g)
  r.2.map fun g' => (g', ⟨r.1⟩)

/-- `transmit_with`; `none` is a panic, here or in the device. -/
def transmitWith (nic : NicE1000) (len : ℕ) (f : γ → List UInt8 → γ × List UInt8) (g : γ) :
    Option (γ × NicE1000) :=
  (E1000.transmitWith nic.device len (f g)).bind fun r => r.2.map fun g' => (g', ⟨r.1⟩)

end

/-- `recv_with` calls its closure once and does not panic, whatever the closure and the
caller's state are. -/
def Receives (nic : NicE1000) : Prop :=
  ∀ (γ : Type) (f : γ → List UInt8 → γ × List UInt8) (g : γ), ∃ buf nic',
    nic.recvWith f g = some ((f g buf).1, nic')

/-- The same for `transmit_with`, on a buffer of `len` bytes. -/
def Transmits (nic : NicE1000) (len : ℕ) : Prop :=
  ∀ (γ : Type) (f : γ → List UInt8 → γ × List UInt8) (g : γ), ∃ buf nic',
    buf.length = min len mbufSize ∧ nic.transmitWith len f g = some ((f g buf).1, nic')

/-- The descriptor that `rx_ready` and `recv_with` look at. -/
def nextDesc (nic : NicE1000) : RxDesc := nic.device.rx.ring (rindex nic.device)

end NicE1000

/-! ### Which descriptors are received -/

/-- The hardware is done with the descriptor, which has a buffer. -/
def RxDesc.done (desc : RxDesc) : Prop := desc.addr ≠ 0 ∧ desc.status &&& rxdStatDd ≠ 0

/-- The last descriptor of a frame that arrived without errors. -/
def RxDesc.endsFrame (desc : RxDesc) : Prop :=
  desc.status &&& rxdStatEop ≠ 0 ∧ desc.errors = 0

/-- The mask of two bits is the two bits. -/
theorem and_ddEop_iff (status : UInt8) :
    status &&& (rxdStatDd ||| rxdStatEop) = rxdStatDd ||| rxdStatEop ↔
      status &&& rxdStatDd ≠ 0 ∧ status &&& rxdStatEop ≠ 0 := by
  have hall : ∀ n : Fin 256, UInt8.ofFin n &&& (rxdStatDd ||| rxdStatEop) =
      rxdStatDd ||| rxdStatEop ↔
        UInt8.ofFin n &&& rxdStatDd ≠ 0 ∧ UInt8.ofFin n &&& rxdStatEop ≠ 0 := by
    decide +kernel
  exact hall status.toFin

theorem hasRxPacket_iff (d : E1000Device) :
    hasRxPacket d = true ↔ (d.rx.ring (rindex d)).done := by
  simp [hasRxPacket, RxDesc.done]

section

variable {τ : Type} (d : E1000Device) (f : List UInt8 → τ × List UInt8)

/-- A frame is delivered from a finished descriptor that ends it. -/
theorem recvWith_delivers (hdone : (d.rx.ring (rindex d)).done)
    (hend : (d.rx.ring (rindex d)).endsFrame) :
    (recvWith d f).2 = some (f (rxFrame d (rindex d))).1 := by
  unfold recvWith
  dsimp only
  rw [if_neg hdone.1, if_neg (not_not.mpr ((and_ddEop_iff _).mpr ⟨hdone.2, hend.1⟩)),
    if_neg (not_not.mpr hend.2)]
  rfl

/-- From every other descriptor, nothing. -/
theorem recvWith_declines
    (h : ¬ ((d.rx.ring (rindex d)).done ∧ (d.rx.ring (rindex d)).endsFrame)) :
    (recvWith d f).2 = none := by
  unfold recvWith
  dsimp only
  by_cases haddr : (d.rx.ring (rindex d)).addr = 0
  · rw [if_pos haddr]
  · rw [if_neg haddr]
    by_cases hstatus : (d.rx.ring (rindex d)).status &&& (rxdStatDd ||| rxdStatEop) =
        rxdStatDd ||| rxdStatEop
    · obtain ⟨hdd, heop⟩ := (and_ddEop_iff _).mp hstatus
      have herr : (d.rx.ring (rindex d)).errors ≠ 0 := fun h0 => h ⟨⟨haddr, hdd⟩, heop, h0⟩
      rw [if_neg (not_not.mpr hstatus), if_pos herr]
    · rw [if_pos hstatus]

end

namespace NicE1000

variable {nic : NicE1000}

theorem recvWith_panics (h : ¬ (nic.nextDesc.done ∧ nic.nextDesc.endsFrame)) {γ : Type}
    (f : γ → List UInt8 → γ × List UInt8) (g : γ) : nic.recvWith f g = none := by
  unfold recvWith
  dsimp only
  rw [recvWith_declines nic.device (f g) h]
  rfl

/-- **What `recv_with` needs**: a finished descriptor that ends a frame without errors. -/
theorem receives_iff (nic : NicE1000) :
    nic.Receives ↔ nic.nextDesc.done ∧ nic.nextDesc.endsFrame := by
  constructor
  · intro hrecv
    by_contra hno
    obtain ⟨buf, nic', hsome⟩ := hrecv Unit (fun _ buf => ((), buf)) ()
    rw [recvWith_panics hno] at hsome
    exact absurd hsome (by simp)
  · rintro ⟨hdone, hend⟩ γ f g
    refine ⟨rxFrame nic.device (rindex nic.device), ⟨(E1000.recvWith nic.device (f g)).1⟩, ?_⟩
    unfold recvWith
    dsimp only
    rw [recvWith_delivers nic.device (f g) hdone hend]
    rfl

/-- **After `rx_ready` returned `true`**, the receive works exactly if the descriptor
ends a frame without errors. -/
theorem receives_when_ready_iff (nic : NicE1000) :
    (nic.rxReady = true → nic.Receives) ↔ (nic.nextDesc.done → nic.nextDesc.endsFrame) := by
  have hready : nic.rxReady = true ↔ nic.nextDesc.done := hasRxPacket_iff nic.device
  rw [receives_iff, hready]
  constructor
  · intro h hdone
    exact (h hdone).2
  · intro h hdone
    exact ⟨hdone, h hdone⟩

/-- The hardware of `rxStep` writes whole frames: in its runs the two sides agree. -/
theorem receives_when_ready_of_run {d : E1000Device} (hd : BufsPlaced d) {acts : List RxAct}
    {s : RxSys} (h : Exec rxStep (fun _ _ => True) (rxInit d) acts s)
    (hready : rxReady ⟨s.dev⟩ = true) : Receives ⟨s.dev⟩ := by
  have hi : RxInv s := h.invariant (rxInit_inv hd) fun hi _ hstep => hi.step hstep
  have hcomplete : (s.dev.rx.ring (rindex s.dev)).complete :=
    hi.complete_rindex_iff.mpr (hi.ok.ready_iff.mp hready)
  refine (receives_iff ⟨s.dev⟩).mpr ⟨(hasRxPacket_iff s.dev).mp hready, ?_, hcomplete.2⟩
  show (s.dev.rx.ring (rindex s.dev)).status &&& rxdStatEop ≠ 0
  rw [hcomplete.1]
  decide

/-- **On the transmit side** `tx_ready` and `transmit_with` test the same bit. -/
theorem transmits_iff_txReady (nic : NicE1000) (len : ℕ) :
    nic.Transmits len ↔ nic.txReady = some true := by
  unfold txReady hasTxSpace
  constructor
  · intro htrans
    obtain ⟨buf, nic', -, hsome⟩ := htrans Unit (fun _ buf => ((), buf)) ()
    unfold transmitWith E1000.transmitWith at hsome
    by_cases hlt : nic.device.regs.tdt < txRingSize
    · by_cases hdd : (nic.device.tx.ring nic.device.regs.tdt).dd = true
      · rw [if_pos hlt, hdd]
      · simp [hlt, hdd] at hsome
    · simp [hlt] at hsome
  · intro hready γ f g
    by_cases hlt : nic.device.regs.tdt < txRingSize
    · rw [if_pos hlt] at hready
      unfold transmitWith E1000.transmitWith
      dsimp only
      rw [if_pos hlt, if_pos (Option.some_inj.mp hready)]
      exact ⟨_, _, Memory.length_read nic.device.tx.bufs (nic.device.regs.tdt * mbufSize) _, rfl⟩
    · rw [if_neg hlt] at hready
      exact absurd hready (by simp)

/-- A wrapper whose descriptor 1, the next one, has this status and this errors byte. -/
def withStatus (status errors : UInt8) : NicE1000 where
  device := { zeroDevice with
    rx := { zeroDevice.rx with ring := fun _ => ⟨0x100000, 64, 0, status, errors, 0⟩ } }

/-- **Two panics after `rx_ready` returned `true`**: `DD` without `EOP`, the first
descriptor of a frame of two, and a whole frame with a CRC error. -/
theorem recv_panics :
    ((withStatus 1 0).rxReady = true ∧
      ∀ f : Unit → List UInt8 → Unit × List UInt8, (withStatus 1 0).recvWith f () = none) ∧
    ((withStatus 3 1).rxReady = true ∧
      ∀ f : Unit → List UInt8 → Unit × List UInt8, (withStatus 3 1).recvWith f () = none) := by
  refine ⟨⟨by decide, fun f => recvWith_panics ?_ f ()⟩,
    ⟨by decide, fun f => recvWith_panics ?_ f ()⟩⟩
  · rintro ⟨-, heop, -⟩
    exact heop rfl
  · rintro ⟨-, -, herr⟩
    exact absurd herr (by decide)

end NicE1000

end E1000
