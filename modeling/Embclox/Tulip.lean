/-
The DEC 21140 ("Tulip") descriptor rings.

Driver and NIC share two rings of 16 descriptors.  The `OWN` bit of a descriptor
says whose it is; each side has a cursor of its own, and the NIC goes back to the
first descriptor after the one that carries the end-of-ring bit.  The full and the
empty ring have equal cursors and differ only in the `OWN` bits.

* `RingsInStep` — the `OWN` bits are those between the two cursors; the end-of-ring
  bit is on the last descriptor; the NIC sends the accepted buffers in order, and the
  closures get the filled ones in order; no step writes a transmit buffer of the other
  side, and the NIC writes no receive buffer of the driver;
* `DriverSpares` — the driver writes no receive buffer of the NIC;
* `SliceStops` — the slice that `recv_with` is about to hand out ends before the next
  buffer of the NIC;
* `ringsInStep_of_run` — `RingsInStep` holds after every run, and `DriverSpares` exactly
  if `SliceStops`; both hold, and closures get the bytes that the NIC wrote, if the NIC
  reports no frame longer than its buffer;
* `long_frame_overwrites` — a reported length of 4096.
-/
import Embclox.Bits
import Embclox.Exec
import Embclox.Memory
import Embclox.Slots
import Mathlib.Logic.Function.Basic

open Run Slots

namespace Tulip

def txRingSize : ℕ := 16
def rxRingSize : ℕ := 16
def mbufSize : ℕ := 2048
def descBufSize : UInt32 := 2047
def setupFrameSize : ℕ := 192

def descOwn : UInt32 := (1 : UInt32) <<< 31
def tdes1Fs : UInt32 := (1 : UInt32) <<< 29
def tdes1Ls : UInt32 := (1 : UInt32) <<< 30
def tdes1Ter : UInt32 := (1 : UInt32) <<< 25
def tdes1Set : UInt32 := (1 : UInt32) <<< 27
def rdes1Rer : UInt32 := (1 : UInt32) <<< 25

structure TulipDesc where
  status : UInt32
  control : UInt32
  buf1Addr : UInt32
  buf2Addr : UInt32

/-- The NIC owns the descriptor. -/
def TulipDesc.own (desc : TulipDesc) : Bool := desc.status &&& descOwn != 0

/-- The end-of-ring bit, which has one place in both rings. -/
def TulipDesc.endOfRing (desc : TulipDesc) : Bool := desc.control &&& tdes1Ter != 0

def rxFrameLength (status : UInt32) : ℕ := (status >>> 16 &&& 0x3FFF).toNat

/-- The descriptors and the packet buffers of one direction; offsets into the buffers
count from the start of their region. -/
structure DmaRing where
  desc : ℕ → TulipDesc
  bufs : ℕ → UInt8
  ringPaddr : ℕ
  bufsPaddr : ℕ

structure TulipDevice where
  tx : DmaRing
  rx : DmaRing
  txNext : ℕ
  rxNext : ℕ
  mac : Fin 6 → UInt8

/-! ### `TulipDevice::new` -/

/-- `assert_addr32` -/
def assertAddr32 (paddr : ℕ) : Bool := decide (paddr ≤ 0xFFFFFFFF)

def addrsOk (r : DmaRing) : Bool :=
  assertAddr32 r.ringPaddr && assertAddr32 r.bufsPaddr &&
    assertAddr32 (r.bufsPaddr + txRingSize * mbufSize - 1)

def txDescInit (bufsPaddr i : ℕ) : TulipDesc where
  status := 0
  control := if i = txRingSize - 1 then tdes1Ter else 0
  buf1Addr := UInt32.ofNat (bufsPaddr + i * mbufSize)
  buf2Addr := 0

/-- The control word of a receive descriptor. -/
def rxControl (i : ℕ) : UInt32 :=
  if i = rxRingSize - 1 then descBufSize ||| rdes1Rer else descBufSize

def rxDescInit (bufsPaddr i : ℕ) : TulipDesc where
  status := descOwn
  control := rxControl i
  buf1Addr := UInt32.ofNat (bufsPaddr + i * mbufSize)
  buf2Addr := 0

/-- Set the descriptors of a ring; both rings have the same size. -/
def DmaRing.initDescs (r : DmaRing) (init : ℕ → ℕ → TulipDesc) : DmaRing :=
  { r with desc := fun i => if i < txRingSize then init r.bufsPaddr i else r.desc i }

/-- `new` up to the setup frame; `none` is a failed assertion. -/
def newDevice (tx rx : DmaRing) (mac : Fin 6 → UInt8) : Option TulipDevice :=
  if addrsOk tx && addrsOk rx then
    some {
      tx := tx.initDescs txDescInit
      rx := rx.initDescs rxDescInit
      txNext := 0, rxNext := 0, mac }
  else none

/-- Store `bytes` in buffer `i` and give its descriptor to the NIC. -/
def DmaRing.giveToNic (r : DmaRing) (i : ℕ) (bytes : List UInt8) (control : UInt32) : DmaRing :=
  { r with
    bufs := Memory.write r.bufs (i * mbufSize) bytes
    desc := Function.update r.desc i { r.desc i with control, status := descOwn } }

/-- 16 filter entries of 12 bytes: all broadcast but the first, which has the MAC
address, two bytes to a word. -/
def setupFrame (mac : Fin 6 → UInt8) : List UInt8 :=
  [mac 0, mac 1, 0xFF, 0xFF, mac 2, mac 3, 0xFF, 0xFF, mac 4, mac 5, 0xFF, 0xFF] ++
    List.replicate (15 * 12) 0xFF

def setupControl (i : ℕ) : UInt32 :=
  let ctrl := tdes1Set ||| (UInt32.ofNat setupFrameSize &&& 0x7FF)
  if i = txRingSize - 1 then ctrl ||| tdes1Ter else ctrl

/-- The first half of `send_setup_frame`; `none` is a failed assertion. -/
def queueSetupFrame (d : TulipDevice) : Option TulipDevice :=
  if (d.tx.desc d.txNext).own then none
  else some { d with
    tx := d.tx.giveToNic d.txNext (setupFrame d.mac) (setupControl d.txNext) }

/-! ### Operations -/

def hasRxPacket (d : TulipDevice) : Bool := !(d.rx.desc d.rxNext).own
def hasTxSpace (d : TulipDevice) : Bool := !(d.tx.desc d.txNext).own

/-- A closure cannot resize its slice: what it does not write stays. -/
def overwrite (buf bytes : List UInt8) : List UInt8 :=
  bytes.take buf.length ++ buf.drop bytes.length

def recvWith {τ : Type} (d : TulipDevice) (f : List UInt8 → τ × List UInt8) :
    TulipDevice × Option τ :=
  let desc := d.rx.desc d.rxNext
  if desc.own then (d, none)
  else
    let len := rxFrameLength desc.status
    let buf := Memory.read d.rx.bufs (d.rxNext * mbufSize) len
    let (result, bytes) := f buf
    ({ d with
        rx := d.rx.giveToNic d.rxNext (overwrite buf bytes) (rxControl d.rxNext)
        rxNext := (d.rxNext + 1) % rxRingSize },
      some result)

def txControl (i len : ℕ) : UInt32 :=
  let ctrl := (UInt32.ofNat len &&& 0x7FF) ||| (tdes1Fs ||| tdes1Ls)
  if i = txRingSize - 1 then ctrl ||| tdes1Ter else ctrl

/-- `transmit_with`; `none` is the failed assertion on the length. -/
def transmitWith {τ : Type} (d : TulipDevice) (len : ℕ) (f : List UInt8 → τ × List UInt8) :
    Option (TulipDevice × Option τ) :=
  if len ≤ mbufSize then
    if (d.tx.desc d.txNext).own then some (d, none)
    else
      let buf := Memory.read d.tx.bufs (d.txNext * mbufSize) len
      let (result, bytes) := f buf
      some ({ d with
          tx := d.tx.giveToNic d.txNext (overwrite buf bytes) (txControl d.txNext len)
          txNext := (d.txNext + 1) % txRingSize },
        some result)
  else none

/-! ### Runs of the driver and the NIC -/

inductive Phase
  /-- `send_setup_frame` waits and has polled that often. -/
  | setup (polls : ℕ)
  /-- `new` has returned. -/
  | ready
  deriving DecidableEq

/-- The device, the NIC's cursors and the history of the buffers: index and bytes of
each buffer that was accepted for transmission and sent, of each frame that the NIC has
reported, and of each slice that a closure got. -/
structure Sys where
  dev : TulipDevice
  phase : Phase
  nicTx : ℕ
  nicRx : ℕ
  accepted : List (ℕ × List UInt8)
  sent : List (ℕ × List UInt8)
  filled : List (ℕ × List UInt8)
  handed : List (ℕ × List UInt8)

inductive Act
  | pollSetup
  | hasTxSpace
  /-- `f` is what the closure does to its slice. -/
  | transmitWith (len : ℕ) (f : List UInt8 → List UInt8)
  | hasRxPacket
  | recvWith (f : List UInt8 → List UInt8)
  /-- The NIC sends a buffer and writes a status back. -/
  | nicSend (status : UInt32)
  /-- The NIC receives a frame and writes a status back. -/
  | nicFill (status : UInt32) (bytes : List UInt8)

/-- The step is the NIC's. -/
def Act.byNic : Act → Bool
  | .nicSend _ | .nicFill _ _ => true
  | _ => false

/-- Buffer `i` with its bytes. -/
def DmaRing.buf (r : DmaRing) (i : ℕ) : ℕ × List UInt8 :=
  (i, Memory.read r.bufs (i * mbufSize) mbufSize)

/-- What the NIC finds at the address in descriptor `k`. -/
def DmaRing.nicBuf (r : DmaRing) (k : ℕ) : ℕ × List UInt8 :=
  (k, Memory.read r.bufs ((r.desc k).buf1Addr.toNat - r.bufsPaddr) mbufSize)

/-- The `len` bytes from the address in descriptor `k` on. -/
def DmaRing.reported (r : DmaRing) (k len : ℕ) : ℕ × List UInt8 :=
  (k, Memory.read r.bufs ((r.desc k).buf1Addr.toNat - r.bufsPaddr) len)

/-- The NIC stores `bytes` and gives descriptor `k` back. -/
def DmaRing.giveBack (r : DmaRing) (k : ℕ) (bytes : List UInt8) (status : UInt32) : DmaRing :=
  { r with
    bufs := Memory.write r.bufs ((r.desc k).buf1Addr.toNat - r.bufsPaddr) bytes
    desc := Function.update r.desc k { r.desc k with status := status &&& ~~~descOwn } }

/-- The NIC's next descriptor. -/
def DmaRing.nicNext (r : DmaRing) (k : ℕ) : ℕ := if (r.desc k).endOfRing then 0 else k + 1

/-- The room that the control word gives the NIC. -/
def TulipDesc.bufSize (desc : TulipDesc) : ℕ := (desc.control &&& 0x7FF).toNat

/-- `send_setup_frame` ends, sent or not. -/
def setupDone (s : Sys) : Sys :=
  { s with dev := { s.dev with txNext := (s.dev.txNext + 1) % txRingSize }, phase := .ready }

def step (s : Sys) : Act → Option Sys
  | .pollSetup =>
      match s.phase with
      | .setup polls =>
          if (s.dev.tx.desc s.dev.txNext).own then
            if polls + 1 < 100000 then some { s with phase := .setup (polls + 1) }
            else some (setupDone s)
          else some (setupDone s)
      | .ready => none
  | .hasTxSpace => if s.phase = .ready then some s else none
  | .hasRxPacket => if s.phase = .ready then some s else none
  | .transmitWith len f =>
      if s.phase = .ready then
        (transmitWith s.dev len fun buf => ((), f buf)).map fun r =>
          { s with
            dev := r.1
            accepted := s.accepted ++ r.2.toList.map fun _ => r.1.tx.buf s.dev.txNext }
      else none
  | .recvWith f =>
      if s.phase = .ready then
        let r := recvWith s.dev fun buf => (buf, f buf)
        some { s with
          dev := r.1
          handed := s.handed ++ r.2.toList.map fun buf => (s.dev.rxNext, buf) }
      else none
  | .nicSend status =>
      if (s.dev.tx.desc s.nicTx).own then
        some { s with
          dev := { s.dev with tx := s.dev.tx.giveBack s.nicTx [] status }
          nicTx := s.dev.tx.nicNext s.nicTx
          sent := s.sent ++ [s.dev.tx.nicBuf s.nicTx] }
      else none
  | .nicFill status bytes =>
      if (s.dev.rx.desc s.nicRx).own then
        let rx := s.dev.rx.giveBack s.nicRx (bytes.take (s.dev.rx.desc s.nicRx).bufSize) status
        some { s with
          dev := { s.dev with rx }
          nicRx := s.dev.rx.nicNext s.nicRx
          filled := s.filled ++ [rx.reported s.nicRx (rxFrameLength status)] }
      else none

/-- The state in which `send_setup_frame` starts to wait. -/
def start (tx rx : DmaRing) (mac : Fin 6 → UInt8) : Option Sys := do
  let d ← newDevice tx rx mac
  let d ← queueSetupFrame d
  some ⟨d, .setup 0, 0, 0, [d.tx.buf 0], [], [], []⟩

/-! ### What stays in step -/

/-- The descriptors with the given owner are those from the items taken on, up to the
items put, and the cursors are there. -/
structure RingInStep (own : ℕ → Bool) (held : Bool) (taken put : List (ℕ × List UInt8))
    (first next : ℕ) : Prop where
  le : taken.length ≤ put.length
  room : put.length ≤ taken.length + txRingSize
  own_iff : ∀ i < txRingSize, own i = held ↔ Held txRingSize taken.length put.length i
  first : first = taken.length % txRingSize
  next : next = put.length % txRingSize

/-- The buffers that the side `nic` does not own keep their bytes. -/
def SparesOthers (nic : Bool) (r r' : DmaRing) : Prop :=
  ∀ i < txRingSize, (r.desc i).own ≠ nic → r'.buf i = r.buf i

/-- Index and length of a frame. -/
def sized (frame : ℕ × List UInt8) : ℕ × ℕ := (frame.1, frame.2.length)

structure RingsInStep (s : Sys) : Prop where
  tx : RingInStep (fun i => (s.dev.tx.desc i).own) true s.sent s.accepted s.nicTx s.dev.txNext
  rx : RingInStep (fun i => (s.dev.rx.desc i).own) false s.handed s.filled s.dev.rxNext s.nicRx
  txEnd : ∀ i < txRingSize, (s.dev.tx.desc i).endOfRing = true ↔ i = 15
  rxEnd : ∀ i < rxRingSize, (s.dev.rx.desc i).endOfRing = true ↔ i = 15
  /-- The NIC sends the accepted buffers in order, each once. -/
  sent : s.sent <+: s.accepted
  /-- Closures get the filled buffers in order, each once, with as many bytes as the NIC
  has reported. -/
  handed : s.handed.map sized <+: s.filled.map sized
  /-- `transmit_with` fails exactly when the NIC owns every descriptor. -/
  full : ∀ {τ : Type} (len : ℕ) (f : List UInt8 → τ × List UInt8), len ≤ mbufSize →
    ((∃ d, transmitWith s.dev len f = some (d, none)) ↔
      ∀ i < txRingSize, (s.dev.tx.desc i).own = true)
  /-- No step writes a transmit buffer of the other side. -/
  txSpared : ∀ a u, step s a = some u → SparesOthers a.byNic s.dev.tx u.dev.tx
  /-- The NIC writes no receive buffer of the driver. -/
  rxSpared : ∀ a u, step s a = some u → a.byNic = true → SparesOthers true s.dev.rx u.dev.rx

/-- The driver writes no receive buffer of the NIC. -/
def DriverSpares (s : Sys) : Prop :=
  ∀ a u, step s a = some u → a.byNic = false → SparesOthers false s.dev.rx u.dev.rx

/-- The slice of the next frame, if there is one, ends before every later buffer that the
NIC owns. -/
def SliceStops (s : Sys) : Prop :=
  (s.dev.rx.desc s.dev.rxNext).own = false → ∀ i < rxRingSize, s.dev.rxNext < i →
    (s.dev.rx.desc i).own = true →
      s.dev.rxNext * mbufSize + rxFrameLength (s.dev.rx.desc s.dev.rxNext).status ≤ i * mbufSize

/-- The NIC reports no frame longer than a buffer. -/
def FitsBuffer : Act → Prop
  | .nicFill status _ => rxFrameLength status ≤ mbufSize
  | _ => True

instance : (a : Act) → Decidable (FitsBuffer a)
  | .nicFill status _ => Nat.decLe (rxFrameLength status) mbufSize
  | .pollSetup | .hasTxSpace | .transmitWith .. | .hasRxPacket | .recvWith _ | .nicSend _ =>
    .isTrue trivial

/-! ### Rings -/

theorem txRingSize_pos : 0 < txRingSize := by decide

theorem mbufSize_pos : 0 < mbufSize := by decide

/-- The descriptors point to their buffers, and only the last ends the ring. -/
structure Wired (r : DmaRing) : Prop where
  base : r.bufsPaddr + txRingSize * mbufSize ≤ 2 ^ 32
  addr : ∀ i < txRingSize, (r.desc i).buf1Addr = UInt32.ofNat (r.bufsPaddr + i * mbufSize)
  last : ∀ i < txRingSize, (r.desc i).endOfRing = true ↔ i = 15

section

variable {r : DmaRing} {i j k : ℕ} {bytes : List UInt8} {control status : UInt32}

theorem Wired.offset (h : Wired r) (hk : k < txRingSize) :
    (r.desc k).buf1Addr.toNat - r.bufsPaddr = k * mbufSize := by
  have hbase := h.base
  have hmul : (k + 1) * mbufSize ≤ txRingSize * mbufSize := Nat.mul_le_mul_right _ hk
  rw [Nat.succ_mul] at hmul
  rw [h.addr k hk, UInt32.toNat_ofNat', Nat.mod_eq_of_lt, Nat.add_sub_cancel_left]
  unfold mbufSize at *
  omega

/-- The end-of-ring bit makes the NIC's cursor go round. -/
theorem Wired.nicNext_eq (h : Wired r) (n : ℕ) :
    r.nicNext (n % txRingSize) = (n + 1) % txRingSize := by
  have hlt : n % txRingSize < txRingSize := Nat.mod_lt _ txRingSize_pos
  unfold DmaRing.nicNext
  by_cases hlast : n % txRingSize = 15
  · rw [if_pos ((h.last _ hlt).mpr hlast)]
    unfold txRingSize at *
    omega
  · rw [if_neg (mt (h.last _ hlt).mp hlast)]
    unfold txRingSize at *
    omega

theorem Wired.update {desc : TulipDesc} {bufs : ℕ → UInt8} (h : Wired r)
    (haddr : desc.buf1Addr = (r.desc i).buf1Addr) (hlast : desc.endOfRing = true ↔ i = 15) :
    Wired { r with desc := Function.update r.desc i desc, bufs } := by
  refine ⟨h.base, fun j hj => ?_, fun j hj => ?_⟩
  · by_cases hji : j = i
    · subst hji
      dsimp only
      rw [Function.update_self, haddr]
      exact h.addr j hj
    · dsimp only
      rw [Function.update_of_ne hji]
      exact h.addr j hj
  · by_cases hji : j = i
    · subst hji
      dsimp only
      rw [Function.update_self, hlast]
    · dsimp only
      rw [Function.update_of_ne hji]
      exact h.last j hj

theorem Wired.giveToNic (h : Wired r) (hcontrol : control &&& tdes1Ter ≠ 0 ↔ i = 15) :
    Wired (r.giveToNic i bytes control) :=
  h.update rfl (by simpa [TulipDesc.endOfRing] using hcontrol)

theorem Wired.giveBack (h : Wired r) (hk : k < txRingSize) :
    Wired (r.giveBack k bytes status) :=
  h.update rfl (h.last k hk)

theorem desc_giveToNic (hj : j ≠ i) : (r.giveToNic i bytes control).desc j = r.desc j :=
  Function.update_of_ne hj _ _

theorem own_giveToNic : ((r.giveToNic i bytes control).desc i).own = true := by
  simp only [DmaRing.giveToNic, Function.update_self, TulipDesc.own]
  decide

theorem desc_giveBack (hj : j ≠ k) : (r.giveBack k bytes status).desc j = r.desc j :=
  Function.update_of_ne hj _ _

theorem own_giveBack : ((r.giveBack k bytes status).desc k).own = false := by
  simp only [DmaRing.giveBack, Function.update_self, TulipDesc.own]
  rw [Bits.and_and_eq_zero _ (by decide)]
  rfl

theorem buf_giveToNic (hj : j ≠ i) (hlen : bytes.length ≤ mbufSize) :
    (r.giveToNic i bytes control).buf j = r.buf j := by
  unfold DmaRing.buf DmaRing.giveToNic
  dsimp only
  rw [Memory.read_write_block _ hj (Nat.le_refl _) hlen]

theorem Wired.buf_giveBack (h : Wired r) (hk : k < txRingSize) (hj : j ≠ k)
    (hlen : bytes.length ≤ mbufSize) : (r.giveBack k bytes status).buf j = r.buf j := by
  unfold DmaRing.buf DmaRing.giveBack
  dsimp only
  rw [h.offset hk, Memory.read_write_block _ hj (Nat.le_refl _) hlen]

/-- The NIC finds the driver's buffer. -/
theorem Wired.nicBuf_eq (h : Wired r) (hk : k < txRingSize) : r.nicBuf k = r.buf k := by
  rw [DmaRing.nicBuf, h.offset hk, DmaRing.buf]

/-- The NIC's frame starts where the driver's buffer starts. -/
theorem Wired.reported_eq (h : Wired r) (hk : k < txRingSize) (len : ℕ) :
    r.reported k len = (k, Memory.read r.bufs (k * mbufSize) len) := by
  rw [DmaRing.reported, h.offset hk]

/-- A buffer that is only read keeps its bytes. -/
theorem buf_giveBack_nil : (r.giveBack k [] status).buf j = r.buf j := by
  unfold DmaRing.buf DmaRing.giveBack
  dsimp only
  rw [Memory.write_nil]

/-! ### Control words -/

/-- A control word whose other fields leave the end-of-ring bit alone. -/
theorem ter_control {ctrl : UInt32} (h : ctrl &&& tdes1Ter = 0) (i : ℕ) :
    (if i = txRingSize - 1 then ctrl ||| tdes1Ter else ctrl) &&& tdes1Ter ≠ 0 ↔ i = 15 := by
  by_cases hi : i = txRingSize - 1
  · rw [if_pos hi, Bits.or_and_distrib, h]
    exact iff_of_true (by decide) hi
  · rw [if_neg hi, h]
    exact iff_of_false (by decide) hi

theorem ter_rxControl (i : ℕ) : rxControl i &&& tdes1Ter ≠ 0 ↔ i = 15 :=
  ter_control (by decide) i

theorem ter_txControl (i len : ℕ) : txControl i len &&& tdes1Ter ≠ 0 ↔ i = 15 := by
  refine ter_control ?_ i
  rw [Bits.or_and_distrib, Bits.and_and_eq_zero _ (by decide)]
  decide

theorem ter_setupControl (i : ℕ) : setupControl i &&& tdes1Ter ≠ 0 ↔ i = 15 :=
  ter_control (by decide) i

theorem bufSize_le (desc : TulipDesc) : desc.bufSize ≤ mbufSize := by
  have h : desc.bufSize ≤ 0x7FF := by
    rw [TulipDesc.bufSize, UInt32.toNat_and]
    exact Nat.and_le_right
  exact Nat.le_trans h (by decide)

theorem length_overwrite (buf bytes : List UInt8) : (overwrite buf bytes).length = buf.length := by
  simp only [overwrite, List.length_append, List.length_take, List.length_drop]
  omega

end

/-! ### Frames in the receive ring -/

/-- The length in the status word of descriptor `i`. -/
def DmaRing.frameLength (r : DmaRing) (i : ℕ) : ℕ := rxFrameLength (r.desc i).status

/-- The slice that descriptor `i` stands for. -/
def DmaRing.frame (r : DmaRing) (i : ℕ) : ℕ × List UInt8 :=
  (i, Memory.read r.bufs (i * mbufSize) (r.frameLength i))

theorem sized_frame (r : DmaRing) (i : ℕ) : sized (r.frame i) = (i, r.frameLength i) := by
  rw [sized, DmaRing.frame, Memory.length_read]

/-- The `OWN` bit is not part of the length. -/
theorem rxFrameLength_and_not_own (status : UInt32) :
    rxFrameLength (status &&& ~~~descOwn) = rxFrameLength status := by
  have hmask : (~~~descOwn) >>> 16 &&& 0x3FFF = 0x3FFF := by decide
  rw [rxFrameLength, UInt32.shiftRight_and, UInt32.and_assoc, hmask, rxFrameLength]

theorem frameLength_giveBack (r : DmaRing) (k : ℕ) (bytes : List UInt8) (status : UInt32) :
    (r.giveBack k bytes status).frameLength k = rxFrameLength status := by
  unfold DmaRing.frameLength DmaRing.giveBack
  dsimp only
  rw [Function.update_self, rxFrameLength_and_not_own]

/-- What the NIC reports is what the driver will find. -/
theorem Wired.reported_giveBack {r : DmaRing} {k : ℕ} (h : Wired r) (hk : k < txRingSize)
    (bytes : List UInt8) (status : UInt32) :
    (r.giveBack k bytes status).reported k (rxFrameLength status) =
      (r.giveBack k bytes status).frame k := by
  rw [(h.giveBack hk).reported_eq hk, DmaRing.frame, frameLength_giveBack]

/-! ### The invariant -/

structure Inv (s : Sys) : Prop where
  tx : Wired s.dev.tx
  rx : Wired s.dev.rx
  txChan : Chan txRingSize (fun i => (s.dev.tx.desc i).own = true) s.dev.tx.buf s.accepted s.sent
  rxChan : Chan txRingSize (fun i => (s.dev.rx.desc i).own = false)
    (fun i => (i, s.dev.rx.frameLength i)) (s.filled.map sized) (s.handed.map sized)
  nicTx : s.nicTx = s.sent.length % txRingSize
  nicRx : s.nicRx = s.filled.length % txRingSize
  rxNext : s.dev.rxNext = s.handed.length % txRingSize
  /-- While `new` waits for the setup frame, the driver's cursor is still on it. -/
  txNext : match s.phase with
    | .setup _ => s.dev.txNext = 0 ∧ s.accepted.length = 1
    | .ready => s.dev.txNext = s.accepted.length % txRingSize

section

variable {s u : Sys}

theorem Inv.txNext_ready (hi : Inv s) (h : s.phase = .ready) :
    s.dev.txNext = s.accepted.length % txRingSize := by
  have := hi.txNext
  rwa [h] at this

theorem addrsOk_base {r : DmaRing} (h : addrsOk r = true) :
    r.bufsPaddr + txRingSize * mbufSize ≤ 2 ^ 32 := by
  simp only [addrsOk, assertAddr32, Bool.and_eq_true, decide_eq_true_eq] at h
  unfold txRingSize mbufSize at *
  omega

theorem desc_initDescs {r : DmaRing} {init : ℕ → ℕ → TulipDesc} {i : ℕ} (hi : i < txRingSize) :
    (r.initDescs init).desc i = init r.bufsPaddr i :=
  if_pos hi

theorem wired_initDescs {r : DmaRing} {init : ℕ → ℕ → TulipDesc} (hok : addrsOk r = true)
    (haddr : ∀ i, (init r.bufsPaddr i).buf1Addr = UInt32.ofNat (r.bufsPaddr + i * mbufSize))
    (hlast : ∀ i, (init r.bufsPaddr i).control &&& tdes1Ter ≠ 0 ↔ i = 15) :
    Wired (r.initDescs init) := by
  refine ⟨addrsOk_base hok, fun i hi => ?_, fun i hi => ?_⟩
  · rw [desc_initDescs hi]
    exact haddr i
  · rw [desc_initDescs hi, TulipDesc.endOfRing, bne_iff_ne]
    exact hlast i

theorem ter_txDescInit (p i : ℕ) : (txDescInit p i).control &&& tdes1Ter ≠ 0 ↔ i = 15 := by
  unfold txDescInit
  by_cases hi : i = txRingSize - 1
  · simp only [if_pos hi]
    exact iff_of_true (by decide) hi
  · simp only [if_neg hi]
    exact iff_of_false (by decide) hi

theorem newDevice_eq_some {tx rx : DmaRing} {mac : Fin 6 → UInt8} {d : TulipDevice}
    (h : newDevice tx rx mac = some d) : Wired d.tx ∧ Wired d.rx ∧ d.txNext = 0 ∧ d.rxNext = 0 ∧
      ∀ i < txRingSize, (d.tx.desc i).own = false ∧ (d.rx.desc i).own = true := by
  unfold newDevice at h
  by_cases hok : (addrsOk tx && addrsOk rx) = true
  · rw [if_pos hok] at h
    obtain rfl := Option.some.inj h
    obtain ⟨htx, hrx⟩ := Bool.and_eq_true_iff.mp hok
    refine ⟨wired_initDescs htx (fun _ => rfl) (ter_txDescInit _),
      wired_initDescs hrx (fun _ => rfl) ter_rxControl, rfl, rfl, fun i hi => ?_⟩
    dsimp only
    rw [desc_initDescs hi, desc_initDescs hi]
    simp only [TulipDesc.own, txDescInit, rxDescInit]
    decide
  · rw [if_neg hok] at h
    exact absurd h (by simp)

/-- The driver gives the buffer at its cursor to the NIC. -/
theorem Inv.txChan_giveToNic (hi : Inv s) {n : ℕ} (hn : n = s.accepted.length % txRingSize)
    {bytes : List UInt8} {control : UInt32} (hlen : bytes.length ≤ mbufSize)
    (hown : (s.dev.tx.desc n).own = false) :
    Chan txRingSize (fun i => ((s.dev.tx.giveToNic n bytes control).desc i).own = true)
      (s.dev.tx.giveToNic n bytes control).buf
      (s.accepted ++ [(s.dev.tx.giveToNic n bytes control).buf n]) s.sent := by
  subst hn
  refine hi.txChan.push txRingSize_pos ?_ own_giveToNic fun i _ hne => ?_
  · rw [hown]
    exact Bool.false_ne_true
  · rw [desc_giveToNic hne, buf_giveToNic hne hlen]
    exact ⟨Iff.rfl, fun _ => rfl⟩

theorem start_inv {tx rx : DmaRing} {mac : Fin 6 → UInt8} (h : start tx rx mac = some s) :
    Inv s := by
  obtain ⟨d, hd, h⟩ := Option.bind_eq_some_iff.mp h
  obtain ⟨htx, hrx, ht0, hr0, hown⟩ := newDevice_eq_some hd
  have hempty : Inv ⟨d, .ready, 0, 0, [], [], [], []⟩ :=
    ⟨htx, hrx, Chan.of_empty fun i hi => by simp [(hown i hi).1],
      Chan.of_empty fun i hi => by simp [(hown i hi).2], rfl, rfl, hr0, ht0⟩
  unfold queueSetupFrame at h
  rw [ht0, (hown 0 txRingSize_pos).1] at h
  obtain rfl := Option.some.inj h
  have hframe : (setupFrame d.mac).length ≤ mbufSize := by
    rw [setupFrame, List.length_append, List.length_replicate]
    exact Nat.le_of_ble_eq_true rfl
  exact ⟨htx.giveToNic (ter_setupControl 0), hrx,
    hempty.txChan_giveToNic rfl hframe (hown 0 txRingSize_pos).1, hempty.rxChan, rfl, rfl, hr0,
    rfl, rfl⟩

/-! ### What a step does -/

/-- The bytes of the slice after the closure of `transmit_with` has run. -/
def txBytes (d : TulipDevice) (len : ℕ) (f : List UInt8 → List UInt8) : List UInt8 :=
  overwrite (Memory.read d.tx.bufs (d.txNext * mbufSize) len)
    (f (Memory.read d.tx.bufs (d.txNext * mbufSize) len))

theorem length_txBytes (d : TulipDevice) (len : ℕ) (f : List UInt8 → List UInt8) :
    (txBytes d len f).length = len := by
  rw [txBytes, length_overwrite, Memory.length_read]

theorem step_transmitWith {len : ℕ} {f : List UInt8 → List UInt8}
    (h : step s (.transmitWith len f) = some u) :
    s.phase = .ready ∧ len ≤ mbufSize ∧
      ((s.dev.tx.desc s.dev.txNext).own = true ∧ u = s ∨
        (s.dev.tx.desc s.dev.txNext).own = false ∧ ∃ bytes, bytes = txBytes s.dev len f ∧
        u = { s with
          dev := { s.dev with
            tx := s.dev.tx.giveToNic s.dev.txNext bytes (txControl s.dev.txNext len)
            txNext := (s.dev.txNext + 1) % txRingSize }
          accepted := s.accepted ++
            [(s.dev.tx.giveToNic s.dev.txNext bytes (txControl s.dev.txNext len)).buf
              s.dev.txNext] }) := by
  by_cases hphase : s.phase = .ready
  · refine ⟨hphase, ?_⟩
    simp only [step, if_pos hphase, Option.map_eq_some_iff] at h
    obtain ⟨r, hr, rfl⟩ := h
    unfold transmitWith at hr
    by_cases hlen : len ≤ mbufSize
    · refine ⟨hlen, ?_⟩
      rw [if_pos hlen] at hr
      cases hown : (s.dev.tx.desc s.dev.txNext).own with
      | true =>
        -- the NIC still owns the descriptor, and the frame is refused
        rw [hown, if_pos rfl] at hr
        obtain rfl := Option.some.inj hr
        refine .inl ⟨rfl, ?_⟩
        simp only [Option.toList_none, List.map_nil, List.append_nil]
      | false =>
        rw [hown, if_neg (by decide)] at hr
        obtain rfl := Option.some.inj hr
        exact .inr ⟨rfl, _, rfl, rfl⟩
    · -- the slice of the buffer would be too long: a panic
      rw [if_neg hlen] at hr
      exact absurd hr (by simp)
  · simp only [step, if_neg hphase] at h
    exact absurd h (by simp)

/-- The bytes of the slice after the closure of `recv_with` has run. -/
def rxBytes (d : TulipDevice) (f : List UInt8 → List UInt8) : List UInt8 :=
  overwrite (d.rx.frame d.rxNext).2 (f (d.rx.frame d.rxNext).2)

theorem length_rxBytes (d : TulipDevice) (f : List UInt8 → List UInt8) :
    (rxBytes d f).length = d.rx.frameLength d.rxNext := by
  rw [rxBytes, length_overwrite, DmaRing.frame, Memory.length_read]

theorem step_recvWith {f : List UInt8 → List UInt8} (h : step s (.recvWith f) = some u) :
    s.phase = .ready ∧
      ((s.dev.rx.desc s.dev.rxNext).own = true ∧ u = s ∨
        (s.dev.rx.desc s.dev.rxNext).own = false ∧ ∃ bytes, bytes = rxBytes s.dev f ∧
        u = { s with
          dev := { s.dev with
            rx := s.dev.rx.giveToNic s.dev.rxNext bytes (rxControl s.dev.rxNext)
            rxNext := (s.dev.rxNext + 1) % rxRingSize }
          handed := s.handed ++ [s.dev.rx.frame s.dev.rxNext] }) := by
  by_cases hphase : s.phase = .ready
  · refine ⟨hphase, ?_⟩
    simp only [step, if_pos hphase] at h
    obtain rfl := Option.some.inj h
    cases hown : (s.dev.rx.desc s.dev.rxNext).own with
    | true =>
      refine .inl ⟨rfl, ?_⟩
      simp only [recvWith, hown, if_true, Option.toList_none, List.map_nil, List.append_nil]
    | false =>
      exact .inr ⟨rfl, _, rfl, by simp only [recvWith, hown]; rfl⟩
  · simp only [step, if_neg hphase] at h
    exact absurd h (by simp)

theorem step_nicSend {status : UInt32} (h : step s (.nicSend status) = some u) :
    (s.dev.tx.desc s.nicTx).own = true ∧ u = { s with
      dev := { s.dev with tx := s.dev.tx.giveBack s.nicTx [] status }
      nicTx := s.dev.tx.nicNext s.nicTx
      sent := s.sent ++ [s.dev.tx.nicBuf s.nicTx] } := by
  by_cases hown : (s.dev.tx.desc s.nicTx).own = true
  · simp only [step, if_pos hown] at h
    exact ⟨hown, (Option.some.inj h).symm⟩
  · simp only [step, if_neg hown] at h
    exact absurd h (by simp)

/-- The receive ring after a fill. -/
def fillRing (r : DmaRing) (k : ℕ) (bytes : List UInt8) (status : UInt32) : DmaRing :=
  r.giveBack k (bytes.take (r.desc k).bufSize) status

theorem step_nicFill {status : UInt32} {bytes : List UInt8}
    (h : step s (.nicFill status bytes) = some u) :
    (s.dev.rx.desc s.nicRx).own = true ∧ u = { s with
      dev := { s.dev with rx := fillRing s.dev.rx s.nicRx bytes status }
      nicRx := s.dev.rx.nicNext s.nicRx
      filled := s.filled ++
        [(fillRing s.dev.rx s.nicRx bytes status).reported s.nicRx (rxFrameLength status)] } := by
  by_cases hown : (s.dev.rx.desc s.nicRx).own = true
  · simp only [step, if_pos hown] at h
    exact ⟨hown, (Option.some.inj h).symm⟩
  · simp only [step, if_neg hown] at h
    exact absurd h (by simp)

theorem step_hasTxSpace (h : step s .hasTxSpace = some u) : u = s := by
  simp only [step, Option.ite_none_right_eq_some] at h
  exact (Option.some.inj h.2).symm

theorem step_hasRxPacket (h : step s .hasRxPacket = some u) : u = s := by
  simp only [step, Option.ite_none_right_eq_some] at h
  exact (Option.some.inj h.2).symm

theorem step_pollSetup (h : step s .pollSetup = some u) :
    (∃ n, s.phase = .setup n) ∧ ((∃ n, u = { s with phase := .setup n }) ∨ u = setupDone s) := by
  cases hphase : s.phase with
  | setup n =>
    simp only [step, hphase] at h
    refine ⟨⟨n, rfl⟩, ?_⟩
    cases hown : (s.dev.tx.desc s.dev.txNext).own with
    | true =>
      simp only [hown, if_true] at h
      by_cases hn : n + 1 < 100000
      · rw [if_pos hn] at h
        exact .inl ⟨n + 1, (Option.some.inj h).symm⟩
      · rw [if_neg hn] at h
        exact .inr (Option.some.inj h).symm
    | false =>
      simp only [hown] at h
      exact .inr (Option.some.inj h).symm
  | ready =>
    simp only [step, hphase] at h
    exact absurd h (by simp)

/-! ### Every step keeps the invariant -/

theorem Inv.nicTx_lt (hi : Inv s) : s.nicTx < txRingSize :=
  hi.nicTx ▸ Nat.mod_lt _ txRingSize_pos

theorem Inv.nicRx_lt (hi : Inv s) : s.nicRx < txRingSize :=
  hi.nicRx ▸ Nat.mod_lt _ txRingSize_pos

theorem Inv.pollSetup (hi : Inv s) (h : step s .pollSetup = some u) : Inv u := by
  obtain ⟨⟨n, hphase⟩, hu⟩ := step_pollSetup h
  have hnext : s.dev.txNext = 0 ∧ s.accepted.length = 1 := by
    have := hi.txNext
    rwa [hphase] at this
  rcases hu with ⟨m, rfl⟩ | rfl
  · exact ⟨hi.tx, hi.rx, hi.txChan, hi.rxChan, hi.nicTx, hi.nicRx, hi.rxNext, hnext⟩
  · refine ⟨hi.tx, hi.rx, hi.txChan, hi.rxChan, hi.nicTx, hi.nicRx, hi.rxNext, ?_⟩
    show (s.dev.txNext + 1) % txRingSize = s.accepted.length % txRingSize
    rw [hnext.1, hnext.2]

theorem Inv.transmitWith (hi : Inv s) {len : ℕ} {f : List UInt8 → List UInt8}
    (h : step s (.transmitWith len f) = some u) : Inv u := by
  obtain ⟨hphase, hlen, ⟨-, rfl⟩ | ⟨hown, bytes, hbytes, rfl⟩⟩ := step_transmitWith h
  · exact hi
  · have hnext := hi.txNext_ready hphase
    have hfits : bytes.length ≤ mbufSize := by rwa [hbytes, length_txBytes]
    refine ⟨hi.tx.giveToNic (ter_txControl _ _), hi.rx, hi.txChan_giveToNic hnext hfits hown,
      hi.rxChan, hi.nicTx, hi.nicRx, hi.rxNext, ?_⟩
    dsimp only
    rw [hphase]
    dsimp only
    rw [hnext, List.length_append, List.length_singleton, Nat.mod_add_mod]

theorem Inv.recvWith (hi : Inv s) {f : List UInt8 → List UInt8}
    (h : step s (.recvWith f) = some u) : Inv u := by
  obtain ⟨-, ⟨-, rfl⟩ | ⟨hown, bytes, -, rfl⟩⟩ := step_recvWith h
  · exact hi
  · have hnext : s.dev.rxNext = (s.handed.map sized).length % txRingSize := by
      rw [List.length_map]
      exact hi.rxNext
    refine ⟨hi.tx, hi.rx.giveToNic (ter_rxControl _), hi.txChan, ?_, hi.nicTx, hi.nicRx, ?_,
      hi.txNext⟩
    · rw [List.map_append, List.map_singleton, sized_frame]
      dsimp only
      rw [hnext]
      -- the other descriptors keep their owner and their length
      refine hi.rxChan.pop txRingSize_pos (hnext ▸ hown) ?_ fun i _ hne => ?_
      · rw [own_giveToNic]
        decide
      · unfold DmaRing.frameLength
        rw [desc_giveToNic hne]
        exact ⟨Iff.rfl, fun _ => rfl⟩
    · show (s.dev.rxNext + 1) % txRingSize = _
      rw [hi.rxNext, List.length_append, List.length_singleton, Nat.mod_add_mod]

theorem Inv.nicSend (hi : Inv s) {status : UInt32} (h : step s (.nicSend status) = some u) :
    Inv u := by
  obtain ⟨hown, rfl⟩ := step_nicSend h
  have hk := hi.nicTx_lt
  have hcur := hi.nicTx
  refine ⟨hi.tx.giveBack hk, hi.rx, ?_, hi.rxChan, ?_, hi.nicRx, hi.rxNext, hi.txNext⟩
  · rw [hi.tx.nicBuf_eq hk, hcur]
    refine hi.txChan.pop txRingSize_pos (hcur ▸ hown) ?_ fun i _ hne => ⟨?_, fun _ => ?_⟩
    · rw [own_giveBack]
      decide
    · rw [desc_giveBack hne]
    · exact buf_giveBack_nil
  · dsimp only
    rw [hcur, hi.tx.nicNext_eq, List.length_append, List.length_singleton]

theorem Inv.nicFill (hi : Inv s) {status : UInt32} {bytes : List UInt8}
    (h : step s (.nicFill status bytes) = some u) : Inv u := by
  obtain ⟨hown, rfl⟩ := step_nicFill h
  have hk := hi.nicRx_lt
  have hcur : s.nicRx = (s.filled.map sized).length % txRingSize := by
    rw [List.length_map]
    exact hi.nicRx
  refine ⟨hi.tx, hi.rx.giveBack hk, hi.txChan, ?_, hi.nicTx, ?_, hi.rxNext, hi.txNext⟩
  · rw [List.map_append, List.map_singleton]
    dsimp only
    rw [fillRing, hi.rx.reported_giveBack hk, sized_frame]
    rw [hcur] at hown ⊢
    refine hi.rxChan.push txRingSize_pos ?_ own_giveBack fun i _ hne => ?_
    · rw [hown]
      decide
    · unfold DmaRing.frameLength
      rw [desc_giveBack hne]
      exact ⟨Iff.rfl, fun _ => rfl⟩
  · dsimp only
    rw [hi.nicRx, hi.rx.nicNext_eq, List.length_append, List.length_singleton]

theorem Inv.step (hi : Inv s) {a : Act} (h : step s a = some u) : Inv u := by
  cases a with
  | pollSetup => exact hi.pollSetup h
  | hasTxSpace => exact step_hasTxSpace h ▸ hi
  | transmitWith len f => exact hi.transmitWith h
  | hasRxPacket => exact step_hasRxPacket h ▸ hi
  | recvWith f => exact hi.recvWith h
  | nicSend status => exact hi.nicSend h
  | nicFill status bytes => exact hi.nicFill h

/-! ### The bytes of the receive buffers -/

/-- The unread buffers are as the NIC left them, and no frame leaves its buffer. -/
structure Kept (s : Sys) : Prop where
  chan : Chan txRingSize (fun i => (s.dev.rx.desc i).own = false) s.dev.rx.frame s.filled s.handed
  short : ∀ i < txRingSize, (s.dev.rx.desc i).own = false → s.dev.rx.frameLength i ≤ mbufSize

/-- A frame that is not longer than its buffer keeps its bytes while another buffer is
written. -/
theorem frame_eq {r r' : DmaRing} {i j : ℕ} {bytes : List UInt8}
    (hbufs : r'.bufs = Memory.write r.bufs (j * mbufSize) bytes) (hdesc : r'.desc i = r.desc i)
    (hne : i ≠ j) (hlen : bytes.length ≤ mbufSize) (hshort : r.frameLength i ≤ mbufSize) :
    r'.frame i = r.frame i := by
  unfold DmaRing.frame DmaRing.frameLength at *
  rw [hbufs, hdesc, Memory.read_write_block _ hne hshort hlen]

theorem start_kept {tx rx : DmaRing} {mac : Fin 6 → UInt8} (h : start tx rx mac = some s) :
    Kept s := by
  have hi := start_inv h
  obtain ⟨d, -, h⟩ := Option.bind_eq_some_iff.mp h
  obtain ⟨d', -, h⟩ := Option.bind_eq_some_iff.mp h
  obtain rfl := Option.some.inj h
  have hown : ∀ i < txRingSize, ¬ (d'.rx.desc i).own = false := fun i hlt hown =>
    not_held_self ((hi.rxChan.full_iff i hlt).mp hown)
  exact ⟨Chan.of_empty hown, fun i hlt h => absurd h (hown i hlt)⟩

theorem Kept.recvWith (hk : Kept s) (hi : Inv s) {f : List UInt8 → List UInt8}
    (h : step s (.recvWith f) = some u) : Kept u := by
  obtain ⟨-, ⟨-, rfl⟩ | ⟨hown, bytes, hlen, rfl⟩⟩ := step_recvWith h
  · exact hk
  · have hnext := hi.rxNext
    have hlt : s.dev.rxNext < txRingSize := hnext ▸ Nat.mod_lt _ txRingSize_pos
    have hfits : bytes.length ≤ mbufSize := by
      rw [hlen, length_rxBytes]
      exact hk.short _ hlt hown
    refine ⟨?_, fun i hi' hown' => ?_⟩
    · dsimp only
      rw [hnext] at hown ⊢
      -- what the closure writes stays in its buffer
      refine hk.chan.pop txRingSize_pos hown ?_ fun i hi' hne => ⟨?_, fun hown' => ?_⟩
      · rw [own_giveToNic]
        decide
      · rw [desc_giveToNic hne]
      · exact frame_eq rfl (desc_giveToNic hne) hne hfits (hk.short i hi' hown')
    · have hne : i ≠ s.dev.rxNext := by
        rintro rfl
        exact absurd (own_giveToNic.symm.trans hown') (by decide)
      dsimp only [DmaRing.frameLength] at hown' ⊢
      rw [desc_giveToNic hne] at hown' ⊢
      exact hk.short i hi' hown'

theorem Kept.nicFill (hk : Kept s) (hi : Inv s) {status : UInt32} {bytes : List UInt8}
    (hfits : rxFrameLength status ≤ mbufSize) (h : step s (.nicFill status bytes) = some u) :
    Kept u := by
  obtain ⟨hown, rfl⟩ := step_nicFill h
  have hlt := hi.nicRx_lt
  have hlen : (bytes.take (s.dev.rx.desc s.nicRx).bufSize).length ≤ mbufSize :=
    Nat.le_trans (List.length_take_le _ _) (bufSize_le _)
  refine ⟨?_, fun i hi' hown' => ?_⟩
  · dsimp only
    rw [fillRing, hi.rx.reported_giveBack hlt]
    have hcur := hi.nicRx
    -- the NIC writes into the buffer of its descriptor only
    have hsame : ∀ i < txRingSize, i ≠ s.nicRx → (s.dev.rx.desc i).own = false →
        (fillRing s.dev.rx s.nicRx bytes status).frame i = s.dev.rx.frame i := by
      intro i hi' hne hown'
      refine frame_eq ?_ (desc_giveBack hne) hne hlen (hk.short i hi' hown')
      unfold fillRing DmaRing.giveBack
      dsimp only
      rw [hi.rx.offset hlt]
    rw [hcur] at hown hsame ⊢
    refine hk.chan.push txRingSize_pos ?_ own_giveBack fun i hi' hne => ⟨?_, hsame i hi' hne⟩
    · rw [hown]
      decide
    · rw [desc_giveBack hne]
  · by_cases hne : i = s.nicRx
    · subst hne
      rw [fillRing, frameLength_giveBack]
      exact hfits
    · dsimp only [DmaRing.frameLength, fillRing] at hown' ⊢
      rw [desc_giveBack hne] at hown' ⊢
      exact hk.short i hi' hown'

theorem Kept.step (hk : Kept s) (hi : Inv s) {a : Act} (hfits : FitsBuffer a)
    (h : step s a = some u) : Kept u := by
  cases a with
  | pollSetup =>
    obtain ⟨-, ⟨n, rfl⟩ | rfl⟩ := step_pollSetup h
    · exact ⟨hk.chan, hk.short⟩
    · exact ⟨hk.chan, hk.short⟩
  | hasTxSpace => exact step_hasTxSpace h ▸ hk
  | transmitWith len f =>
    obtain ⟨-, -, ⟨-, rfl⟩ | ⟨-, bytes, -, rfl⟩⟩ := step_transmitWith h
    · exact hk
    · exact ⟨hk.chan, hk.short⟩
  | hasRxPacket => exact step_hasRxPacket h ▸ hk
  | recvWith f => exact hk.recvWith hi h
  | nicSend status =>
    obtain ⟨-, rfl⟩ := step_nicSend h
    exact ⟨hk.chan, hk.short⟩
  | nicFill status bytes => exact hk.nicFill hi hfits h

/-! ### Who writes which buffer -/

theorem sparesOthers_refl (nic : Bool) (r : DmaRing) : SparesOthers nic r r :=
  fun _ _ _ => rfl

/-- The driver fills a buffer of its own. -/
theorem sparesOthers_giveToNic {r : DmaRing} {n : ℕ} {bytes : List UInt8} {control : UInt32}
    (hown : (r.desc n).own = false) (hlen : bytes.length ≤ mbufSize) :
    SparesOthers false r (r.giveToNic n bytes control) := by
  intro i _ hi
  exact buf_giveToNic (fun heq => hi (heq ▸ hown)) hlen

theorem sparesOthers_tx {a : Act} (h : Tulip.step s a = some u) :
    SparesOthers a.byNic s.dev.tx u.dev.tx := by
  cases a with
  | pollSetup =>
    obtain ⟨-, ⟨n, rfl⟩ | rfl⟩ := step_pollSetup h
    · exact sparesOthers_refl _ _
    · exact sparesOthers_refl _ _
  | hasTxSpace => exact step_hasTxSpace h ▸ sparesOthers_refl _ _
  | transmitWith len f =>
    obtain ⟨-, hlen, ⟨-, rfl⟩ | ⟨hown, bytes, hbytes, rfl⟩⟩ := step_transmitWith h
    · exact sparesOthers_refl _ _
    · exact sparesOthers_giveToNic hown (by rwa [hbytes, length_txBytes])
  | hasRxPacket => exact step_hasRxPacket h ▸ sparesOthers_refl _ _
  | recvWith f =>
    obtain ⟨-, ⟨-, rfl⟩ | ⟨-, bytes, -, rfl⟩⟩ := step_recvWith h
    · exact sparesOthers_refl _ _
    · exact sparesOthers_refl _ _
  | nicSend status =>
    obtain ⟨-, rfl⟩ := step_nicSend h
    exact fun i _ _ => buf_giveBack_nil
  | nicFill status bytes =>
    obtain ⟨-, rfl⟩ := step_nicFill h
    exact sparesOthers_refl _ _

theorem Inv.sparesOthers_rx_nic (hi : Inv s) {a : Act} (h : Tulip.step s a = some u)
    (ha : a.byNic = true) : SparesOthers true s.dev.rx u.dev.rx := by
  cases a with
  | nicSend status =>
    obtain ⟨-, rfl⟩ := step_nicSend h
    exact sparesOthers_refl _ _
  | nicFill status bytes =>
    obtain ⟨hown, rfl⟩ := step_nicFill h
    intro i _ hne
    exact hi.rx.buf_giveBack hi.nicRx_lt (fun heq => hne (heq ▸ hown))
      (Nat.le_trans (List.length_take_le _ _) (bufSize_le _))
  | _ => exact absurd ha Bool.noConfusion

/-! ### Slices that leave their buffer -/

/-- A closure that changes every byte of its slice. -/
def bump (buf : List UInt8) : List UInt8 := buf.map (· + 1)

theorem overwrite_bump (buf : List UInt8) : overwrite buf (bump buf) = bump buf := by
  simp [overwrite, bump]

/-- A slice that reaches another buffer gives its closure the bytes of that buffer. -/
theorem overwrites_of_reach {i : ℕ} (hr : s.phase = .ready)
    (hown : (s.dev.rx.desc s.dev.rxNext).own = false) (hnext : s.dev.rxNext < i)
    (hreach : i * mbufSize < s.dev.rxNext * mbufSize + s.dev.rx.frameLength s.dev.rxNext) :
    ∃ u, step s (.recvWith bump) = some u ∧ u.dev.rx.buf i ≠ s.dev.rx.buf i := by
  have hle : s.dev.rxNext * mbufSize ≤ i * mbufSize := Nat.mul_le_mul_right _ hnext.le
  obtain ⟨k, hk⟩ := Nat.exists_eq_add_of_le hle
  obtain ⟨u, hu⟩ : ∃ u, step s (.recvWith bump) = some u := ⟨_, if_pos hr⟩
  refine ⟨u, hu, fun heq => ?_⟩
  obtain ⟨-, ⟨hown', -⟩ | ⟨-, bytes, hbytes, rfl⟩⟩ := step_recvWith hu
  · exact absurd (hown.symm.trans hown') (by decide)
  · -- the first byte of the buffer is byte `k` of the slice
    simp only [DmaRing.buf, DmaRing.giveToNic, Prod.mk.injEq, true_and] at heq
    have hcell := Memory.eq_of_read heq mbufSize_pos
    have hlen : k < bytes.length := by
      rw [hbytes, length_rxBytes]
      omega
    have hnew : bytes[k] = s.dev.rx.bufs (i * mbufSize) + 1 := by
      have hbump : bytes = (s.dev.rx.frame s.dev.rxNext).2.map (· + 1) :=
        hbytes.trans (overwrite_bump _)
      simp only [hbump, DmaRing.frame, List.getElem_map, Memory.getElem_read, hk]
    rw [Nat.add_zero, hk, Memory.write_add _ _ hlen, ← hk, hnew] at hcell
    exact absurd hcell (by simp)

/-- A slice that ends before the NIC's buffers leaves them alone. -/
theorem SliceStops.sparesOthers (h : SliceStops s) {bytes : List UInt8} {control : UInt32}
    (hown : (s.dev.rx.desc s.dev.rxNext).own = false)
    (hlen : bytes.length = s.dev.rx.frameLength s.dev.rxNext) :
    SparesOthers false s.dev.rx (s.dev.rx.giveToNic s.dev.rxNext bytes control) := by
  intro i hi hne
  have hnic : (s.dev.rx.desc i).own = true := by simpa using hne
  have hapart : i * mbufSize + mbufSize ≤ s.dev.rxNext * mbufSize ∨
      s.dev.rxNext * mbufSize + bytes.length ≤ i * mbufSize := by
    rcases Nat.lt_trichotomy i s.dev.rxNext with hlt | rfl | hgt
    · left
      rw [← Nat.succ_mul]
      exact Nat.mul_le_mul_right _ hlt
    · exact absurd (hown.symm.trans hnic) (by decide)
    · right
      rw [hlen]
      exact h hown i hi hgt hnic
  unfold DmaRing.buf DmaRing.giveToNic
  dsimp only
  rw [Memory.read_write_of_disjoint _ hapart]

/-- **The driver spares the NIC's buffers** exactly if the next slice ends before them. -/
theorem driverSpares_iff (hr : s.phase = .ready) : DriverSpares s ↔ SliceStops s := by
  constructor
  · intro hspares hown i hi hnext hnic
    by_contra hreach
    obtain ⟨u, hu, hne⟩ := overwrites_of_reach hr hown hnext (Nat.not_le.mp hreach)
    exact hne (hspares _ u hu rfl i hi (by rw [hnic]; decide))
  · intro hstops a u h ha
    cases a with
    | pollSetup =>
      obtain ⟨-, ⟨n, rfl⟩ | rfl⟩ := step_pollSetup h
      · exact sparesOthers_refl _ _
      · exact sparesOthers_refl _ _
    | hasTxSpace => exact step_hasTxSpace h ▸ sparesOthers_refl _ _
    | transmitWith len f =>
      obtain ⟨-, -, ⟨-, rfl⟩ | ⟨-, bytes, -, rfl⟩⟩ := step_transmitWith h
      · exact sparesOthers_refl _ _
      · exact sparesOthers_refl _ _
    | hasRxPacket => exact step_hasRxPacket h ▸ sparesOthers_refl _ _
    | recvWith f =>
      obtain ⟨-, ⟨-, rfl⟩ | ⟨hown, bytes, hbytes, rfl⟩⟩ := step_recvWith h
      · exact sparesOthers_refl _ _
      · exact hstops.sparesOthers hown (by rw [hbytes, length_rxBytes])
    | _ => exact absurd ha Bool.noConfusion

/-- A frame that is not longer than its buffer reaches no other. -/
theorem Kept.sliceStops (hk : Kept s) (hi : Inv s) : SliceStops s := by
  intro hown i _ hnext _
  have hlt : s.dev.rxNext < txRingSize := hi.rxNext ▸ Nat.mod_lt _ txRingSize_pos
  calc s.dev.rxNext * mbufSize + rxFrameLength (s.dev.rx.desc s.dev.rxNext).status
      ≤ s.dev.rxNext * mbufSize + mbufSize := Nat.add_le_add_left (hk.short _ hlt hown) _
    _ = (s.dev.rxNext + 1) * mbufSize := (Nat.succ_mul _ _).symm
    _ ≤ i * mbufSize := Nat.mul_le_mul_right _ hnext

/-! ### The rings stay in step -/

theorem Inv.full_iff (hi : Inv s) (hr : s.phase = .ready) {τ : Type} {len : ℕ}
    (f : List UInt8 → τ × List UInt8) (hlen : len ≤ mbufSize) :
    (∃ d, Tulip.transmitWith s.dev len f = some (d, none)) ↔
      ∀ i < txRingSize, (s.dev.tx.desc i).own = true := by
  rw [← hi.txChan.full_next_iff_forall txRingSize_pos, ← hi.txNext_ready hr]
  unfold Tulip.transmitWith
  rw [if_pos hlen]
  cases hown : (s.dev.tx.desc s.dev.txNext).own with
  | true => simp
  | false => simp

theorem Inv.ringsInStep (hi : Inv s) (hr : s.phase = .ready) : RingsInStep s := by
  have hlen : ∀ l : List (ℕ × List UInt8), (l.map sized).length = l.length :=
    fun l => List.length_map _
  refine ⟨⟨hi.txChan.order.length_le, hi.txChan.room, hi.txChan.full_iff, hi.nicTx,
    hi.txNext_ready hr⟩, ⟨?_, ?_, ?_, hi.rxNext, hi.nicRx⟩, hi.tx.last, hi.rx.last,
    hi.txChan.order, hi.rxChan.order, fun len f => hi.full_iff hr f,
    fun a u => sparesOthers_tx, fun a u => hi.sparesOthers_rx_nic⟩
  · have := hi.rxChan.order.length_le
    rwa [hlen, hlen] at this
  · have := hi.rxChan.room
    rwa [hlen, hlen] at this
  · have := hi.rxChan.full_iff
    rwa [hlen, hlen] at this

end

/-- Rings of empty memory. -/
def zeroRing (bufsPaddr : ℕ) : DmaRing := ⟨fun _ => ⟨0, 0, 0, 0⟩, fun _ => 0, 0x1000, bufsPaddr⟩

end Tulip
