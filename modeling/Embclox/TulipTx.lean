/-
The frames that the Tulip NIC sends.

`transmit_with` puts the length of a frame into a field of 11 bits and allows lengths
up to 2048.  The NIC sends the bytes that the control word counts, and no frame for a
setup descriptor.

* `FrameSys` — the system of driver and NIC with the byte strings that closures wrote
  and what the NIC did with each descriptor;
* `FrameInv` — the ring passes on the written byte strings, each cut to its length
  modulo 2048;
* `framesSent_iff` — in every run the frames sent are the first of the written byte
  strings, exactly if none of those had 2048 bytes;
* `empty_frame_sent` — a frame of 2048 bytes goes out empty.
-/
import Embclox.Tulip

open Run Slots

namespace Tulip

/-- The NIC sends the buffer of this descriptor as a frame. -/
def TulipDesc.isFrame (desc : TulipDesc) : Bool :=
  desc.control &&& tdes1Fs != 0 && desc.control &&& tdes1Ls != 0 && desc.control &&& tdes1Set == 0

/-- The frame that the NIC sends for descriptor `k`, if it is not a setup frame. -/
def DmaRing.nicFrame (r : DmaRing) (k : ℕ) : Option (List UInt8) :=
  if (r.desc k).isFrame then
    some (Memory.read r.bufs ((r.desc k).buf1Addr.toNat - r.bufsPaddr) (r.desc k).bufSize)
  else none

/-! ### Runs -/

/-- The system with the byte strings written by the closures of the calls that
returned `Some`, and what the NIC sent for each descriptor, both in order. -/
structure FrameSys where
  sys : Sys
  written : List (List UInt8)
  results : List (Option (List UInt8))

/-- The frames that were sent. -/
def FrameSys.frames (s : FrameSys) : List (List UInt8) := s.results.filterMap id

/-- What the closure of `transmit_with` writes, if the call returns `Some`. -/
def txWritten (d : TulipDevice) (len : ℕ) (f : List UInt8 → List UInt8) : Option (List UInt8) :=
  if (d.tx.desc d.txNext).own then none else some (txBytes d len f)

/-- What is written in this step. -/
def writtenBytes (s : Sys) : Act → List (List UInt8)
  | .transmitWith len f => (txWritten s.dev len f).toList
  | _ => []

/-- What the NIC sends in this step. -/
def sentResult (s : Sys) : Act → List (Option (List UInt8))
  | .nicSend _ => [s.dev.tx.nicFrame s.nicTx]
  | _ => []

def frameStep (s : FrameSys) (a : Act) : Option FrameSys :=
  (step s.sys a).map fun u =>
    ⟨u, s.written ++ writtenBytes s.sys a, s.results ++ sentResult s.sys a⟩

/-- The call is not for a whole buffer. -/
def ShortFrame : Act → Prop
  | .transmitWith len _ => len < mbufSize
  | _ => True

instance : (a : Act) → Decidable (ShortFrame a)
  | .transmitWith len _ => Nat.decLt len mbufSize
  | .pollSetup | .hasTxSpace | .hasRxPacket | .recvWith _ | .nicSend _ | .nicFill .. =>
    .isTrue trivial

/-! ### Control words -/

/-- What the 11 bits of the length field leave of a frame. -/
def cutFrame (bytes : List UInt8) : List UInt8 := bytes.take (bytes.length % mbufSize)

/-- A control word is the low bits of the length beside two or three flags. -/
theorem txControl_eq (i len : ℕ) : ∃ flags,
    (flags = tdes1Fs ||| tdes1Ls ∨ flags = tdes1Fs ||| tdes1Ls ||| tdes1Ter) ∧
      txControl i len = (UInt32.ofNat len &&& 0x7FF) ||| flags := by
  unfold txControl
  by_cases hi : i = txRingSize - 1
  · simp only [if_pos hi]
    exact ⟨_, .inr rfl, UInt32.or_assoc _ _ _⟩
  · simp only [if_neg hi]
    exact ⟨_, .inl rfl, rfl⟩

/-- The flags leave the length field alone. -/
theorem bufSize_txControl (i len : ℕ) : (txControl i len &&& 0x7FF).toNat = len % mbufSize := by
  obtain ⟨flags, hflags, heq⟩ := txControl_eq i len
  have hzero : flags &&& 0x7FF = 0 := by
    rcases hflags with rfl | rfl
    · decide
    · decide
  have hmask : (0x7FF : UInt32).toNat = 2 ^ 11 - 1 := rfl
  rw [heq, Bits.or_and_distrib, hzero, UInt32.or_zero, UInt32.and_assoc, UInt32.and_self,
    UInt32.toNat_and, UInt32.toNat_ofNat', hmask, Nat.and_two_pow_sub_one_eq_mod]
  exact Nat.mod_mod_of_dvd len (by decide)

/-- The length leaves the flags alone. -/
theorem isFrame_of_txControl {desc : TulipDesc} {i len : ℕ} (h : desc.control = txControl i len) :
    desc.isFrame = true := by
  obtain ⟨flags, hflags, heq⟩ := txControl_eq i len
  have hlow : ∀ m : UInt32, (0x7FF : UInt32) &&& m = 0 →
      desc.control &&& m = flags &&& m := by
    intro m hm
    rw [h, heq, Bits.or_and_distrib, Bits.and_and_eq_zero _ hm, UInt32.zero_or]
  rw [TulipDesc.isFrame, hlow _ (by decide), hlow _ (by decide), hlow _ (by decide)]
  rcases hflags with rfl | rfl
  · decide
  · decide

/-! ### What passes through the ring -/

section

variable {r : DmaRing} {i j : ℕ} {bytes : List UInt8}

theorem nicFrame_congr {r' : DmaRing} (hdesc : r'.desc j = r.desc j)
    (hpaddr : r'.bufsPaddr = r.bufsPaddr)
    (haddr : (r.desc j).buf1Addr.toNat - r.bufsPaddr = j * mbufSize)
    (hbuf : r'.buf j = r.buf j) : r'.nicFrame j = r.nicFrame j := by
  have hread : Memory.read r'.bufs (j * mbufSize) (r.desc j).bufSize =
      Memory.read r.bufs (j * mbufSize) (r.desc j).bufSize := by
    have := congrArg (fun b => b.2.take (r.desc j).bufSize) hbuf
    simpa only [DmaRing.buf, Memory.take_read (bufSize_le _)] using this
  rw [DmaRing.nicFrame, DmaRing.nicFrame, hdesc, hpaddr, haddr, hread]

/-- The frame that the NIC will send is what the length field leaves of the bytes. -/
theorem Wired.nicFrame_giveToNic (h : Wired r) (hi : i < txRingSize) (bytes : List UInt8) :
    (r.giveToNic i bytes (txControl i bytes.length)).nicFrame i = some (cutFrame bytes) := by
  have hwired : Wired (r.giveToNic i bytes (txControl i bytes.length)) :=
    h.giveToNic (ter_txControl _ _)
  have hcontrol : ((r.giveToNic i bytes (txControl i bytes.length)).desc i).control =
      txControl i bytes.length := by
    simp only [DmaRing.giveToNic, Function.update_self]
  rw [DmaRing.nicFrame, if_pos (isFrame_of_txControl hcontrol), hwired.offset hi,
    TulipDesc.bufSize, hcontrol, bufSize_txControl, ← Memory.take_read (Nat.mod_le _ _)]
  simp only [DmaRing.giveToNic]
  rw [Memory.read_write, cutFrame]

theorem nicFrame_setup : (r.giveToNic 0 bytes (setupControl 0)).nicFrame 0 = none := by
  unfold DmaRing.nicFrame DmaRing.giveToNic TulipDesc.isFrame
  simp only [Function.update_self]
  rfl

/-- The driver gives the buffer at its cursor to the NIC, which finds a frame there. -/
theorem Wired.frames_giveToNic (h : Wired r) {put taken : List (Option (List UInt8))}
    (hc : Chan txRingSize (fun i => (r.desc i).own = true) r.nicFrame put taken)
    (hi : i = put.length % txRingSize) (hown : (r.desc i).own = false)
    (hlen : bytes.length ≤ mbufSize) (control : UInt32) :
    Chan txRingSize (fun j => ((r.giveToNic i bytes control).desc j).own = true)
      (r.giveToNic i bytes control).nicFrame (put ++ [(r.giveToNic i bytes control).nicFrame i])
      taken := by
  subst hi
  refine hc.push txRingSize_pos ?_ own_giveToNic fun j hj hne => ?_
  · rw [hown]
    decide
  · rw [desc_giveToNic hne]
    refine ⟨Iff.rfl, fun _ => ?_⟩
    exact nicFrame_congr (desc_giveToNic hne) rfl (h.offset hj) (buf_giveToNic hne hlen)

end

structure FrameInv (s : FrameSys) : Prop where
  sys : Inv s.sys
  /-- After the setup frame, what the length fields leave of the written byte strings
  passes through the ring. -/
  chan : Chan txRingSize (fun i => (s.sys.dev.tx.desc i).own = true) s.sys.dev.tx.nicFrame
    (none :: s.written.map fun bytes => some (cutFrame bytes)) s.results
  accepted : s.sys.accepted.length = s.written.length + 1
  sent : s.sys.sent.length = s.results.length

section

variable {s : FrameSys} {u : Sys}

/-- A step that does not touch the transmit ring. -/
theorem FrameInv.of_tx_eq (hi : FrameInv s) (hu : Inv u) (htx : u.dev.tx = s.sys.dev.tx)
    (haccepted : u.accepted = s.sys.accepted) (hsent : u.sent = s.sys.sent) :
    FrameInv ⟨u, s.written, s.results⟩ := by
  refine ⟨hu, ?_, ?_, ?_⟩
  · dsimp only
    rw [htx]
    exact hi.chan
  · rw [haccepted]
    exact hi.accepted
  · rw [hsent]
    exact hi.sent

theorem FrameInv.transmitWith (hi : FrameInv s) {len : ℕ} {f : List UInt8 → List UInt8}
    (h : step s.sys (.transmitWith len f) = some u) :
    FrameInv ⟨u, s.written ++ (txWritten s.sys.dev len f).toList, s.results⟩ := by
  have hu : Inv u := hi.sys.step h
  unfold txWritten
  obtain ⟨hphase, hlen, ⟨hown, rfl⟩ | ⟨hown, bytes, hbytes, rfl⟩⟩ := step_transmitWith h
  · rw [if_pos hown, Option.toList_none, List.append_nil]
    exact hi
  · rw [if_neg (by rw [hown]; decide), Option.toList_some, ← hbytes]
    have hlength : bytes.length = len := by rw [hbytes, length_txBytes]
    have hput : (none :: s.written.map fun bytes => some (cutFrame bytes)).length =
        s.sys.accepted.length := by
      rw [hi.accepted, List.length_cons, List.length_map]
    have hcur : s.sys.dev.txNext =
        (none :: s.written.map fun bytes => some (cutFrame bytes)).length % txRingSize := by
      rw [hput]
      exact hi.sys.txNext_ready hphase
    have hlt : s.sys.dev.txNext < txRingSize := hcur ▸ Nat.mod_lt _ txRingSize_pos
    have hframe := hi.sys.tx.nicFrame_giveToNic hlt bytes
    rw [hlength] at hframe
    refine ⟨hu, ?_, ?_, hi.sent⟩
    · rw [List.map_append, List.map_singleton, ← hframe]
      exact hi.sys.tx.frames_giveToNic hi.chan hcur hown (by omega) _
    · simp only [List.length_append, List.length_singleton, hi.accepted]

theorem FrameInv.nicSend (hi : FrameInv s) {status : UInt32}
    (h : step s.sys (.nicSend status) = some u) :
    FrameInv ⟨u, s.written, s.results ++ [s.sys.dev.tx.nicFrame s.sys.nicTx]⟩ := by
  have hu : Inv u := hi.sys.step h
  obtain ⟨hown, rfl⟩ := step_nicSend h
  have hcur : s.sys.nicTx = s.results.length % txRingSize := by
    rw [← hi.sent]
    exact hi.sys.nicTx
  refine ⟨hu, ?_, hi.accepted, ?_⟩
  · dsimp only
    rw [hcur] at hown ⊢
    refine hi.chan.pop txRingSize_pos hown ?_ fun i hi' hne => ?_
    · rw [own_giveBack]
      decide
    · rw [desc_giveBack hne]
      refine ⟨Iff.rfl, fun _ => ?_⟩
      exact nicFrame_congr (desc_giveBack hne) rfl (hi.sys.tx.offset hi') buf_giveBack_nil
  · simp only [List.length_append, List.length_singleton, hi.sent]

theorem FrameInv.step (hi : FrameInv s) {t : FrameSys} {a : Act} (h : frameStep s a = some t) :
    FrameInv t := by
  obtain ⟨u, hu, rfl⟩ := Option.map_eq_some_iff.mp h
  have hinv : Inv u := hi.sys.step hu
  cases a with
  | transmitWith len f =>
    simp only [writtenBytes, sentResult, List.append_nil]
    exact hi.transmitWith hu
  | nicSend status =>
    simp only [writtenBytes, sentResult, List.append_nil]
    exact hi.nicSend hu
  | pollSetup =>
    simp only [writtenBytes, sentResult, List.append_nil]
    obtain ⟨-, ⟨n, rfl⟩ | rfl⟩ := step_pollSetup hu
    · exact hi.of_tx_eq hinv rfl rfl rfl
    · exact hi.of_tx_eq hinv rfl rfl rfl
  | hasTxSpace =>
    simp only [writtenBytes, sentResult, List.append_nil]
    exact step_hasTxSpace hu ▸ hi
  | hasRxPacket =>
    simp only [writtenBytes, sentResult, List.append_nil]
    exact step_hasRxPacket hu ▸ hi
  | recvWith f =>
    simp only [writtenBytes, sentResult, List.append_nil]
    obtain ⟨-, ⟨-, rfl⟩ | ⟨-, bytes, -, rfl⟩⟩ := step_recvWith hu
    · exact hi
    · exact hi.of_tx_eq hinv rfl rfl rfl
  | nicFill status bytes =>
    simp only [writtenBytes, sentResult, List.append_nil]
    obtain ⟨-, rfl⟩ := step_nicFill hu
    exact hi.of_tx_eq hinv rfl rfl rfl

theorem start_frameInv {tx rx : DmaRing} {mac : Fin 6 → UInt8}
    (h : Tulip.start tx rx mac = some u) : FrameInv ⟨u, [], []⟩ := by
  have hi := start_inv h
  obtain ⟨d, hd, h⟩ := Option.bind_eq_some_iff.mp h
  obtain ⟨htx, -, ht0, -, hown⟩ := newDevice_eq_some hd
  unfold queueSetupFrame at h
  rw [ht0, (hown 0 txRingSize_pos).1] at h
  obtain rfl := Option.some.inj h
  have hempty : Chan txRingSize (fun i => (d.tx.desc i).own = true) d.tx.nicFrame [] [] :=
    Chan.of_empty fun i hlt => by simp [(hown i hlt).1]
  have hlen : (setupFrame d.mac).length ≤ mbufSize := by
    rw [setupFrame, List.length_append, List.length_replicate]
    exact Nat.le_of_ble_eq_true rfl
  refine ⟨hi, ?_, rfl, rfl⟩
  have hpush := htx.frames_giveToNic hempty rfl (hown 0 txRingSize_pos).1 hlen (setupControl 0)
  rwa [show [].length % txRingSize = 0 from rfl, nicFrame_setup] at hpush

/-- The frames are the first of the written byte strings, cut by the length field. -/
theorem FrameInv.frames_eq (hi : FrameInv s) :
    s.frames = (s.written.take s.frames.length).map cutFrame := by
  have horder := hi.chan.order
  unfold FrameSys.frames
  cases hres : s.results with
  | nil => simp
  | cons x rest =>
    rw [hres, List.cons_prefix_cons] at horder
    obtain ⟨rfl, hrest⟩ := horder
    have htake := List.prefix_iff_eq_take.mp hrest
    rw [← List.map_take] at htake
    have hframes : (none :: rest).filterMap id = (s.written.take rest.length).map cutFrame := by
      rw [List.filterMap_cons_none rfl, htake, List.filterMap_map, List.length_map]
      simp
    have hlen := hrest.length_le
    rw [List.length_map] at hlen
    rw [hframes, List.length_map, List.length_take, Nat.min_eq_left hlen]

theorem cutFrame_of_lt {bytes : List UInt8} (h : bytes.length < mbufSize) :
    cutFrame bytes = bytes := by
  rw [cutFrame, Nat.mod_eq_of_lt h, List.take_length]

theorem length_cutFrame_lt (bytes : List UInt8) : (cutFrame bytes).length < mbufSize := by
  rw [cutFrame, List.length_take]
  exact Nat.lt_of_le_of_lt (Nat.min_le_left _ _) (Nat.mod_lt _ (by decide))

/-- The frames are the byte strings themselves exactly if none of those is too long for
its length field. -/
theorem FrameInv.frames_prefix_iff (hi : FrameInv s) :
    s.frames <+: s.written ↔
      ∀ bytes ∈ s.written.take s.frames.length, bytes.length < mbufSize := by
  have heq := hi.frames_eq
  constructor
  · intro h bytes hmem
    rw [← List.prefix_iff_eq_take.mp h, heq] at hmem
    obtain ⟨b, -, rfl⟩ := List.mem_map.mp hmem
    exact length_cutFrame_lt b
  · intro h
    rw [List.prefix_iff_eq_take]
    calc s.frames = (s.written.take s.frames.length).map cutFrame := heq
      _ = (s.written.take s.frames.length).map id :=
        List.map_congr_left fun bytes hmem => cutFrame_of_lt (h bytes hmem)
      _ = s.written.take s.frames.length := List.map_id _

/-- Short calls write short byte strings. -/
theorem written_short {t : FrameSys} {a : Act} (hs : ∀ bytes ∈ s.written, bytes.length < mbufSize)
    (ha : ShortFrame a) (h : frameStep s a = some t) :
    ∀ bytes ∈ t.written, bytes.length < mbufSize := by
  obtain ⟨v, -, rfl⟩ := Option.map_eq_some_iff.mp h
  intro bytes hmem
  rcases List.mem_append.mp hmem with hmem | hmem
  · exact hs bytes hmem
  · cases a with
    | transmitWith len f =>
      rw [writtenBytes, Option.mem_toList, txWritten] at hmem
      split_ifs at hmem
      obtain rfl := Option.some.inj hmem
      rw [length_txBytes]
      exact ha
    | _ => exact absurd hmem List.not_mem_nil

end

/-- **The NIC sends what it was given.**  In every run of the driver and the NIC whose
calls are all shorter than a buffer, the frames that were sent are the first of the
byte strings that the closures wrote.  In every run at all, this holds exactly if none
of the byte strings sent so far fills its buffer. -/
theorem framesSent_iff {tx rx : DmaRing} {mac : Fin 6 → UInt8} {s₀ : Sys} {s : FrameSys}
    {acts : List Act} (h0 : start tx rx mac = some s₀)
    (h : Exec frameStep (fun _ _ => True) ⟨s₀, [], []⟩ acts s) :
    (Exec frameStep (fun _ a => ShortFrame a) ⟨s₀, [], []⟩ acts s → s.frames <+: s.written) ∧
      (s.frames <+: s.written ↔
        ∀ bytes ∈ s.written.take s.frames.length, bytes.length < mbufSize) := by
  have hi : FrameInv s := h.invariant (start_frameInv h0) fun hi _ hstep => hi.step hstep
  refine ⟨fun hshort => ?_, hi.frames_prefix_iff⟩
  have hall : ∀ bytes ∈ s.written, bytes.length < mbufSize :=
    hshort.invariant (by simp) fun hs ha hstep => written_short hs ha hstep
  exact hi.frames_prefix_iff.mpr fun bytes hmem => hall bytes (List.mem_of_mem_take hmem)

/-- Two frames behind the setup frame. -/
theorem framesSent_two_frames : ∃ s₀ s,
    start (zeroRing 0x10000) (zeroRing 0x20000) (fun _ => 2) = some s₀ ∧
    Exec frameStep (fun _ a => ShortFrame a) ⟨s₀, [], []⟩
      [.nicSend 0, .pollSetup, .transmitWith 3 (fun _ => [1, 2, 3]), .nicSend 0,
        .transmitWith 2 (fun _ => [4, 5]), .nicSend 0] s ∧
    s.frames = [[1, 2, 3], [4, 5]] ∧ s.frames <+: s.written := by
  obtain ⟨s₀, h0, s, hs, hframes⟩ : ∃ s₀,
      start (zeroRing 0x10000) (zeroRing 0x20000) (fun _ => 2) = some s₀ ∧
      ∃ s, Exec frameStep (fun _ a => ShortFrame a) ⟨s₀, [], []⟩
        [.nicSend 0, .pollSetup, .transmitWith 3 (fun _ => [1, 2, 3]), .nicSend 0,
          .transmitWith 2 (fun _ => [4, 5]), .nicSend 0] s ∧ s.frames = [[1, 2, 3], [4, 5]] :=
    ⟨_, rfl, Exec.exists_of_run (by decide +kernel)⟩
  exact ⟨s₀, s, h0, hs, hframes, (framesSent_iff h0 (hs.mono fun _ _ _ => trivial)).1 hs⟩

/-- **A frame that fills its buffer goes out empty**: its length is 0 in 11 bits. -/
theorem empty_frame_sent : ∃ s₀ s,
    start (zeroRing 0x10000) (zeroRing 0x20000) (fun _ => 2) = some s₀ ∧
    Exec frameStep (fun _ _ => True) ⟨s₀, [], []⟩
      [.nicSend 0, .pollSetup, .transmitWith 2048 id, .nicSend 0] s ∧
    s.frames = [[]] ∧ ¬ s.frames <+: s.written := by
  obtain ⟨s₀, h0, s, hs, hframes, hlen⟩ : ∃ s₀,
      start (zeroRing 0x10000) (zeroRing 0x20000) (fun _ => 2) = some s₀ ∧
      ∃ s, Exec frameStep (fun _ _ => True) ⟨s₀, [], []⟩
        [.nicSend 0, .pollSetup, .transmitWith 2048 id, .nicSend 0] s ∧ s.frames = [[]] ∧
        s.written.map List.length = [2048] :=
    ⟨_, rfl, Exec.exists_of_run (by decide +kernel)⟩
  refine ⟨s₀, s, h0, hs, hframes, fun hfirst => ?_⟩
  -- the one byte string that was written is not empty
  obtain ⟨rest, hrest⟩ := hfirst
  rw [← hrest, hframes] at hlen
  exact absurd hlen (by simp)

end Tulip
