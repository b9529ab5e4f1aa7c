/-
The slices that the Tulip driver hands out.

`recv_with` takes the length of a slice from the status word of the descriptor, a field
of 14 bits, and does not compare it with the 2048 bytes of the buffer.

* `SliceSys` — the system of driver and NIC with the status words that the NIC wrote
  back and the slices that closures got;
* `SliceInv` — slice `k` has the length in word `k`, and starts where the buffer of its
  descriptor starts;
* `slicesInside_iff` — in every run, the slices stay in their buffers exactly if the
  words read so far report no frame longer than a buffer;
* `slice_leaves_buffers` — a frame of 4000 bytes in the last descriptor.
-/
import Embclox.Tulip

open Run Slots

namespace Tulip

/-- A slice of the receive buffers: the descriptor it belongs to, its start and its
length. -/
structure RxSlice where
  desc : ℕ
  start : ℕ
  len : ℕ
  deriving DecidableEq

/-- The slice that `recv_with` hands to its closure. -/
def rxSlice (d : TulipDevice) : Option RxSlice :=
  if (d.rx.desc d.rxNext).own then none
  else some ⟨d.rxNext, d.rxNext * mbufSize, rxFrameLength (d.rx.desc d.rxNext).status⟩

/-- The slice lies in the buffer of its descriptor. -/
def RxSlice.Inside (sl : RxSlice) : Prop :=
  sl.desc < rxRingSize ∧ sl.desc * mbufSize ≤ sl.start ∧
    sl.start + sl.len ≤ (sl.desc + 1) * mbufSize

instance (sl : RxSlice) : Decidable sl.Inside := inferInstanceAs (Decidable (_ ∧ _ ∧ _))

/-- The closure gets the bytes of the slice, and only of it. -/
theorem recvWith_snd {τ : Type} (d : TulipDevice) (f : List UInt8 → τ × List UInt8) :
    (recvWith d f).2 =
      (rxSlice d).map fun sl => (f (Memory.read d.rx.bufs sl.start sl.len)).1 := by
  unfold recvWith rxSlice
  by_cases hown : (d.rx.desc d.rxNext).own = true
  · rw [if_pos hown, if_pos hown]
    rfl
  · rw [if_neg hown, if_neg hown]
    rfl

/-! ### Runs -/

/-- The system with the status words written back and the slices handed out, both in
order. -/
structure SliceSys where
  sys : Sys
  words : List UInt32
  slices : List RxSlice

/-- The word that a step of the NIC writes to a receive descriptor. -/
def writtenBack : Act → List UInt32
  | .nicFill status _ => [status]
  | _ => []

/-- The slice that a step of the driver hands out. -/
def handedOut (s : Sys) : Act → List RxSlice
  | .recvWith _ => (rxSlice s.dev).toList
  | _ => []

def sliceStep (s : SliceSys) (a : Act) : Option SliceSys :=
  (step s.sys a).map fun u => ⟨u, s.words ++ writtenBack a, s.slices ++ handedOut s.sys a⟩

/-! ### Slices and status words -/

structure SliceInv (s : SliceSys) : Prop where
  sys : Inv s.sys
  /-- The lengths in the words pass through the ring to the slices. -/
  chan : Chan txRingSize (fun i => (s.sys.dev.rx.desc i).own = false) s.sys.dev.rx.frameLength
    (s.words.map rxFrameLength) (s.slices.map RxSlice.len)
  handed : s.slices.length = s.sys.handed.length
  filled : s.words.length = s.sys.filled.length
  start : ∀ sl ∈ s.slices, sl.desc < rxRingSize ∧ sl.start = sl.desc * mbufSize

section

variable {s : SliceSys} {u : Sys}

/-- A step that does not touch the receive ring. -/
theorem SliceInv.of_rx_eq (hi : SliceInv s) (hu : Inv u) (hrx : u.dev.rx = s.sys.dev.rx)
    (hhanded : u.handed = s.sys.handed) (hfilled : u.filled = s.sys.filled) :
    SliceInv ⟨u, s.words, s.slices⟩ := by
  refine ⟨hu, ?_, ?_, ?_, hi.start⟩
  · dsimp only
    rw [hrx]
    exact hi.chan
  · rw [hhanded]
    exact hi.handed
  · rw [hfilled]
    exact hi.filled

theorem SliceInv.nicFill (hi : SliceInv s) {status : UInt32} {bytes : List UInt8}
    (h : step s.sys (.nicFill status bytes) = some u) :
    SliceInv ⟨u, s.words ++ [status], s.slices⟩ := by
  have hu : Inv u := hi.sys.step h
  obtain ⟨hown, rfl⟩ := step_nicFill h
  have hcur : s.sys.nicRx = (s.words.map rxFrameLength).length % txRingSize := by
    rw [List.length_map, hi.filled]
    exact hi.sys.nicRx
  have hlength : (fillRing s.sys.dev.rx s.sys.nicRx bytes status).frameLength s.sys.nicRx =
      rxFrameLength status :=
    frameLength_giveBack _ _ _ _
  refine ⟨hu, ?_, hi.handed, ?_, hi.start⟩
  · rw [List.map_append, List.map_singleton, ← hlength]
    dsimp only
    rw [hcur] at hown ⊢
    refine hi.chan.push txRingSize_pos ?_ own_giveBack fun i _ hne => ?_
    · rw [hown]
      decide
    · unfold DmaRing.frameLength
      rw [fillRing, desc_giveBack hne]
      exact ⟨Iff.rfl, fun _ => rfl⟩
  · show _ = (s.sys.filled ++ [_]).length
    rw [List.length_append, List.length_append, hi.filled]
    rfl

theorem SliceInv.recvWith (hi : SliceInv s) {f : List UInt8 → List UInt8}
    (h : step s.sys (.recvWith f) = some u) :
    SliceInv ⟨u, s.words, s.slices ++ (rxSlice s.sys.dev).toList⟩ := by
  have hu : Inv u := hi.sys.step h
  unfold rxSlice
  obtain ⟨-, ⟨hown, rfl⟩ | ⟨hown, bytes, -, rfl⟩⟩ := step_recvWith h
  · rw [if_pos hown, Option.toList_none, List.append_nil]
    exact hi
  · rw [if_neg (by rw [hown]; decide), Option.toList_some]
    have hcur : s.sys.dev.rxNext = (s.slices.map RxSlice.len).length % txRingSize := by
      rw [List.length_map, hi.handed]
      exact hi.sys.rxNext
    have hlt : s.sys.dev.rxNext < rxRingSize := hcur ▸ Nat.mod_lt _ txRingSize_pos
    refine ⟨hu, ?_, ?_, hi.filled, ?_⟩
    · rw [List.map_append, List.map_singleton]
      dsimp only
      show Chan _ _ _ _ (_ ++ [s.sys.dev.rx.frameLength s.sys.dev.rxNext])
      rw [hcur] at hown ⊢
      refine hi.chan.pop txRingSize_pos hown ?_ fun i _ hne => ?_
      · rw [own_giveToNic]
        decide
      · unfold DmaRing.frameLength
        rw [desc_giveToNic hne]
        exact ⟨Iff.rfl, fun _ => rfl⟩
    · show _ = (s.sys.handed ++ [_]).length
      rw [List.length_append, List.length_append, hi.handed]
      rfl
    · intro sl hsl
      rcases List.mem_append.mp hsl with hsl | hsl
      · exact hi.start sl hsl
      · rw [List.mem_singleton.mp hsl]
        exact ⟨hlt, rfl⟩

theorem SliceInv.step (hi : SliceInv s) {t : SliceSys} {a : Act} (h : sliceStep s a = some t) :
    SliceInv t := by
  obtain ⟨u, hu, rfl⟩ := Option.map_eq_some_iff.mp h
  have hinv : Inv u := hi.sys.step hu
  cases a with
  | recvWith f =>
    simp only [writtenBack, handedOut, List.append_nil]
    exact hi.recvWith hu
  | nicFill status bytes =>
    simp only [writtenBack, handedOut, List.append_nil]
    exact hi.nicFill hu
  | pollSetup =>
    simp only [writtenBack, handedOut, List.append_nil]
    obtain ⟨-, ⟨n, rfl⟩ | rfl⟩ := step_pollSetup hu
    · exact hi.of_rx_eq hinv rfl rfl rfl
    · exact hi.of_rx_eq hinv rfl rfl rfl
  | hasTxSpace =>
    simp only [writtenBack, handedOut, List.append_nil]
    exact step_hasTxSpace hu ▸ hi
  | hasRxPacket =>
    simp only [writtenBack, handedOut, List.append_nil]
    exact step_hasRxPacket hu ▸ hi
  | transmitWith len f =>
    simp only [writtenBack, handedOut, List.append_nil]
    obtain ⟨-, -, ⟨-, rfl⟩ | ⟨-, bytes, -, rfl⟩⟩ := step_transmitWith hu
    · exact hi
    · exact hi.of_rx_eq hinv rfl rfl rfl
  | nicSend status =>
    simp only [writtenBack, handedOut, List.append_nil]
    obtain ⟨-, rfl⟩ := step_nicSend hu
    exact hi.of_rx_eq hinv rfl rfl rfl

theorem start_sliceInv {tx rx : DmaRing} {mac : Fin 6 → UInt8}
    (h : Tulip.start tx rx mac = some u) : SliceInv ⟨u, [], []⟩ := by
  have hi := start_inv h
  have hk := start_kept h
  obtain ⟨d, -, h⟩ := Option.bind_eq_some_iff.mp h
  obtain ⟨d', -, h⟩ := Option.bind_eq_some_iff.mp h
  obtain rfl := Option.some.inj h
  refine ⟨hi, Chan.of_empty fun i hlt hown => ?_, rfl, rfl, by simp⟩
  exact not_held_self ((hk.chan.full_iff i hlt).mp hown)

/-- A slice is inside exactly if it is not too long. -/
theorem SliceInv.inside_iff (hi : SliceInv s) {sl : RxSlice} (hsl : sl ∈ s.slices) :
    sl.Inside ↔ sl.len ≤ mbufSize := by
  obtain ⟨hlt, hstart⟩ := hi.start sl hsl
  unfold RxSlice.Inside
  rw [hstart, Nat.succ_mul]
  constructor
  · rintro ⟨-, -, hend⟩
    omega
  · intro hlen
    exact ⟨hlt, Nat.le_refl _, by omega⟩

/-- The lengths of the slices are those in the first of the words. -/
theorem SliceInv.lengths (hi : SliceInv s) :
    s.slices.map RxSlice.len = (s.words.take s.slices.length).map rxFrameLength := by
  have htake := List.prefix_iff_eq_take.mp hi.chan.order
  rwa [List.length_map, ← List.map_take] at htake

end

/-- **The slices of a run stay in their buffers** exactly if the status words read so
far report no frame longer than a buffer. -/
theorem slicesInside_iff {tx rx : DmaRing} {mac : Fin 6 → UInt8} {s₀ : Sys} {s : SliceSys}
    {acts : List Act} (h0 : start tx rx mac = some s₀)
    (h : Exec sliceStep (fun _ _ => True) ⟨s₀, [], []⟩ acts s) :
    (∀ sl ∈ s.slices, sl.Inside) ↔
      ∀ status ∈ s.words.take s.slices.length, rxFrameLength status ≤ mbufSize := by
  have hi : SliceInv s := h.invariant (start_sliceInv h0) fun hi _ hstep => hi.step hstep
  calc (∀ sl ∈ s.slices, sl.Inside)
      ↔ ∀ n ∈ s.slices.map RxSlice.len, n ≤ mbufSize := by
        rw [List.forall_mem_map]
        exact forall₂_congr fun sl hsl => hi.inside_iff hsl
    _ ↔ _ := by rw [hi.lengths, List.forall_mem_map]

/-- A frame of 64 bytes in the first descriptor. -/
theorem slicesInside_one_frame : ∃ s₀ s,
    start (zeroRing 0x10000) (zeroRing 0x20000) (fun _ => 2) = some s₀ ∧
    Exec sliceStep (fun _ _ => True) ⟨s₀, [], []⟩
      [.nicSend 0, .pollSetup, .nicFill 0x400000 [], .recvWith id, .recvWith id] s ∧
    s.slices = [⟨0, 0, 64⟩] ∧ ∀ sl ∈ s.slices, sl.Inside := by
  obtain ⟨s₀, h0, s, hs, hslices, hwords⟩ : ∃ s₀,
      start (zeroRing 0x10000) (zeroRing 0x20000) (fun _ => 2) = some s₀ ∧
      ∃ s, Exec sliceStep (fun _ _ => True) ⟨s₀, [], []⟩
        [.nicSend 0, .pollSetup, .nicFill 0x400000 [], .recvWith id, .recvWith id] s ∧
        s.slices = [⟨0, 0, 64⟩] ∧ s.words = [0x400000] :=
    ⟨_, rfl, Exec.exists_of_run (by decide +kernel)⟩
  refine ⟨s₀, s, h0, hs, hslices, (slicesInside_iff h0 hs).mpr fun status hmem => ?_⟩
  rw [hslices, hwords] at hmem
  rw [List.mem_singleton.mp hmem]
  decide

/-- Fifteen short frames and one that is reported with 4000 bytes. -/
def longLastFrame : List Act :=
  [.nicSend 0, .pollSetup] ++
    (List.replicate 15 [.nicFill 0x400000 [], .recvWith id]).flatten ++
    [.nicFill 0x0FA00000 [], .recvWith id]

/-- **A slice that ends outside all receive buffers**, which have 32768 bytes. -/
theorem slice_leaves_buffers : ∃ s₀ s,
    start (zeroRing 0x10000) (zeroRing 0x20000) (fun _ => 2) = some s₀ ∧
    Exec sliceStep (fun _ _ => True) ⟨s₀, [], []⟩ longLastFrame s ∧
    ∃ sl ∈ s.slices, ¬ sl.Inside ∧ rxRingSize * mbufSize < sl.start + sl.len := by
  obtain ⟨s₀, h0, s, hs, hslice⟩ : ∃ s₀,
      start (zeroRing 0x10000) (zeroRing 0x20000) (fun _ => 2) = some s₀ ∧
      ∃ s, Exec sliceStep (fun _ _ => True) ⟨s₀, [], []⟩ longLastFrame s ∧
        s.slices.getLast? = some ⟨15, 30720, 4000⟩ :=
    ⟨_, rfl, Exec.exists_of_run (by decide +kernel)⟩
  exact ⟨s₀, s, h0, hs, _, List.mem_of_getLast? hslice, by decide, by decide⟩

end Tulip
