/-
The senders of the VMBus ring as operations on its bytes.

`RingFifo` says what a reader sees of a send; here is what it does to the memory, on
every ring whose indices are in range, whatever lies in the data area.

* `run_eq_of_sendAvail` — a send writes one run of bytes from the write index on, or
  nothing;
* `sendAtomic` — it reports `Full` exactly if the run and one more byte do not fit,
  touches neither the unread bytes nor anything else outside the run, and never makes
  a ring that has unread bytes look empty;
* `not_sendAtomic_nearlyCut` — on a ring that is too large for its `u32` indices a
  send can close the ring.
-/
import Embclox.RingRecv

open Bytes Circular Effect

namespace Ring

/-- The free bytes, of which a send leaves at least one. -/
def freeSpace (r : RingHalf) : ℕ := r.dataSize - outstanding r

/-- The bytes a send writes: the padded packet and its trailer. -/
def SendCall.total (call : SendCall) : ℕ := align8 call.unpadded + 8

section

variable {r : RingHalf} {call : SendCall}

theorem sendAvail_of_lt (hread : r.readIndex.toNat < r.dataSize)
    (hwrite : r.writeIndex.toNat < r.dataSize) : sendAvail r = some (freeSpace r) := by
  unfold sendAvail freeSpace outstanding
  by_cases hle : r.readIndex.toNat ≤ r.writeIndex.toNat
  · simp only [if_pos hle]
    rw [if_pos (by omega)]
  · simp only [if_neg hle]
    congr 1
    omega

/-- The write index lies behind the unread bytes. -/
theorem read_add_outstanding (hread : r.readIndex.toNat < r.dataSize)
    (hwrite : r.writeIndex.toNat < r.dataSize) :
    (r.readIndex.toNat + outstanding r) % r.dataSize = r.writeIndex.toNat := by
  have hlt := outstanding_lt hread hwrite
  rw [add_mod_eq r.size_pos (Nat.le_of_lt hlt), Nat.mod_eq_of_lt hread]
  unfold outstanding
  split <;> split <;> omega

/-- The lengths of the packet as its sender and as its caller count them. -/
theorem length_body_eq {extra : List (List UInt8)} {headerSize : ℕ}
    (hbody : call.body = bodyFor extra headerSize call.payload)
    (hhead : headerSize = 16 + extra.flatten.length) :
    align8 (headerSize + call.payload.length) = align8 call.unpadded := by
  have hle := le_align8 (headerSize + call.payload.length)
  have hle' := le_align8 call.unpadded
  have hlen := congrArg List.length hbody
  simp only [SendCall.body, bodyFor, List.length_append, List.length_replicate] at hlen
  unfold SendCall.unpadded at hle' hlen ⊢
  omega

/-- The memory after `bytes` were written from the write index on, and the write index
moved behind them. -/
def writeRun (r : RingHalf) (bytes : List UInt8) : RingHalf :=
  { r with
    writeIndex := UInt32.ofNat ((r.writeIndex.toNat + bytes.length) % r.dataSize)
    data := store r.dataSize r.data r.writeIndex.toNat bytes }

/-- The padded packet: the descriptor and what follows it. -/
def SendCall.packet (call : SendCall) : List UInt8 := call.desc.toBytes ++ call.body

theorem SendCall.length_packet (call : SendCall) : call.packet.length = align8 call.unpadded := by
  have hle := le_align8 call.unpadded
  simp only [packet, body, List.length_append, List.length_replicate,
    VmPacketDescriptor.length_toBytes]
  unfold unpadded at hle ⊢
  omega

/-- The packet with its trailer, the indices before the send. -/
def SendCall.bytes (call : SendCall) (r : RingHalf) : List UInt8 :=
  call.packet ++ le64 (UInt64.ofNat r.writeIndex.toNat <<< 32 ||| UInt64.ofNat r.readIndex.toNat)

theorem SendCall.length_bytes (call : SendCall) (r : RingHalf) :
    (call.bytes r).length = call.total := by
  rw [bytes, List.length_append, length_packet, length_le64, total]

/-- **A send writes one run of bytes**, the packet and its trailer, or nothing. -/
theorem run_eq_of_sendAvail (call : SendCall) {avail : ℕ} (havail : sendAvail r = some avail)
    (hle : avail ≤ r.dataSize) :
    call.run r =
      if avail ≤ call.total then (.err .full, r) else (.ok (), writeRun r (call.bytes r)) := by
  obtain ⟨packetType, extra, headerSize, transactionId, flags, hrun, hdesc, hbody, hhead⟩ :=
    call.run_eq
  have htotal := length_body_eq hbody hhead
  -- the pieces lie one after the other
  have hpieces := flatten_sendPieces (descFor packetType headerSize call.payload.length
    transactionId flags) extra headerSize call.payload
    (UInt64.ofNat r.writeIndex.toNat <<< 32 ||| UInt64.ofNat r.readIndex.toNat)
  have hlen := call.length_bytes r
  rw [SendCall.bytes, SendCall.packet, hdesc, hbody, ← hpieces] at hlen ⊢
  rw [hrun]
  simp only [sendWith, havail]
  rw [htotal] at hlen ⊢
  by_cases hfull : avail ≤ call.total
  · rw [if_pos hfull]
    exact if_pos hfull
  · rw [if_neg hfull, if_neg (show ¬ avail ≤ align8 call.unpadded + 8 from hfull),
      copyAll_eq (by omega), writeRun, hlen]
    rfl

/-! ### Sends are atomic -/

/-- A send reports `Full` or succeeds; it touches nothing in the first case, and in the
second only the run of bytes from the write index on and the write index. -/
structure SendAtomic (call : SendCall) (r : RingHalf) : Prop where
  outcome : (call.run r).1 = .err .full ∨ (call.run r).1 = .ok ()
  full_iff : (call.run r).1 = .err .full ↔ freeSpace r ≤ call.total
  full : (call.run r).1 = .err .full → (call.run r).2 = r
  indices : (call.run r).1 = .ok () →
    (call.run r).2.dataSize = r.dataSize ∧ (call.run r).2.readIndex = r.readIndex ∧
      (call.run r).2.writeIndex ≠ r.readIndex
  frame : (call.run r).1 = .ok () → ∀ i,
    (∀ k < call.total, i ≠ (r.writeIndex.toNat + k) % r.dataSize) →
      (call.run r).2.data i = r.data i
  unread : (call.run r).1 = .ok () →
    window r.dataSize (call.run r).2.data r.readIndex.toNat (outstanding r) =
      window r.dataSize r.data r.readIndex.toNat (outstanding r)

/-- A store touches only the cells of its run. -/
theorem store_of_not_mem {N s i : ℕ} {m : ℕ → UInt8} {xs : List UInt8}
    (h : ∀ k < xs.length, i ≠ (s + k) % N) : store N m s xs i = m i := by
  by_cases hi : i < N
  · refine store_of_le (Nat.le_of_not_lt fun hlt => ?_)
    exact h _ hlt (add_dist hi).symm
  · unfold store
    rw [if_neg hi]

theorem writeRun_ne_read {bytes : List UInt8} (hsize : r.dataSize ≤ 2 ^ 32)
    (hread : r.readIndex.toNat < r.dataSize) (hwrite : r.writeIndex.toNat < r.dataSize)
    (hroom : bytes.length < freeSpace r) (hpos : 0 < bytes.length) :
    (writeRun r bytes).writeIndex ≠ r.readIndex := by
  intro h
  have heq := congrArg UInt32.toNat h
  have hlt := Nat.mod_lt (r.writeIndex.toNat + bytes.length) r.size_pos
  have hfree : freeSpace r ≤ r.dataSize := Nat.sub_le _ _
  rw [writeRun, UInt32.toNat_ofNat', Nat.mod_eq_of_lt (Nat.lt_of_lt_of_le hlt hsize),
    add_mod_eq r.size_pos (by omega), Nat.mod_eq_of_lt hwrite] at heq
  unfold freeSpace outstanding at hroom
  split at heq <;> split at hroom <;> omega

/-- **Sends are atomic and never touch unread data**, on every ring that the `u32`
indices can address. -/
theorem sendAtomic (call : SendCall) (hsize : r.dataSize ≤ 2 ^ 32)
    (hread : r.readIndex.toNat < r.dataSize) (hwrite : r.writeIndex.toNat < r.dataSize) :
    SendAtomic call r := by
  have hfree : freeSpace r ≤ r.dataSize := Nat.sub_le _ _
  have hrun := run_eq_of_sendAvail call (sendAvail_of_lt hread hwrite) hfree
  have hlen := call.length_bytes r
  generalize call.bytes r = bytes at hlen hrun
  by_cases hfull : freeSpace r ≤ call.total
  · rw [if_pos hfull] at hrun
    have hne : (call.run r).1 ≠ .ok () := by
      rw [hrun]
      simp
    refine ⟨.inl (by rw [hrun]), ?_, fun _ => by rw [hrun], fun h => absurd h hne,
      fun h => absurd h hne, fun h => absurd h hne⟩
    rw [hrun]
    exact ⟨fun _ => hfull, fun _ => rfl⟩
  · rw [if_neg hfull] at hrun
    have hne : (call.run r).1 ≠ .err .full := by
      rw [hrun]
      simp
    refine ⟨.inr (by rw [hrun]), ⟨fun h => absurd h hne, fun h => absurd h hfull⟩,
      fun h => absurd h hne, ?_, ?_, ?_⟩ <;> intro _ <;> rw [hrun]
    · refine ⟨rfl, rfl, writeRun_ne_read hsize hread hwrite (by omega) ?_⟩
      rw [hlen, SendCall.total]
      omega
    · intro i hi
      rw [← hlen] at hi
      exact store_of_not_mem hi
    · -- the run starts where the unread bytes end
      have hsplit := read_add_outstanding hread hwrite
      show window r.dataSize (store r.dataSize r.data r.writeIndex.toNat bytes) _ _ = _
      rw [← hsplit, store_mod]
      refine window_store_before ?_
      unfold freeSpace at hfull
      omega

end

/-- A ring with one page, of which half is unread. -/
def halfFull : RingHalf :=
  { oneHeader ⟨vmPktDataInband, 2, 3, 0, 0⟩ 2040 with readIndex := 4088 }

theorem sendAtomic_halfFull :
    halfFull.dataSize ≤ 2 ^ 32 ∧ halfFull.readIndex.toNat < halfFull.dataSize ∧
      halfFull.writeIndex.toNat < halfFull.dataSize ∧
      SendAtomic (.sendPacket [1, 2, 3] 7 1) halfFull :=
  ⟨by decide, by decide, by decide, sendAtomic _ (by decide) (by decide) (by decide)⟩

/-- All but 4120 bytes of the huge ring are unread. -/
def nearlyCut : RingHalf := { hugeRing with writeIndex := 4294967272 }

/-- The write index is cut off to 0, where the read index is: the ring looks empty. -/
theorem not_sendAtomic_nearlyCut :
    nearlyCut.readIndex.toNat < nearlyCut.dataSize ∧
      nearlyCut.writeIndex.toNat < nearlyCut.dataSize ∧ 8 ∣ nearlyCut.readIndex.toNat ∧
      8 ∣ nearlyCut.writeIndex.toNat ∧ ¬ SendAtomic (.sendPacket [] 0 0) nearlyCut := by
  have havail : sendAvail nearlyCut = some 4120 := by decide +kernel
  have hrun := run_eq_of_sendAvail (.sendPacket [] 0 0) havail (by decide)
  have hlen := (SendCall.sendPacket [] 0 0).length_bytes nearlyCut
  have htotal : (SendCall.sendPacket [] 0 0).total = 24 := by decide
  rw [htotal] at hlen hrun
  rw [if_neg (by decide)] at hrun
  refine ⟨by decide, by decide, by decide, by decide, fun hatomic => ?_⟩
  obtain ⟨-, -, hne⟩ := hatomic.indices (by rw [hrun])
  rw [hrun, writeRun, hlen] at hne
  have hcut : UInt32.ofNat ((nearlyCut.writeIndex.toNat + 24) % nearlyCut.dataSize) =
      nearlyCut.readIndex := by decide +kernel
  exact hne hcut

end Ring
