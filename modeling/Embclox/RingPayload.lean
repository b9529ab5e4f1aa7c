/-
The payload that `recv_packet` returns.

`recv_packet_raw` returns everything behind the descriptor and leaves it to its caller
to find the payload; `recv_packet` skips to the payload itself.  The two agree as long
as the offset in the descriptor does not point into the descriptor.

* `OwnPayload` — the bytes `recv_packet` returns are the payload of the packet;
* `ownPayload_of_behind` — that is so for an offset behind the descriptor;
* `ownPayload_iff` — and for no other: with the same descriptor and other bytes behind
  it, `recv_packet` returns bytes that are not payload.
-/
import Embclox.RingRecv
import Mathlib.Logic.Function.Basic

open Bytes Circular Effect

namespace Ring

section

variable {r : RingHalf} {bufLen : ℕ}

theorem length_copyFrom (r : RingHalf) (offset n : ℕ) : (copyFrom r offset n).1.length = n := by
  simp only [copyFrom]
  split
  · rw [List.length_append, Memory.length_read, Memory.length_read]
    omega
  · rw [Memory.length_read]
    omega

/-- Byte `k` of a copy: the second part starts over at the first cell and goes on,
even past the end of the data area. -/
theorem getElem_copyFrom {offset n k : ℕ} (hk : k < n) :
    (copyFrom r offset n).1[k]? =
      some (if k < r.dataSize - offset % r.dataSize then r.data (offset % r.dataSize + k)
        else r.data (k - (r.dataSize - offset % r.dataSize))) := by
  rw [List.getElem?_eq_getElem (by rw [length_copyFrom]; exact hk)]
  congr 1
  simp only [copyFrom]
  split
  · rw [List.getElem_append]
    split
    · rename_i hfirst
      rw [Memory.length_read] at hfirst
      rw [Memory.getElem_read, if_pos (by omega)]
    · rename_i hfirst
      rw [Memory.length_read] at hfirst
      rw [Memory.getElem_read, Memory.length_read, if_neg (by omega)]
      congr 1
      omega
  · rw [Memory.getElem_read, if_pos (by omega)]

/-- What `recv_packet` returns is the payload: as long as the length fields say, at
the offset the descriptor gives, and a part of what `recv_packet_raw` returns, which
moves the read index to the same place. -/
def OwnPayload (bufLen : ℕ) (r : RingHalf) : Prop :=
  ∀ desc bytes r', recvPacket bufLen r = (.ok (some (desc, bytes)), r') →
    bytes.length = min bufLen (8 * desc.len8.toNat - 8 * desc.offset8.toNat) ∧
    (∀ i (hi : i < bytes.length),
      bytes[i] = r.data ((r.readIndex.toNat + (8 * desc.offset8.toNat + i)) % r.dataSize)) ∧
    ∀ rawLen, ∃ raw, recvPacketRaw rawLen r = (.ok (some (desc, raw)), r') ∧
      (8 * desc.offset8.toNat - 16 + bytes.length ≤ rawLen →
        CopyInside r (r.readIndex.toNat + 16) (min (8 * desc.len8.toNat - 16) rawLen) →
        bytes <+: raw.drop (8 * desc.offset8.toNat - 16))

/-- If `recv_packet` returns the first packet, then either the buffer is empty, or the
payload starts behind the descriptor and goes around the data area at most once. -/
def OffsetBehind (bufLen : ℕ) (r : RingHalf) : Prop :=
  accepts r = true → (header r).offset8.toNat ≤ (header r).len8.toNat →
    (header r).offset8.toNat * 8 - 16 ≤ 64 →
    bufLen = 0 ∨ 2 ≤ (header r).offset8.toNat ∧
      CopyInside r (r.readIndex.toNat + (header r).offset8.toNat * 8) (payloadLen bufLen r)

/-- A packet that `recv_packet` returns was accepted, and its payload was reached. -/
theorem recvPacket_some {p : VmPacketDescriptor × List UInt8} {r' : RingHalf}
    (h : recvPacket bufLen r = (.ok (some p), r')) :
    accepts r = true ∧ (header r).offset8.toNat ≤ (header r).len8.toNat ∧
      (header r).offset8.toNat * 8 - 16 ≤ 64 ∧ r' = skip r ∧
      p = (header r, (copyFrom r (payloadPos r) (payloadLen bufLen r)).1) := by
  have hok := accepts_of_some h
  rw [recvPacket_of_accepts hok] at h
  by_cases hin : (header r).len8.toNat * 8 < (header r).offset8.toNat * 8
  · rw [if_pos hin] at h
    exact absurd (congrArg Prod.fst h) (by simp [deliver])
  · by_cases hskip : 80 < (header r).offset8.toNat * 8
    · rw [if_neg hin, if_pos hskip] at h
      exact absurd (congrArg Prod.fst h) (by simp [deliver])
    · rw [if_neg hin, if_neg hskip, deliver] at h
      obtain ⟨hp, hr⟩ := Prod.mk.inj h
      refine ⟨hok, by omega, by omega, hr.symm, ?_⟩
      simpa using hp.symm

theorem recvPacket_of_reached (hok : accepts r = true)
    (hin : (header r).offset8.toNat ≤ (header r).len8.toNat)
    (hskip : (header r).offset8.toNat * 8 - 16 ≤ 64) :
    recvPacket bufLen r =
      (.ok (some (header r, (copyFrom r (payloadPos r) (payloadLen bufLen r)).1)), skip r) := by
  rw [recvPacket_of_accepts hok, if_neg (by omega), if_neg (by omega), deliver]

theorem isPrefix_window (m : ℕ → UInt8) (N s : ℕ) {k n : ℕ} (h : k ≤ n) :
    window N m s k <+: window N m s n := by
  rw [← take_window m s h]
  exact List.take_prefix _ _

theorem drop_window (m : ℕ → UInt8) (N s k n : ℕ) :
    (window N m s (k + n)).drop k = window N m (s + k) n := by
  rw [window_add, List.drop_left' (length_window m s k)]

/-- An offset behind the descriptor makes both receivers agree. -/
theorem ownPayload_of_behind (hb : OffsetBehind bufLen r) : OwnPayload bufLen r := by
  intro desc bytes r' h
  obtain ⟨hok, hin, hskip, rfl, hp⟩ := recvPacket_some h
  obtain ⟨rfl, rfl⟩ := Prod.mk.inj hp
  have hlen : payloadLen bufLen r =
      min bufLen (8 * (header r).len8.toNat - 8 * (header r).offset8.toNat) := by
    rw [payloadLen]
    omega
  -- the bytes are a window at the offset of the descriptor
  have hwindow : (copyFrom r (payloadPos r) (payloadLen bufLen r)).1 = window r.dataSize r.data
      (r.readIndex.toNat + 8 * (header r).offset8.toNat) (payloadLen bufLen r) := by
    rcases hb hok hin hskip with hzero | ⟨h2, hinside⟩
    · have hn : payloadLen bufLen r = 0 := by omega
      rw [hn, copyFrom_eq (Nat.zero_le _)]
      rfl
    · have hpos : payloadPos r = r.readIndex.toNat + (header r).offset8.toNat * 8 := by
        rw [payloadPos, Nat.max_eq_right (by omega)]
      rw [hpos, copyFrom_of_inside hinside, Nat.mul_comm 8]
  refine ⟨?_, ?_, ?_⟩
  · rw [length_copyFrom, hlen]
  · intro i hi
    simp only [hwindow] at hi ⊢
    rw [getElem_window, Nat.add_assoc]
  · intro rawLen
    refine ⟨_, recvPacketRaw_of_accepts hok rawLen, fun hraw hcopy => ?_⟩
    rw [length_copyFrom] at hraw
    rw [Nat.mul_comm 8 (header r).len8.toNat] at hcopy
    rw [hwindow, copyFrom_of_inside hcopy]
    rcases hb hok hin hskip with hzero | ⟨h2, -⟩
    · rw [show payloadLen bufLen r = 0 by omega]
      exact List.nil_prefix
    · have hsplit : min ((header r).len8.toNat * 8 - 16) rawLen =
          (8 * (header r).offset8.toNat - 16) + (min ((header r).len8.toNat * 8 - 16) rawLen -
            (8 * (header r).offset8.toNat - 16)) := by omega
      rw [hsplit, drop_window, show r.readIndex.toNat + 16 + (8 * (header r).offset8.toNat - 16) =
        r.readIndex.toNat + 8 * (header r).offset8.toNat by omega]
      exact isPrefix_window _ _ _ (by omega)

/-- What the bytes that were copied have to be, cell by cell. -/
theorem OwnPayload.cell (hown : OwnPayload bufLen r) (hok : accepts r = true)
    (hin : (header r).offset8.toNat ≤ (header r).len8.toNat)
    (hskip : (header r).offset8.toNat * 8 - 16 ≤ 64) {i : ℕ} (hi : i < payloadLen bufLen r) :
    (if i < r.dataSize - payloadPos r % r.dataSize then r.data (payloadPos r % r.dataSize + i)
      else r.data (i - (r.dataSize - payloadPos r % r.dataSize))) =
    r.data ((r.readIndex.toNat + (8 * (header r).offset8.toNat + i)) % r.dataSize) := by
  obtain ⟨-, hbytes, -⟩ := hown _ _ _ (recvPacket_of_reached hok hin hskip)
  have hlen : i < (copyFrom r (payloadPos r) (payloadLen bufLen r)).1.length := by
    rw [length_copyFrom]
    exact hi
  have hcell := @getElem_copyFrom r (payloadPos r) _ _ hi
  rw [List.getElem?_eq_getElem hlen, hbytes i hlen] at hcell
  exact (Option.some.inj hcell).symm

/-! ### Other bytes behind the same descriptor -/

/-- The ring with other bytes in its data area. -/
def withData (r : RingHalf) (data : ℕ → UInt8) : RingHalf := { r with data := data }

/-- The descriptor is the same. -/
def SameHeader (r : RingHalf) (data : ℕ → UInt8) : Prop :=
  window r.dataSize data r.readIndex.toNat 16 = window r.dataSize r.data r.readIndex.toNat 16

section

variable {data : ℕ → UInt8}

theorem header_withData (h : SameHeader r data) : header (withData r data) = header r :=
  congrArg VmPacketDescriptor.ofBytes h

theorem accepts_withData (h : SameHeader r data) : accepts (withData r data) = accepts r := by
  unfold accepts
  rw [header_withData h]
  rfl

theorem payloadLen_withData (h : SameHeader r data) :
    payloadLen bufLen (withData r data) = payloadLen bufLen r := by
  rw [payloadLen, header_withData h, payloadLen]

theorem payloadPos_withData (h : SameHeader r data) :
    payloadPos (withData r data) = payloadPos r := by
  rw [payloadPos, header_withData h, payloadPos, withData]

theorem offsetBehind_withData (h : SameHeader r data) :
    OffsetBehind bufLen (withData r data) ↔ OffsetBehind bufLen r := by
  unfold OffsetBehind
  rw [accepts_withData h, header_withData h, payloadLen_withData h]
  rfl

/-- What the other bytes have to be, cell by cell. -/
theorem OwnPayload.cell_withData (hown : OwnPayload bufLen (withData r data))
    (h : SameHeader r data) (hok : accepts r = true)
    (hin : (header r).offset8.toNat ≤ (header r).len8.toNat)
    (hskip : (header r).offset8.toNat * 8 - 16 ≤ 64) {i : ℕ} (hi : i < payloadLen bufLen r) :
    (if i < r.dataSize - payloadPos r % r.dataSize then data (payloadPos r % r.dataSize + i)
      else data (i - (r.dataSize - payloadPos r % r.dataSize))) =
    data ((r.readIndex.toNat + (8 * (header r).offset8.toNat + i)) % r.dataSize) := by
  have hcell := hown.cell (i := i) ((accepts_withData h).trans hok)
    (by rw [header_withData h]; exact hin) (by rw [header_withData h]; exact hskip)
    (by rw [payloadLen_withData h]; exact hi)
  rw [header_withData h, payloadPos_withData h] at hcell
  exact hcell

/-- A cell that no byte of the descriptor lies in may be changed. -/
theorem sameHeader_update {i : ℕ} {x : UInt8}
    (h : ∀ k < 16, (r.readIndex.toNat + k) % r.dataSize ≠ i) :
    SameHeader r (Function.update r.data i x) :=
  window_congr fun k hk => Function.update_of_ne (h k hk) x r.data

end

theorem succ_ne (x : UInt8) : x + 1 ≠ x := by
  simp

/-- Two cells that lie less than one turn apart are different. -/
theorem mod_ne {N s a b : ℕ} (ha : a < N) (hb : b < N) (hne : a ≠ b) :
    (s + a) % N ≠ (s + b) % N := by
  intro h
  have hN : 0 < N := by omega
  have hdist := dist_add (s := s) hN ha
  rw [h, dist_add hN hb] at hdist
  exact hne hdist.symm

/-- If the offset points into the descriptor, then the first byte that is copied lies
behind the descriptor and not at the offset. -/
theorem not_own_of_inside (hok : accepts r = true) (hbuf : bufLen ≠ 0)
    (hoff : (header r).offset8.toNat < 2) :
    ∃ data, SameHeader r data ∧ ¬ OwnPayload bufLen (withData r data) := by
  have hsize := size_le r
  obtain ⟨avail, -, h16, -⟩ := accepts_bounds hok
  have hpos : payloadPos r = r.readIndex.toNat + 16 := payloadPos_of_le (by omega)
  have hmod : payloadPos r % r.dataSize < r.dataSize := Nat.mod_lt _ r.size_pos
  -- change the byte right behind the descriptor
  have hsame : SameHeader r (Function.update r.data ((r.readIndex.toNat + 16) % r.dataSize)
      (r.data ((r.readIndex.toNat + 8 * (header r).offset8.toNat) % r.dataSize) + 1)) :=
    sameHeader_update fun k hk => mod_ne (by omega) (by omega) (by omega)
  refine ⟨_, hsame, fun hown => ?_⟩
  have hcell := hown.cell_withData hsame hok (by omega) (by omega) (i := 0)
    (by rw [payloadLen]; omega)
  rw [if_pos (by omega)] at hcell
  simp only [Nat.add_zero, hpos] at hcell
  rw [Function.update_self,
    Function.update_of_ne (mod_ne (by omega) (by omega) (by omega))] at hcell
  exact succ_ne _ hcell

/-- If the payload goes around more than once, then the copy runs past the end of the
data area. -/
theorem not_own_of_outside (hok : accepts r = true)
    (hin : (header r).offset8.toNat ≤ (header r).len8.toNat)
    (hskip : (header r).offset8.toNat * 8 - 16 ≤ 64) (hoff : 2 ≤ (header r).offset8.toNat)
    (hcopy : ¬ CopyInside r (r.readIndex.toNat + (header r).offset8.toNat * 8)
      (payloadLen bufLen r)) :
    ∃ data, SameHeader r data ∧ ¬ OwnPayload bufLen (withData r data) := by
  have hpos : payloadPos r = r.readIndex.toNat + (header r).offset8.toNat * 8 := by
    rw [payloadPos, Nat.max_eq_right (by omega)]
  have hmod : payloadPos r % r.dataSize < r.dataSize := Nat.mod_lt _ r.size_pos
  rw [← hpos] at hcopy
  unfold CopyInside at hcopy
  -- change the cell behind the data area
  have hsame : SameHeader r (Function.update r.data r.dataSize (r.data 0 + 1)) :=
    sameHeader_update fun k _ => Nat.ne_of_lt (Nat.mod_lt _ r.size_pos)
  refine ⟨_, hsame, fun hown => ?_⟩
  have hcell := hown.cell_withData hsame hok hin hskip
    (i := 2 * r.dataSize - payloadPos r % r.dataSize) (by omega)
  have hzero : (r.readIndex.toNat + (8 * (header r).offset8.toNat +
      (2 * r.dataSize - payloadPos r % r.dataSize))) % r.dataSize = 0 := by
    rw [← Nat.add_assoc, Nat.mul_comm 8, ← hpos, ← Nat.mod_add_mod, Nat.add_sub_cancel' (by omega),
      Nat.mul_mod_left]
  rw [if_neg (by omega), hzero, show 2 * r.dataSize - payloadPos r % r.dataSize -
      (r.dataSize - payloadPos r % r.dataSize) = r.dataSize by omega, Function.update_self,
    Function.update_of_ne (Nat.ne_of_lt r.size_pos)] at hcell
  exact succ_ne _ hcell

/-- **`recv_packet` returns the packet's own payload**, whatever the bytes behind the
descriptor are, exactly if the offset in the descriptor points behind it. -/
theorem ownPayload_iff (bufLen : ℕ) (r : RingHalf) :
    (∀ data, SameHeader r data → OwnPayload bufLen (withData r data)) ↔
      OffsetBehind bufLen r := by
  constructor
  · intro hown hok hin hskip
    by_cases hbuf : bufLen = 0
    · exact .inl hbuf
    · have hoff : 2 ≤ (header r).offset8.toNat := by
        by_contra hoff
        obtain ⟨data, hsame, hnot⟩ := not_own_of_inside hok hbuf (by omega)
        exact hnot (hown data hsame)
      refine .inr ⟨hoff, ?_⟩
      by_contra hcopy
      obtain ⟨data, hsame, hnot⟩ := not_own_of_outside hok hin hskip hoff hcopy
      exact hnot (hown data hsame)
  · intro hb data hsame
    exact ownPayload_of_behind ((offsetBehind_withData hsame).mpr hb)

end

/-- An in-band packet of 24 bytes whose offset is 0. -/
def offsetZero : RingHalf := oneHeader ⟨vmPktDataInband, 0, 3, 0, 0⟩ 32

/-- The first byte returned lies at 16 instead of 0, and the last eight are the first
ones of the next packet. -/
theorem not_ownPayload_offsetZero : ¬ OwnPayload 256 offsetZero := by
  intro hown
  have hcell := hown.cell (i := 0) (by decide +kernel) (by decide +kernel) (by decide +kernel)
    (by decide +kernel)
  revert hcell
  decide +kernel

end Ring
