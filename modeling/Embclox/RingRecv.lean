/-
The receivers of the VMBus ring on data that the host may have written.

Only the read index is trusted here: the write index is any 32-bit value, and every
byte of the data area, so every field of the descriptor, is arbitrary.

* `accepts r` — the first packet passes the two length checks that both receivers
  make; `recvCases` splits every receive along them;
* `recvPacketChecked`, `recvPacketRawChecked` — the receivers with every copy out of
  the data area checked against its size; where the check passes they are the
  receivers themselves (`recvPacketChecked_eq`, `recvPacketRawChecked_eq`);
* `recvSafe_iff` — `recv_packet` does not panic exactly if the header before the
  payload fits into the skip buffer of 64 bytes and the payload goes around the data
  area at most once;
* `rawRobust` — `recv_packet_raw` never panics, returns the bytes behind the
  descriptor and moves the read index behind the packet.
-/
import Embclox.RingFifo

open Bytes Circular Effect

namespace Ring

/-! ### What both receivers look at -/

/-- The bytes between the two indices, as a reader whose own index is in range
counts them. -/
def outstanding (r : RingHalf) : ℕ :=
  if r.readIndex.toNat ≤ r.writeIndex.toNat then r.writeIndex.toNat - r.readIndex.toNat
  else r.dataSize - (r.readIndex.toNat - r.writeIndex.toNat)

theorem recvAvail_of_lt {r : RingHalf} (hread : r.readIndex.toNat < r.dataSize) :
    recvAvail r = some (outstanding r) := by
  rw [recvAvail, outstanding]
  by_cases hle : r.readIndex.toNat ≤ r.writeIndex.toNat
  · rw [if_pos hle, if_pos hle]
  · rw [if_neg hle, if_neg hle, if_pos (by omega)]

theorem outstanding_lt {r : RingHalf} (hread : r.readIndex.toNat < r.dataSize)
    (hwrite : r.writeIndex.toNat < r.dataSize) : outstanding r < r.dataSize := by
  unfold outstanding
  split <;> omega

/-- The descriptor at the read index. -/
def header (r : RingHalf) : VmPacketDescriptor :=
  .ofBytes (window r.dataSize r.data r.readIndex.toNat 16)

/-- The first packet passes the length checks. -/
def accepts (r : RingHalf) : Bool :=
  match recvAvail r with
  | none => false
  | some avail =>
    decide (16 ≤ (header r).len8.toNat * 8 ∧ (header r).len8.toNat * 8 + 8 ≤ avail)

/-- The ring behind its first packet. -/
def skip (r : RingHalf) : RingHalf :=
  { r with readIndex :=
      UInt32.ofNat ((r.readIndex.toNat + ((header r).len8.toNat * 8 + 8)) % r.dataSize) }

/-- What a receiver returns for a packet that it accepted. -/
def deliver (r : RingHalf) :
    Outcome RingError (List UInt8) →
      Outcome RingError (Option (VmPacketDescriptor × List UInt8)) × RingHalf
  | .ok bytes => (.ok (some (header r, bytes)), skip r)
  | .err e => (.err e, r)
  | .panic => (.panic, r)

theorem size_le (r : RingHalf) : 4096 ≤ r.dataSize := Nat.le_of_dvd r.size_pos r.size_dvd

section

variable {r : RingHalf} {avail : ℕ}
  {body : RingHalf → VmPacketDescriptor → ℕ → Outcome RingError (List UInt8)}

theorem accepts_eq (havail : recvAvail r = some avail) :
    accepts r = decide (16 ≤ (header r).len8.toNat * 8 ∧
      (header r).len8.toNat * 8 + 8 ≤ avail) := by
  rw [accepts, havail]

/-- The receivers after the descriptor was read. -/
theorem recvWith_of_avail (havail : recvAvail r = some avail) (hne : avail ≠ 0) :
    recvWith body r =
      if accepts r = true then deliver r (body r (header r) ((r.readIndex.toNat + 16) % r.dataSize))
      else (.err .corrupt, r) := by
  have hsize := size_le r
  simp only [recvWith, havail, if_neg hne]
  rw [copyFrom_eq (show 16 ≤ r.dataSize by omega)]
  simp only [← header.eq_1]
  by_cases hok : 16 ≤ (header r).len8.toNat * 8 ∧ (header r).len8.toNat * 8 + 8 ≤ avail
  · have haccepts : accepts r = true := (accepts_eq havail).trans (decide_eq_true hok)
    rw [if_pos haccepts, if_neg (show ¬ avail < 16 by omega), if_neg (by omega)]
    rfl
  · have haccepts : accepts r ≠ true := by
      rw [accepts_eq havail]
      exact fun h => hok (of_decide_eq_true h)
    rw [if_neg haccepts]
    by_cases hshort : avail < 16
    · rw [if_pos hshort]
    · rw [if_neg hshort, if_pos (by omega)]

/-- **Every receive** panics on the index difference, finds the ring empty, rejects
the first packet by its length, or goes on with it. -/
theorem recvCases (r : RingHalf) :
    (recvAvail r = none ∧ accepts r = false ∧ ∀ body, recvWith body r = (.panic, r)) ∨
    (recvAvail r = some 0 ∧ accepts r = false ∧ ∀ body, recvWith body r = (.ok none, r)) ∨
    ((∃ avail, avail ≠ 0 ∧ recvAvail r = some avail) ∧ accepts r = false ∧
      ∀ body, recvWith body r = (.err .corrupt, r)) ∨
    (accepts r = true ∧ ∀ body, recvWith body r =
      deliver r (body r (header r) ((r.readIndex.toNat + 16) % r.dataSize))) := by
  rcases havail : recvAvail r with - | avail
  · refine .inl ⟨rfl, by rw [accepts, havail], fun body => ?_⟩
    simp only [recvWith, havail]
  · by_cases hne : avail = 0
    · subst hne
      refine .inr (.inl ⟨rfl, ?_, fun body => ?_⟩)
      · rw [accepts_eq havail]
        exact decide_eq_false (by omega)
      · simp only [recvWith, havail, if_pos]
    · by_cases hok : accepts r = true
      · exact .inr (.inr (.inr ⟨hok, fun body => by rw [recvWith_of_avail havail hne, if_pos hok]⟩))
      · refine .inr (.inr (.inl ⟨⟨avail, hne, rfl⟩, by simpa using hok, fun body => ?_⟩))
        rw [recvWith_of_avail havail hne, if_neg hok]

/-- An accepted packet has a length that the index difference allows. -/
theorem accepts_bounds (hok : accepts r = true) :
    ∃ avail, recvAvail r = some avail ∧ 16 ≤ (header r).len8.toNat * 8 ∧
      (header r).len8.toNat * 8 + 8 ≤ avail := by
  rcases havail : recvAvail r with - | avail
  · rw [accepts, havail] at hok
    exact absurd hok Bool.false_ne_true
  · rw [accepts_eq havail] at hok
    obtain ⟨h16, hle⟩ := of_decide_eq_true hok
    exact ⟨avail, rfl, h16, hle⟩

theorem recvWith_of_accepts (hok : accepts r = true) :
    recvWith body r =
      deliver r (body r (header r) ((r.readIndex.toNat + 16) % r.dataSize)) := by
  obtain ⟨avail, havail, h16, hle⟩ := accepts_bounds hok
  rw [recvWith_of_avail havail (by omega), if_pos hok]

/-- A packet that is returned was accepted. -/
theorem accepts_of_some {p : VmPacketDescriptor × List UInt8} {r' : RingHalf}
    (h : recvWith body r = (.ok (some p), r')) : accepts r = true := by
  rcases recvCases r with ⟨-, -, hr⟩ | ⟨-, -, hr⟩ | ⟨-, -, hr⟩ | ⟨hok, -⟩
  · rw [hr] at h
    exact absurd (congrArg Prod.fst h) (by simp)
  · rw [hr] at h
    exact absurd (congrArg Prod.fst h) (by simp)
  · rw [hr] at h
    exact absurd (congrArg Prod.fst h) (by simp)
  · exact hok

/-- What is done with the packet does not matter if it is not accepted. -/
theorem recvWith_of_rejects (hok : accepts r = false)
    (body' : RingHalf → VmPacketDescriptor → ℕ → Outcome RingError (List UInt8)) :
    recvWith body r = recvWith body' r := by
  rcases recvCases r with ⟨-, -, hr⟩ | ⟨-, -, hr⟩ | ⟨-, -, hr⟩ | ⟨hacc, -⟩
  · rw [hr, hr]
  · rw [hr, hr]
  · rw [hr, hr]
  · rw [hacc] at hok
    exact absurd hok.symm Bool.false_ne_true

end

/-! ### Copies that stay inside the data area -/

/-- The second part of the copy, which starts at the beginning of the data area,
ends inside it. -/
def CopyInside (r : RingHalf) (offset n : ℕ) : Prop := offset % r.dataSize + n ≤ 2 * r.dataSize

instance (r : RingHalf) (offset n : ℕ) : Decidable (CopyInside r offset n) :=
  inferInstanceAs (Decidable (_ ≤ _))

theorem copyInside_of_le {r : RingHalf} {n : ℕ} (h : n ≤ r.dataSize) (offset : ℕ) :
    CopyInside r offset n := by
  have hoff : offset % r.dataSize < r.dataSize := Nat.mod_lt _ r.size_pos
  unfold CopyInside
  omega

/-- `copy_from`, with both runs of bytes checked against the data area. -/
def copyFromChecked (r : RingHalf) (offset n : ℕ) : Outcome RingError (List UInt8 × ℕ) :=
  let off := offset % r.dataSize
  let first := min (r.dataSize - off) n
  if off + first ≤ r.dataSize ∧ n - first ≤ r.dataSize then .ok (copyFrom r offset n) else .panic

theorem copyFromChecked_eq (r : RingHalf) (offset n : ℕ) :
    copyFromChecked r offset n =
      if CopyInside r offset n then .ok (copyFrom r offset n) else .panic := by
  have hoff : offset % r.dataSize < r.dataSize := Nat.mod_lt _ r.size_pos
  simp only [copyFromChecked]
  by_cases h : CopyInside r offset n
  · rw [if_pos h, if_pos (by unfold CopyInside at h; omega)]
  · rw [if_neg h, if_neg (by unfold CopyInside at h; omega)]

/-- The bytes of a checked copy. -/
def takeBytes : Outcome RingError (List UInt8 × ℕ) → Outcome RingError (List UInt8)
  | .ok (bytes, _) => .ok bytes
  | .err e => .err e
  | .panic => .panic

/-- `recv_packet` with checked copies.  The descriptor itself is 16 bytes, and no
data area is that short. -/
def recvPacketChecked (bufLen : ℕ) :
    Prog RingHalf RingError (Option (VmPacketDescriptor × List UInt8)) :=
  recvWith fun r desc pos =>
    let packetLen := desc.len8.toNat * 8
    let dataOffset := desc.offset8.toNat * 8
    if packetLen < dataOffset then .err .corrupt
    else
      let payloadLen := packetLen - dataOffset
      let copyLen := min payloadLen bufLen
      if 16 < dataOffset then
        if 64 < dataOffset - 16 then .panic
        else
          match copyFromChecked r pos (dataOffset - 16) with
          | .ok (_, payloadPos) => takeBytes (copyFromChecked r payloadPos copyLen)
          | .err e => .err e
          | .panic => .panic
      else takeBytes (copyFromChecked r pos copyLen)

/-- `recv_packet_raw` with checked copies. -/
def recvPacketRawChecked (bufLen : ℕ) :
    Prog RingHalf RingError (Option (VmPacketDescriptor × List UInt8)) :=
  recvWith fun r desc pos =>
    takeBytes (copyFromChecked r pos (min (desc.len8.toNat * 8 - 16) bufLen))

/-- The bytes of the first packet that `recv_packet` copies. -/
def payloadLen (bufLen : ℕ) (r : RingHalf) : ℕ :=
  min ((header r).len8.toNat * 8 - (header r).offset8.toNat * 8) bufLen

/-- Where `recv_packet` starts to copy: at the payload, but never before the end of
the descriptor. -/
def payloadPos (r : RingHalf) : ℕ := r.readIndex.toNat + max 16 ((header r).offset8.toNat * 8)

section

variable {r : RingHalf} {bufLen : ℕ}

/-- The position after the skipped header. -/
theorem skip_pos (hskip : 16 < (header r).offset8.toNat * 8) :
    (copyFrom r ((r.readIndex.toNat + 16) % r.dataSize) ((header r).offset8.toNat * 8 - 16)).2 =
      payloadPos r % r.dataSize := by
  show ((r.readIndex.toNat + 16) % r.dataSize % r.dataSize + _) % r.dataSize = _
  rw [Nat.mod_mod, Nat.mod_add_mod, payloadPos]
  congr 1
  omega

theorem payloadPos_of_le (hskip : ¬ 16 < (header r).offset8.toNat * 8) :
    payloadPos r = r.readIndex.toNat + 16 := by
  rw [payloadPos, Nat.max_eq_left (by omega)]

theorem copyFrom_mod (offset n : ℕ) : copyFrom r (offset % r.dataSize) n = copyFrom r offset n := by
  rw [copyFrom, copyFrom, Nat.mod_mod]

theorem copyFromChecked_mod (offset n : ℕ) :
    copyFromChecked r (offset % r.dataSize) n = copyFromChecked r offset n := by
  rw [copyFromChecked, copyFromChecked, Nat.mod_mod, copyFrom_mod]

/-- The cases of the data offset: the header that is skipped has at most 64 bytes, and
skipping it or not leads to the same copy. -/
theorem offset_cases {α : Type} {packetLen dataOffset : ℕ} {corrupt panic skipped direct copied : α}
    (hskip : 16 < dataOffset → dataOffset - 16 ≤ 64 → skipped = copied)
    (hdirect : ¬ 16 < dataOffset → direct = copied) :
    (if packetLen < dataOffset then corrupt
      else if 16 < dataOffset then if 64 < dataOffset - 16 then panic else skipped
      else direct) =
    if packetLen < dataOffset then corrupt else if 80 < dataOffset then panic else copied := by
  by_cases hin : packetLen < dataOffset
  · rw [if_pos hin, if_pos hin]
  · rw [if_neg hin, if_neg hin]
    by_cases hoff : 16 < dataOffset
    · rw [if_pos hoff]
      by_cases hbuf : 64 < dataOffset - 16
      · rw [if_pos hbuf, if_pos (by omega)]
      · rw [if_neg hbuf, if_neg (by omega)]
        exact hskip hoff (by omega)
    · rw [if_neg hoff, if_neg (by omega)]
      exact hdirect hoff

/-- What `recv_packet` does with a packet it accepted. -/
theorem recvPacket_of_accepts (hok : accepts r = true) (bufLen : ℕ) :
    recvPacket bufLen r = deliver r
      (if (header r).len8.toNat * 8 < (header r).offset8.toNat * 8 then .err .corrupt
       else if 80 < (header r).offset8.toNat * 8 then .panic
       else .ok (copyFrom r (payloadPos r) (payloadLen bufLen r)).1) := by
  rw [recvPacket, recvWith_of_accepts hok]
  congr 1
  simp only [← payloadLen.eq_1]
  refine offset_cases (fun hskip _ => ?_) fun hskip => ?_
  · rw [skip_pos hskip, copyFrom_mod]
  · rw [payloadPos_of_le hskip, copyFrom_mod]

/-- With checked copies it panics also if the payload does not lie in the data
area. -/
theorem recvPacketChecked_of_accepts (hok : accepts r = true) (bufLen : ℕ) :
    recvPacketChecked bufLen r = deliver r
      (if (header r).len8.toNat * 8 < (header r).offset8.toNat * 8 then .err .corrupt
       else if 80 < (header r).offset8.toNat * 8 then .panic
       else takeBytes (copyFromChecked r (payloadPos r) (payloadLen bufLen r))) := by
  have hsize := size_le r
  rw [recvPacketChecked, recvWith_of_accepts hok]
  congr 1
  simp only [← payloadLen.eq_1]
  refine offset_cases (fun hskip hbuf => ?_) fun hskip => ?_
  · -- at most 64 bytes are skipped, so that copy stays inside
    have hinside := copyInside_of_le (r := r) (n := (header r).offset8.toNat * 8 - 16)
      (by omega) ((r.readIndex.toNat + 16) % r.dataSize)
    rw [copyFromChecked_eq, if_pos hinside]
    dsimp only
    rw [skip_pos hskip, copyFromChecked_mod]
  · rw [payloadPos_of_le hskip, copyFromChecked_mod]

theorem takeBytes_copyFromChecked (r : RingHalf) (offset n : ℕ) :
    takeBytes (copyFromChecked r offset n) =
      if CopyInside r offset n then .ok (copyFrom r offset n).1 else .panic := by
  rw [copyFromChecked_eq]
  by_cases h : CopyInside r offset n
  · rw [if_pos h, if_pos h, takeBytes]
  · rw [if_neg h, if_neg h, takeBytes]

theorem recvPacketRaw_of_accepts (hok : accepts r = true) (bufLen : ℕ) :
    recvPacketRaw bufLen r = deliver r (.ok (copyFrom r (r.readIndex.toNat + 16)
      (min ((header r).len8.toNat * 8 - 16) bufLen)).1) := by
  rw [recvPacketRaw, recvWith_of_accepts hok, copyFrom_mod]

theorem recvPacketRawChecked_of_accepts (hok : accepts r = true) (bufLen : ℕ) :
    recvPacketRawChecked bufLen r = deliver r (takeBytes (copyFromChecked r
      (r.readIndex.toNat + 16) (min ((header r).len8.toNat * 8 - 16) bufLen))) := by
  rw [recvPacketRawChecked, recvWith_of_accepts hok, copyFromChecked_mod]

/-- Where the checks pass, the checked receiver is the receiver. -/
theorem recvPacketChecked_eq (h : (recvPacketChecked bufLen r).1 ≠ .panic) :
    recvPacketChecked bufLen r = recvPacket bufLen r := by
  by_cases hok : accepts r = true
  · rw [recvPacketChecked_of_accepts hok, takeBytes_copyFromChecked] at h ⊢
    rw [recvPacket_of_accepts hok]
    by_cases hin : (header r).len8.toNat * 8 < (header r).offset8.toNat * 8
    · rw [if_pos hin, if_pos hin]
    · by_cases hskip : 80 < (header r).offset8.toNat * 8
      · rw [if_neg hin, if_neg hin, if_pos hskip, if_pos hskip]
      · by_cases hcopy : CopyInside r (payloadPos r) (payloadLen bufLen r)
        · rw [if_pos hcopy]
        · rw [if_neg hin, if_neg hskip, if_neg hcopy] at h
          exact absurd rfl h
  · exact recvWith_of_rejects (eq_false_of_ne_true hok) _

theorem recvPacketRawChecked_eq (h : (recvPacketRawChecked bufLen r).1 ≠ .panic) :
    recvPacketRawChecked bufLen r = recvPacketRaw bufLen r := by
  by_cases hok : accepts r = true
  · rw [recvPacketRawChecked_of_accepts hok, takeBytes_copyFromChecked] at h ⊢
    rw [recvPacketRaw_of_accepts hok]
    by_cases hcopy : CopyInside r (r.readIndex.toNat + 16)
        (min ((header r).len8.toNat * 8 - 16) bufLen)
    · rw [if_pos hcopy]
    · rw [if_neg hcopy] at h
      exact absurd rfl h
  · exact recvWith_of_rejects (eq_false_of_ne_true hok) _

/-! ### `recv_packet` on any data -/

/-- `recv_packet` ends with a packet, with none, or with `Corrupt`, and in the last
two cases the ring is as it was. -/
structure RecvSafe (bufLen : ℕ) (r : RingHalf) : Prop where
  no_panic : (recvPacketChecked bufLen r).1 ≠ .panic
  corrupt : ∀ e, (recvPacketChecked bufLen r).1 = .err e → e = .corrupt
  unchanged : (∀ p, (recvPacketChecked bufLen r).1 ≠ .ok (some p)) →
    (recvPacketChecked bufLen r).2 = r

/-- If the first packet is accepted and its payload does not start behind its end,
then the header before the payload fits into the skip buffer, and the payload goes
around the data area at most once. -/
def SkipFits (bufLen : ℕ) (r : RingHalf) : Prop :=
  accepts r = true → (header r).offset8.toNat ≤ (header r).len8.toNat →
    (header r).offset8.toNat * 8 - 16 ≤ 64 ∧ CopyInside r (payloadPos r) (payloadLen bufLen r)

/-- A receiver that gives back its outcome and leaves the ring alone unless it returns
a packet. -/
theorem recvSafe_of_eq {o : Outcome RingError (Option (VmPacketDescriptor × List UInt8))}
    (h : recvPacketChecked bufLen r = (o, r)) (hpanic : o ≠ .panic)
    (hcorrupt : ∀ e, o = .err e → e = .corrupt) : RecvSafe bufLen r := by
  refine ⟨?_, ?_, ?_⟩
  · rw [h]
    exact hpanic
  · intro e he
    rw [h] at he
    exact hcorrupt e he
  · intro _
    rw [h]

/-- **`recv_packet` is safe exactly if** the header of a packet that it goes on with
fits into the skip buffer and its payload into the data area. -/
theorem recvSafe_iff (hread : r.readIndex.toNat < r.dataSize) (bufLen : ℕ) :
    RecvSafe bufLen r ↔ SkipFits bufLen r := by
  rcases recvCases r with ⟨hnone, -, -⟩ | ⟨-, hacc, hr⟩ | ⟨-, hacc, hr⟩ | ⟨hok, -⟩
  · rw [recvAvail_of_lt hread] at hnone
    exact absurd hnone (by simp)
  · -- nothing to read
    refine ⟨fun _ h => absurd (hacc ▸ h) Bool.false_ne_true, fun _ => ?_⟩
    exact recvSafe_of_eq (hr _) (by simp) (by simp)
  · -- a length that cannot be right
    refine ⟨fun _ h => absurd (hacc ▸ h) Bool.false_ne_true, fun _ => ?_⟩
    exact recvSafe_of_eq (hr _) (by simp) (by simp)
  · have heq := recvPacketChecked_of_accepts hok bufLen
    rw [takeBytes_copyFromChecked] at heq
    by_cases hin : (header r).len8.toNat * 8 < (header r).offset8.toNat * 8
    · rw [if_pos hin] at heq
      refine ⟨fun _ _ h => absurd h (by omega), fun _ => ?_⟩
      exact recvSafe_of_eq heq (by simp) (by simp)
    · rw [if_neg hin] at heq
      constructor
      · intro hsafe _ _
        have hpanic := hsafe.no_panic
        rw [heq] at hpanic
        by_cases hskip : 80 < (header r).offset8.toNat * 8
        · rw [if_pos hskip] at hpanic
          exact absurd rfl hpanic
        · rw [if_neg hskip] at hpanic
          refine ⟨by omega, ?_⟩
          by_contra hcopy
          rw [if_neg hcopy] at hpanic
          exact hpanic rfl
      · intro hfits
        obtain ⟨hskip, hcopy⟩ := hfits hok (by omega)
        rw [if_neg (by omega), if_pos hcopy, deliver] at heq
        refine ⟨?_, ?_, ?_⟩
        · rw [heq]
          simp
        · intro e he
          rw [heq] at he
          exact absurd he (by simp)
        · intro hnone
          rw [heq] at hnone
          exact absurd rfl (hnone _)

instance (bufLen : ℕ) (r : RingHalf) : Decidable (SkipFits bufLen r) :=
  inferInstanceAs (Decidable (_ → _ → _ ∧ _))

end

/-- A ring of one page with this packet descriptor at its start, and `write` bytes to
read. -/
def oneHeader (desc : VmPacketDescriptor) (write : UInt32) : RingHalf :=
  { freshRing 4096 (Memory.write (fun _ => 0) 0 desc.toBytes) (by decide) (by decide) with
    writeIndex := write }

/-- An in-band packet with 8 bytes of payload. -/
def inbandRing : RingHalf := oneHeader ⟨vmPktDataInband, 2, 3, 0, 0⟩ 32

theorem recvSafe_inbandRing :
    inbandRing.readIndex.toNat < inbandRing.dataSize ∧ RecvSafe 256 inbandRing :=
  ⟨by decide, (recvSafe_iff (by decide) 256).mpr (by decide +kernel)⟩

/-- A transfer-page packet with eight ranges and nothing after them: 88 bytes. -/
def eightRanges : RingHalf := oneHeader ⟨vmPktDataUsingXferPages, 11, 11, 1, 0⟩ 96

/-- Skipping the ranges takes 72 bytes of a buffer that has 64. -/
theorem recvPacket_panics_eightRanges :
    eightRanges.readIndex.toNat < eightRanges.dataSize ∧ (recvPacket 256 eightRanges).1 = .panic ∧
      ¬ RecvSafe 256 eightRanges := by
  have hheader : header eightRanges = ⟨vmPktDataUsingXferPages, 11, 11, 1, 0⟩ := by decide +kernel
  have hok : accepts eightRanges = true := by decide +kernel
  have hpanic : (recvPacket 256 eightRanges).1 = .panic := by
    rw [recvPacket_of_accepts hok, hheader]
    rfl
  refine ⟨by decide, hpanic, fun hsafe => ?_⟩
  rw [← recvPacketChecked_eq hsafe.no_panic] at hpanic
  exact hsafe.no_panic hpanic

/-! ### `recv_packet_raw` on any data -/

section

variable {r : RingHalf} {bufLen : ℕ}

/-- The read index behind the first packet, if the control page can hold it. -/
theorem skip_readIndex (hsize : r.dataSize ≤ 2 ^ 32) :
    (skip r).readIndex.toNat =
      (r.readIndex.toNat + ((header r).len8.toNat * 8 + 8)) % r.dataSize := by
  have hlt := Nat.mod_lt (r.readIndex.toNat + ((header r).len8.toNat * 8 + 8)) r.size_pos
  rw [skip, UInt32.toNat_ofNat', Nat.mod_eq_of_lt (Nat.lt_of_lt_of_le hlt hsize)]

/-- `recv_packet_raw` leaves the ring alone, or returns the bytes behind the
descriptor of a packet that passes the length checks and moves the read index behind
it. -/
def RawRobust (bufLen : ℕ) (r : RingHalf) : Prop :=
  recvPacketRawChecked bufLen r = (.ok none, r) ∨
  recvPacketRawChecked bufLen r = (.err .corrupt, r) ∨
  ∃ avail desc bytes readIndex, recvAvail r = some avail ∧
    recvPacketRawChecked bufLen r =
      (.ok (some (desc, bytes)), { r with readIndex := readIndex }) ∧
    16 ≤ 8 * desc.len8.toNat ∧ 8 * desc.len8.toNat + 8 ≤ avail ∧
    bytes.length ≤ bufLen ∧ bytes.length ≤ 8 * desc.len8.toNat - 16 ∧
    (∀ i (hi : i < bytes.length),
      bytes[i] = r.data ((r.readIndex.toNat + 16 + i) % r.dataSize)) ∧
    readIndex.toNat = (r.readIndex.toNat + 8 * desc.len8.toNat + 8) % r.dataSize ∧
    readIndex.toNat < r.dataSize

/-- **`recv_packet_raw` is robust** on every ring that the `u32` indices can address,
whatever the host wrote. -/
theorem rawRobust (hread : r.readIndex.toNat < r.dataSize) (hsize : r.dataSize ≤ 2 ^ 32)
    (hbuf : bufLen ≤ r.dataSize) : RawRobust bufLen r := by
  rcases recvCases r with ⟨hnone, -, -⟩ | ⟨-, -, hr⟩ | ⟨-, -, hr⟩ | ⟨hok, -⟩
  · rw [recvAvail_of_lt hread] at hnone
    exact absurd hnone (by simp)
  · exact .inl (hr _)
  · exact .inr (.inl (hr _))
  · obtain ⟨avail, havail, h16, hle⟩ := accepts_bounds hok
    generalize hn : min ((header r).len8.toNat * 8 - 16) bufLen = n
    have hinside := copyInside_of_le (r := r) (n := n) (by omega) (r.readIndex.toNat + 16)
    have heq := recvPacketRawChecked_of_accepts hok bufLen
    rw [hn, takeBytes_copyFromChecked, if_pos hinside, copyFrom_of_inside hinside] at heq
    have hskip := skip_readIndex hsize
    refine .inr (.inr ⟨avail, header r, _, (skip r).readIndex, havail, heq, by omega, by omega, ?_,
      ?_, ?_, ?_, ?_⟩)
    · rw [length_window]
      omega
    · rw [length_window]
      omega
    · intro i hi
      exact getElem_window hi
    · rw [hskip]
      congr 1
      omega
    · rw [hskip]
      exact Nat.mod_lt _ r.size_pos

end

/-- The host says that far more is to be read than the data area holds. -/
def lyingRing : RingHalf := oneHeader ⟨vmPktDataUsingXferPages, 65535, 65535, 0, 0⟩ 4294967295

theorem rawRobust_lyingRing :
    lyingRing.readIndex.toNat < lyingRing.dataSize ∧ lyingRing.dataSize ≤ 2 ^ 32 ∧
      512 ≤ lyingRing.dataSize ∧ accepts lyingRing = true ∧ RawRobust 512 lyingRing :=
  ⟨by decide, by decide, by decide, by decide +kernel,
    rawRobust (by decide) (by decide) (by decide)⟩

/-- A packet of 24 bytes that ends beyond the last position that an index can hold. -/
def beyondIndex : RingHalf :=
  { hugeRing with readIndex := 4294967288, data := fun i => if i = 2 ^ 32 - 4 then 2 else 0 }

/-- The read index is cut off: it moves to 16 instead of 2 ^ 32 + 16. -/
theorem not_rawRobust_beyondIndex :
    beyondIndex.readIndex.toNat < beyondIndex.dataSize ∧ 512 ≤ beyondIndex.dataSize ∧
      ¬ RawRobust 512 beyondIndex := by
  have hheader : (header beyondIndex).len8 = 2 := by decide +kernel
  have hok : accepts beyondIndex = true := by decide +kernel
  have hfits : min ((header beyondIndex).len8.toNat * 8 - 16) 512 ≤ beyondIndex.dataSize :=
    Nat.le_trans (Nat.min_le_right _ _) (by decide)
  have heq := recvPacketRawChecked_of_accepts hok 512
  rw [takeBytes_copyFromChecked, if_pos (copyInside_of_le hfits _)] at heq
  refine ⟨by decide, by decide, ?_⟩
  rintro (h | h | ⟨avail, desc, bytes, readIndex, -, h, -, -, -, -, -, hnew, -⟩)
  · rw [heq] at h
    exact absurd (congrArg Prod.fst h) (by simp [deliver])
  · rw [heq] at h
    exact absurd (congrArg Prod.fst h) (by simp [deliver])
  · rw [heq] at h
    have hdesc : header beyondIndex = desc := by
      have := congrArg Prod.fst h
      simp only [deliver, Outcome.ok.injEq, Option.some.injEq, Prod.mk.injEq] at this
      exact this.1
    have hindex : (skip beyondIndex).readIndex = readIndex :=
      congrArg (fun x => x.2.readIndex) h
    rw [← hdesc, hheader, ← hindex, skip, hheader] at hnew
    exact absurd hnew (by decide +kernel)

end Ring
