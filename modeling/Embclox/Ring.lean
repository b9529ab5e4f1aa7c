/-
The VMBus ring buffer.

A ring half is a control page with the two `u32` indices and a circular data area.
Every packet is a 16-byte descriptor, an optional extra header, the payload, zero
padding to 8 bytes, and 8 trailing bytes with the previous indices.

* `sendWith` — the three senders, which differ in the packet type and in the header
  between descriptor and payload;
* `recvWith` — the two receivers, which differ in the part of the packet they copy;
* `Repr r q` — the unread packets of the ring are `q`;
* `sendWith_ok`, `sendWith_full` — a send appends a packet or changes nothing;
* `recvPacketRaw_cons`, `recvPacket_cons` — a receive removes the first packet.
-/
import Embclox.Bytes
import Embclox.Circular
import Embclox.Effect
import Embclox.Memory

open Bytes Circular Effect

namespace Ring

/-! ### Descriptors -/

/-- VMBus packet descriptor (16 bytes). -/
structure VmPacketDescriptor where
  packetType : UInt16
  /-- Offset from packet start to payload, in 8-byte units. -/
  offset8 : UInt16
  /-- Total packet length in 8-byte units. -/
  len8 : UInt16
  flags : UInt16
  transactionId : UInt64
  deriving DecidableEq

def vmPktDataInband : UInt16 := 6
def vmPktDataUsingXferPages : UInt16 := 7
def vmPktDataUsingGpaDirect : UInt16 := 8
def vmPktComp : UInt16 := 11
def vmbusDataPacketFlagCompletionRequested : UInt16 := 1

/-- The descriptor as it lies in memory. -/
def VmPacketDescriptor.toBytes (desc : VmPacketDescriptor) : List UInt8 :=
  le16 desc.packetType ++ (le16 desc.offset8 ++ (le16 desc.len8 ++
    (le16 desc.flags ++ le64 desc.transactionId)))

def VmPacketDescriptor.ofBytes (bs : List UInt8) : VmPacketDescriptor where
  packetType := u16At bs 0
  offset8 := u16At bs 2
  len8 := u16At bs 4
  flags := u16At bs 6
  transactionId := u64At bs 8

@[simp] theorem VmPacketDescriptor.length_toBytes (desc : VmPacketDescriptor) :
    desc.toBytes.length = 16 := by
  simp [toBytes]

@[simp] theorem VmPacketDescriptor.ofBytes_toBytes (desc : VmPacketDescriptor) :
    ofBytes desc.toBytes = desc := by
  have h0 : u16At desc.toBytes 0 = desc.packetType := u16At_le16 (a := []) rfl
  have h2 : u16At desc.toBytes 2 = desc.offset8 := u16At_le16 (length_le16 _)
  have h4 : u16At desc.toBytes 4 = desc.len8 := by
    rw [toBytes, ← List.append_assoc]
    exact u16At_le16 (by simp)
  have h6 : u16At desc.toBytes 6 = desc.flags := by
    rw [toBytes, ← List.append_assoc, ← List.append_assoc]
    exact u16At_le16 (by simp)
  have h8 : u64At desc.toBytes 8 = desc.transactionId := by
    have hsplit : desc.toBytes =
        (le16 desc.packetType ++ (le16 desc.offset8 ++ (le16 desc.len8 ++ le16 desc.flags))) ++
          (le64 desc.transactionId ++ []) := by
      simp [toBytes]
    rw [hsplit]
    exact u64At_le64 (by simp)
  rw [ofBytes, h0, h2, h4, h6, h8]

/-! ### Ring halves -/

inductive RingError
  | full
  | corrupt

/-- One half of a ring: the indices in the control page and the data area. -/
structure RingHalf where
  dataSize : ℕ
  writeIndex : UInt32
  readIndex : UInt32
  data : ℕ → UInt8
  size_pos : 0 < dataSize
  size_dvd : 4096 ∣ dataSize

/-- `RingHalf::new` over a region with these indices and bytes; `none` is the
failed assertion. -/
def RingHalf.new (writeIndex readIndex : UInt32) (data : ℕ → UInt8) (totalSize : ℕ) :
    Option RingHalf :=
  if h : 4096 < totalSize ∧ totalSize % 4096 = 0 then
    some ⟨totalSize - 4096, writeIndex, readIndex, data, by omega, by omega⟩
  else none

/-- Round up to 8-byte alignment. -/
def align8 (n : ℕ) : ℕ := (n + 7) / 8 * 8

/-- Copy `src` into the data area at `offset`, wrapping around; returns the offset
after the copy. -/
def copyTo (r : RingHalf) (offset : ℕ) (src : List UInt8) : RingHalf × ℕ :=
  let off := offset % r.dataSize
  let first := min (r.dataSize - off) src.length
  let data := Memory.write r.data off (src.take first)
  let data := if first < src.length then Memory.write data 0 (src.drop first) else data
  ({ r with data := data }, (off + src.length) % r.dataSize)

/-- Copy `n` bytes out of the data area at `offset`, wrapping around; returns the
offset after the copy. -/
def copyFrom (r : RingHalf) (offset n : ℕ) : List UInt8 × ℕ :=
  let off := offset % r.dataSize
  let first := min (r.dataSize - off) n
  let dst := Memory.read r.data off first
  let dst := if first < n then dst ++ Memory.read r.data 0 (n - first) else dst
  (dst, (off + n) % r.dataSize)

/-- Copies one after the other. -/
def copyAll (r : RingHalf) (pos : ℕ) : List (List UInt8) → RingHalf
  | [] => r
  | src :: rest => copyAll (copyTo r pos src).1 (copyTo r pos src).2 rest

/-! ### Senders -/

/-- The bytes a sender may still write; `none` is the overflow of the
subtraction. -/
def sendAvail (r : RingHalf) : Option ℕ :=
  let writeIdx := r.writeIndex.toNat
  let readIdx := r.readIndex.toNat
  if readIdx ≤ writeIdx then
    if writeIdx - readIdx ≤ r.dataSize then some (r.dataSize - (writeIdx - readIdx)) else none
  else some (readIdx - writeIdx)

/-- The descriptor of a packet with `headerSize` bytes before the payload. -/
def descFor (packetType : UInt16) (headerSize payloadLen : ℕ) (transactionId : UInt64)
    (flags : UInt16) : VmPacketDescriptor where
  packetType := packetType
  offset8 := UInt16.ofNat (headerSize / 8)
  len8 := UInt16.ofNat (align8 (headerSize + payloadLen) / 8)
  flags := flags
  transactionId := transactionId

/-- The copies a sender makes, in order. -/
def sendPieces (desc : VmPacketDescriptor) (extra : List (List UInt8)) (payload : List UInt8)
    (pad : ℕ) (prev : UInt64) : List (List UInt8) :=
  desc.toBytes :: extra ++ (if payload.isEmpty then [] else [payload]) ++
    (if 0 < pad then [(List.replicate 8 0).take pad] else []) ++ [le64 prev]

/-- The senders: `extra` are the copies between the descriptor and the payload. -/
def sendWith (packetType : UInt16) (extra : List (List UInt8)) (headerSize : ℕ)
    (payload : List UInt8) (transactionId : UInt64) (flags : UInt16) :
    Prog RingHalf RingError Unit := fun r =>
  let packetLen := align8 (headerSize + payload.length)
  let totalWrite := packetLen + 8
  let writeIdx := r.writeIndex.toNat
  let readIdx := r.readIndex.toNat
  match sendAvail r with
  | none => (.panic, r)
  | some avail =>
    -- at least one byte stays free: a full ring would look empty
    if avail ≤ totalWrite then (.err .full, r)
    else
      let desc := descFor packetType headerSize payload.length transactionId flags
      let pad := packetLen - headerSize - payload.length
      let prev := UInt64.ofNat writeIdx <<< 32 ||| UInt64.ofNat readIdx
      let r' := copyAll r writeIdx (sendPieces desc extra payload pad prev)
      (.ok (), { r' with writeIndex := UInt32.ofNat ((writeIdx + totalWrite) % r.dataSize) })

/-- `send_packet`: an in-band data packet. -/
def sendPacket (payload : List UInt8) (transactionId : UInt64) (flags : UInt16) :
    Prog RingHalf RingError Unit :=
  sendWith vmPktDataInband [] 16 payload transactionId flags

/-- `send_comp`: a completion packet. -/
def sendComp (payload : List UInt8) (transactionId : UInt64) : Prog RingHalf RingError Unit :=
  sendWith vmPktComp [] 16 payload transactionId 0

/-- The reserved word, the range count and the page buffer entry of a GPA-direct
packet, in the order in which they are written. -/
def pageBufferHeader (pagePfn : UInt64) (pageOffset pageLen : UInt32) : List (List UInt8) :=
  [le32 0, le32 1, le32 pageOffset, le32 pageLen, le64 pagePfn]

/-- `send_packet_with_page_buffer`: a GPA-direct packet with one page buffer. -/
def sendPacketWithPageBuffer (userData : List UInt8) (pagePfn : UInt64)
    (pageOffset pageLen : UInt32) (transactionId : UInt64) (flags : UInt16) :
    Prog RingHalf RingError Unit :=
  sendWith vmPktDataUsingGpaDirect (pageBufferHeader pagePfn pageOffset pageLen) (16 + 4 + 4 + 16)
    userData transactionId flags

/-! ### Receivers -/

/-- The bytes a receiver may read; `none` is the overflow of the subtraction. -/
def recvAvail (r : RingHalf) : Option ℕ :=
  let writeIdx := r.writeIndex.toNat
  let readIdx := r.readIndex.toNat
  if readIdx ≤ writeIdx then some (writeIdx - readIdx)
  else if readIdx - writeIdx ≤ r.dataSize then some (r.dataSize - (readIdx - writeIdx)) else none

/-- The receivers: `body` copies the part of the packet that goes to the caller,
given the position after the descriptor. -/
def recvWith (body : RingHalf → VmPacketDescriptor → ℕ → Outcome RingError (List UInt8)) :
    Prog RingHalf RingError (Option (VmPacketDescriptor × List UInt8)) := fun r =>
  match recvAvail r with
  | none => (.panic, r)
  | some avail =>
    if avail = 0 then (.ok none, r)
    else if avail < 16 then (.err .corrupt, r)
    else
      let readIdx := r.readIndex.toNat
      let (descBytes, pos) := copyFrom r readIdx 16
      let desc := VmPacketDescriptor.ofBytes descBytes
      let packetLen := desc.len8.toNat * 8
      let totalRead := packetLen + 8
      if packetLen < 16 ∨ avail < totalRead then (.err .corrupt, r)
      else
        match body r desc pos with
        | .ok bytes => (.ok (some (desc, bytes)),
            { r with readIndex := UInt32.ofNat ((readIdx + totalRead) % r.dataSize) })
        | .err e => (.err e, r)
        | .panic => (.panic, r)

/-- `recv_packet` into a buffer of `bufLen` bytes: the payload only.  The bytes
between descriptor and payload are skipped through a buffer of 64 bytes. -/
def recvPacket (bufLen : ℕ) : Prog RingHalf RingError (Option (VmPacketDescriptor × List UInt8)) :=
  recvWith fun r desc pos =>
    let packetLen := desc.len8.toNat * 8
    let dataOffset := desc.offset8.toNat * 8
    if packetLen < dataOffset then .err .corrupt
    else
      let payloadLen := packetLen - dataOffset
      let copyLen := min payloadLen bufLen
      if 16 < dataOffset then
        if 64 < dataOffset - 16 then .panic
        else .ok (copyFrom r (copyFrom r pos (dataOffset - 16)).2 copyLen).1
      else .ok (copyFrom r pos copyLen).1

/-- `recv_packet_raw` into a buffer of `bufLen` bytes: everything after the
descriptor. -/
def recvPacketRaw (bufLen : ℕ) :
    Prog RingHalf RingError (Option (VmPacketDescriptor × List UInt8)) :=
  recvWith fun r desc pos =>
    .ok (copyFrom r pos (min (desc.len8.toNat * 8 - 16) bufLen)).1

/-! ### Copies are windows and stores of the circular data area -/

theorem copyTo_data {r : RingHalf} {offset : ℕ} {src : List UInt8}
    (hlen : src.length ≤ r.dataSize) :
    (copyTo r offset src).1.data = store r.dataSize r.data offset src := by
  have hoff : offset % r.dataSize < r.dataSize := Nat.mod_lt _ r.size_pos
  generalize hN : r.dataSize = N at hlen hoff
  generalize ho : offset % N = off at hoff
  -- the second copy starts at 0 and ends before the first one began
  have hfirst : min (N - off) src.length < src.length → min (N - off) src.length = N - off := by
    omega
  funext i
  simp only [copyTo, store, Circular.dist, hN, ho]
  by_cases hwrap : min (N - off) src.length < src.length
  · rw [if_pos hwrap, hfirst hwrap]
    simp only [Memory.write, Nat.zero_le, if_true, Nat.sub_zero, List.getElem?_drop,
      List.getElem?_take]
    by_cases hi : i < N
    · by_cases hio : off ≤ i
      · rw [if_pos hi, if_pos hio, if_pos hio, if_pos (by omega),
          List.getElem?_eq_none (show src.length ≤ N - off + i by omega), Option.getD_none]
      · rw [if_pos hi, if_neg hio, if_neg hio, show N - off + i = i + N - off by omega]
    · rw [if_neg hi, if_pos (by omega), if_neg (by omega),
        List.getElem?_eq_none (show src.length ≤ N - off + i by omega), Option.getD_none,
        Option.getD_none]
  · rw [if_neg hwrap]
    have hall : min (N - off) src.length = src.length := by omega
    simp only [hall, List.take_length, Memory.write]
    by_cases hi : i < N
    · by_cases hio : off ≤ i
      · rw [if_pos hi, if_pos hio, if_pos hio]
      · rw [if_pos hi, if_neg hio, if_neg hio, List.getElem?_eq_none (by omega), Option.getD_none]
    · rw [if_neg hi, if_pos (by omega), List.getElem?_eq_none (by omega), Option.getD_none]

/-- A copy that goes around at most once. -/
theorem copyFrom_of_inside {r : RingHalf} {offset n : ℕ}
    (hlen : offset % r.dataSize + n ≤ 2 * r.dataSize) :
    copyFrom r offset n = (window r.dataSize r.data offset n, (offset + n) % r.dataSize) := by
  have hoff : offset % r.dataSize < r.dataSize := Nat.mod_lt _ r.size_pos
  have hpos : (offset % r.dataSize + n) % r.dataSize = (offset + n) % r.dataSize :=
    Nat.mod_add_mod _ _ _
  rw [copyFrom, hpos, ← window_mod]
  refine Prod.ext ?_ rfl
  generalize offset % r.dataSize = off at hoff hlen
  have hcell : ∀ k < n, r.data ((off + k) % r.dataSize) =
      if off + k < r.dataSize then r.data (off + k) else r.data (off + k - r.dataSize) := by
    intro k hk
    split
    · rw [Nat.mod_eq_of_lt (by assumption)]
    · rw [Nat.mod_eq_sub_mod (by omega), Nat.mod_eq_of_lt (by omega)]
  apply List.ext_getElem
  · dsimp only
    rw [length_window]
    split
    · rw [List.length_append, Memory.length_read, Memory.length_read]
      omega
    · rw [Memory.length_read]
      omega
  · intro k h1 h2
    rw [length_window] at h2
    rw [getElem_window, hcell k h2]
    dsimp only
    split
    · -- the bytes before and after the wrap
      rw [List.getElem_append]
      split
      · rename_i hk
        rw [Memory.length_read] at hk
        rw [Memory.getElem_read, if_pos (by omega)]
      · rename_i hk
        rw [Memory.length_read] at hk
        rw [Memory.getElem_read, Memory.length_read, if_neg (by omega)]
        congr 1
        omega
    · rw [Memory.getElem_read, if_pos (by omega)]

theorem copyFrom_eq {r : RingHalf} {offset n : ℕ} (hlen : n ≤ r.dataSize) :
    copyFrom r offset n = (window r.dataSize r.data offset n, (offset + n) % r.dataSize) := by
  have hoff : offset % r.dataSize < r.dataSize := Nat.mod_lt _ r.size_pos
  exact copyFrom_of_inside (by omega)

@[simp] theorem copyTo_dataSize (r : RingHalf) (offset : ℕ) (src : List UInt8) :
    (copyTo r offset src).1.dataSize = r.dataSize := rfl

theorem copyAll_eq {r : RingHalf} {pos : ℕ} {pieces : List (List UInt8)}
    (hlen : pieces.flatten.length ≤ r.dataSize) :
    copyAll r pos pieces = { r with data := store r.dataSize r.data pos pieces.flatten } := by
  induction pieces generalizing r pos with
  | nil => rw [copyAll, List.flatten_nil, store_nil]
  | cons src rest ih =>
    rw [List.flatten_cons, List.length_append] at hlen
    have hnext : (copyTo r pos src).2 = (pos + src.length) % r.dataSize := Nat.mod_add_mod _ _ _
    have hdata : store r.dataSize (copyTo r pos src).1.data (copyTo r pos src).2 rest.flatten =
        store r.dataSize r.data pos (src :: rest).flatten := by
      rw [copyTo_data (by omega), hnext, store_mod, store_store hlen, List.flatten_cons]
    rw [copyAll, ih (by rw [copyTo_dataSize]; omega)]
    exact congrArg (fun data => ({ r with data := data } : RingHalf)) hdata

/-! ### The ring as a queue of packets -/

/-- A packet whose length field tells the truth. -/
structure Packet where
  desc : VmPacketDescriptor
  body : List UInt8
  len_eq : 16 + body.length = 8 * desc.len8.toNat
  deriving DecidableEq

def Packet.toBytes (p : Packet) : List UInt8 := p.desc.toBytes ++ p.body

@[simp] theorem Packet.length_toBytes (p : Packet) : p.toBytes.length = 8 * p.desc.len8.toNat := by
  rw [toBytes, List.length_append, VmPacketDescriptor.length_toBytes, p.len_eq]

/-- The bytes the packets take up, each with its trailer. -/
def packetSpan (q : List Packet) : ℕ := span Packet.toBytes 8 q

/-- The unread packets of the ring are `q`, and the indices address the ring. -/
structure Repr (r : RingHalf) (q : List Packet) : Prop where
  size_le : r.dataSize ≤ 2 ^ 32
  read_lt : r.readIndex.toNat < r.dataSize
  read_dvd : 8 ∣ r.readIndex.toNat
  write_eq : r.writeIndex.toNat = (r.readIndex.toNat + packetSpan q) % r.dataSize
  span_lt : packetSpan q < r.dataSize
  stored : Stored Packet.toBytes 8 r.dataSize r.data r.readIndex.toNat q

theorem dvd_packetSpan (q : List Packet) : 8 ∣ packetSpan q := by
  induction q with
  | nil => exact Nat.dvd_zero 8
  | cons p q ih =>
    rw [packetSpan, span_cons, Packet.length_toBytes, ← packetSpan]
    omega

theorem Repr.write_lt {r : RingHalf} {q : List Packet} (h : Repr r q) :
    r.writeIndex.toNat < r.dataSize := by
  rw [h.write_eq]
  exact Nat.mod_lt _ r.size_pos

theorem Repr.write_dvd {r : RingHalf} {q : List Packet} (h : Repr r q) :
    8 ∣ r.writeIndex.toNat := by
  have hsize : 8 ∣ r.dataSize := Nat.dvd_trans (by decide) r.size_dvd
  rw [h.write_eq, Nat.dvd_mod_iff hsize]
  exact Nat.dvd_add h.read_dvd (dvd_packetSpan q)

/-- The write index, with the one wrap written out. -/
theorem Repr.write_cases {r : RingHalf} {q : List Packet} (h : Repr r q) :
    r.writeIndex.toNat = r.readIndex.toNat + packetSpan q ∨
      r.writeIndex.toNat + r.dataSize = r.readIndex.toNat + packetSpan q ∧
        r.writeIndex.toNat < r.readIndex.toNat := by
  have hread := h.read_lt
  have hspan := h.span_lt
  rcases Nat.lt_or_ge (r.readIndex.toNat + packetSpan q) r.dataSize with hlt | hge
  · exact .inl (by rw [h.write_eq, Nat.mod_eq_of_lt hlt])
  · have hwrite := h.write_eq
    rw [Nat.mod_eq_sub_mod hge, Nat.mod_eq_of_lt (by omega)] at hwrite
    exact .inr (by omega)

theorem Repr.sendAvail {r : RingHalf} {q : List Packet} (h : Repr r q) :
    sendAvail r = some (r.dataSize - packetSpan q) := by
  have hspan := h.span_lt
  rw [Ring.sendAvail]
  rcases h.write_cases with hw | hw
  · rw [if_pos (by omega), if_pos (by omega), hw, Nat.add_sub_cancel_left]
  · rw [if_neg (by omega)]
    congr 1
    omega

theorem Repr.recvAvail {r : RingHalf} {q : List Packet} (h : Repr r q) :
    recvAvail r = some (packetSpan q) := by
  have hspan := h.span_lt
  have hread := h.read_lt
  rw [Ring.recvAvail]
  rcases h.write_cases with hw | hw
  · rw [if_pos (by omega), hw, Nat.add_sub_cancel_left]
  · rw [if_neg (by omega), if_pos (by omega)]
    congr 1
    omega

/-! ### A send appends a packet -/

/-- What follows the descriptor of a sent packet: the extra header, the payload and
the zero padding. -/
def bodyFor (extra : List (List UInt8)) (headerSize : ℕ) (payload : List UInt8) : List UInt8 :=
  extra.flatten ++ (payload ++
    List.replicate (align8 (headerSize + payload.length) - headerSize - payload.length) 0)

theorem le_align8 (n : ℕ) : n ≤ align8 n := by
  unfold align8
  omega

theorem align8_sub_lt (n : ℕ) : align8 n - n < 8 := by
  unfold align8
  omega

theorem flatten_sendPieces (desc : VmPacketDescriptor) (extra : List (List UInt8))
    (headerSize : ℕ) (payload : List UInt8) (prev : UInt64) :
    (sendPieces desc extra payload (align8 (headerSize + payload.length) - headerSize -
        payload.length) prev).flatten =
      desc.toBytes ++ bodyFor extra headerSize payload ++ le64 prev := by
  have hpad := align8_sub_lt (headerSize + payload.length)
  generalize hp : align8 (headerSize + payload.length) - headerSize - payload.length = pad
  have hzeros : (if 0 < pad then [(List.replicate 8 (0 : UInt8)).take pad] else []).flatten =
      List.replicate pad 0 := by
    by_cases h0 : 0 < pad
    · rw [if_pos h0, List.flatten_singleton, List.take_replicate, Nat.min_eq_left (by omega)]
    · rw [if_neg h0, List.flatten_nil, Nat.eq_zero_of_not_pos h0, List.replicate_zero]
  have hpayload : (if payload.isEmpty then [] else [payload]).flatten = payload := by
    cases payload <;> simp
  simp only [sendPieces, bodyFor, hp, List.cons_append, List.flatten_cons, List.flatten_append,
    hzeros, hpayload, List.flatten_nil, List.append_nil, List.append_assoc]

/-- The ring after the packet `p` and its trailer were written. -/
def push (r : RingHalf) (p : Packet) (trailer : List UInt8) : RingHalf :=
  { r with
    writeIndex := UInt32.ofNat ((r.writeIndex.toNat + (p.toBytes.length + 8)) % r.dataSize)
    data := store r.dataSize r.data r.writeIndex.toNat (p.toBytes ++ trailer) }

theorem packetSpan_concat (q : List Packet) (p : Packet) :
    packetSpan (q ++ [p]) = packetSpan q + (p.toBytes.length + 8) := by
  simp only [packetSpan, span_append, span_cons, span_nil, Nat.add_zero]

theorem Repr.push {r : RingHalf} {q : List Packet} {p : Packet} {trailer : List UInt8}
    (h : Repr r q) (htrailer : trailer.length = 8)
    (hroom : packetSpan (q ++ [p]) < r.dataSize) : Repr (push r p trailer) (q ++ [p]) := by
  refine ⟨h.size_le, h.read_lt, h.read_dvd, ?_, hroom, ?_⟩
  · -- the new write index fits into the control page
    have hlt : (r.writeIndex.toNat + (p.toBytes.length + 8)) % r.dataSize < 2 ^ 32 :=
      Nat.lt_of_lt_of_le (Nat.mod_lt _ r.size_pos) h.size_le
    rw [Ring.push, UInt32.toNat_ofNat', Nat.mod_eq_of_lt hlt, h.write_eq, Nat.mod_add_mod,
      Nat.add_assoc, ← packetSpan_concat]
  · rw [Ring.push, h.write_eq, store_mod]
    exact h.stored.snoc htrailer (Nat.le_of_lt hroom)

section

variable {r : RingHalf} {q : List Packet} {packetType : UInt16} {extra : List (List UInt8)}
  {headerSize : ℕ} {payload : List UInt8} {transactionId : UInt64} {flags : UInt16} {p : Packet}

/-- The length of a packet that was built by a sender. -/
theorem length_of_sent (hbody : p.body = bodyFor extra headerSize payload)
    (hhead : headerSize = 16 + extra.flatten.length) :
    p.toBytes.length = align8 (headerSize + payload.length) := by
  have hle := le_align8 (headerSize + payload.length)
  rw [Packet.toBytes, hbody, bodyFor]
  simp only [List.length_append, VmPacketDescriptor.length_toBytes, List.length_replicate]
  omega

/-- A send that does not fit leaves the ring as it is. -/
theorem sendWith_full (h : Repr r q) (hbody : p.body = bodyFor extra headerSize payload)
    (hhead : headerSize = 16 + extra.flatten.length)
    (hfull : r.dataSize ≤ packetSpan (q ++ [p])) :
    sendWith packetType extra headerSize payload transactionId flags r = (.err .full, r) := by
  rw [packetSpan_concat, length_of_sent hbody hhead] at hfull
  simp only [sendWith, h.sendAvail]
  rw [if_pos (by omega)]

/-- **A send that fits appends its packet.** -/
theorem sendWith_ok (h : Repr r q)
    (hdesc : p.desc = descFor packetType headerSize payload.length transactionId flags)
    (hbody : p.body = bodyFor extra headerSize payload)
    (hhead : headerSize = 16 + extra.flatten.length)
    (hroom : packetSpan (q ++ [p]) < r.dataSize) :
    ∃ r', sendWith packetType extra headerSize payload transactionId flags r = (.ok (), r') ∧
      Repr r' (q ++ [p]) ∧ r'.dataSize = r.dataSize := by
  have hlen := length_of_sent hbody hhead
  have hspan := packetSpan_concat q p
  have hpieces := flatten_sendPieces (descFor packetType headerSize payload.length transactionId
    flags) extra headerSize payload (UInt64.ofNat r.writeIndex.toNat <<< 32 |||
      UInt64.ofNat r.readIndex.toNat)
  rw [← hdesc, ← hbody, ← Packet.toBytes] at hpieces
  refine ⟨push r p (le64 (UInt64.ofNat r.writeIndex.toNat <<< 32 |||
    UInt64.ofNat r.readIndex.toNat)), ?_, h.push (length_le64 _) hroom, rfl⟩
  simp only [sendWith, h.sendAvail]
  rw [if_neg (by omega), ← hdesc,
    copyAll_eq (by rw [hpieces]; simp only [List.length_append, length_le64]; omega), hpieces,
    push, hlen]

end

/-! ### A receive removes the first packet -/

/-- The ring after its first packet `p` was read. -/
def pop (r : RingHalf) (p : Packet) : RingHalf :=
  { r with
    readIndex := UInt32.ofNat ((r.readIndex.toNat + (p.desc.len8.toNat * 8 + 8)) % r.dataSize) }

section

variable {r : RingHalf} {p : Packet} {q : List Packet}

theorem Repr.pop (h : Repr r (p :: q)) : Repr (pop r p) q := by
  have hspan : packetSpan (p :: q) = p.desc.len8.toNat * 8 + 8 + packetSpan q := by
    simp only [packetSpan, span_cons, Packet.length_toBytes, Nat.mul_comm 8]
  have hlt := h.span_lt
  have hread : (Ring.pop r p).readIndex.toNat =
      (r.readIndex.toNat + (p.desc.len8.toNat * 8 + 8)) % r.dataSize := by
    rw [Ring.pop, UInt32.toNat_ofNat', Nat.mod_eq_of_lt]
    exact Nat.lt_of_lt_of_le (Nat.mod_lt _ r.size_pos) h.size_le
  have hsize : 8 ∣ r.dataSize := Nat.dvd_trans (by decide) r.size_dvd
  refine ⟨h.size_le, ?_, ?_, ?_, Nat.lt_of_le_of_lt (by omega) hlt, ?_⟩
  · rw [hread]
    exact Nat.mod_lt _ r.size_pos
  · rw [hread, Nat.dvd_mod_iff hsize]
    exact Nat.dvd_add h.read_dvd ⟨p.desc.len8.toNat + 1, by omega⟩
  · rw [hread]
    show r.writeIndex.toNat = _ % r.dataSize
    rw [Nat.mod_add_mod, Nat.add_assoc, ← hspan, ← h.write_eq]
  · have htail := h.stored.tail
    rw [Packet.length_toBytes, Nat.mul_comm 8] at htail
    rw [hread]
    exact stored_mod.mpr htail

/-- The bytes of the first packet lie at the read index. -/
theorem Repr.window_head (h : Repr r (p :: q)) :
    window r.dataSize r.data r.readIndex.toNat 16 = p.desc.toBytes ∧
      window r.dataSize r.data (r.readIndex.toNat + 16) p.body.length = p.body := by
  have hhead : window r.dataSize r.data r.readIndex.toNat p.toBytes.length = p.toBytes :=
    h.stored.1
  rw [Packet.toBytes, List.length_append, VmPacketDescriptor.length_toBytes, window_add] at hhead
  exact List.append_inj hhead (by simp)

/-- A packet that is on the ring fits into it. -/
theorem Repr.head_fits (h : Repr r (p :: q)) : p.desc.len8.toNat * 8 + 8 < r.dataSize := by
  have hlt := h.span_lt
  rw [packetSpan, span_cons, Packet.length_toBytes] at hlt
  omega

variable {body : RingHalf → VmPacketDescriptor → ℕ → Outcome RingError (List UInt8)}

theorem recvWith_nil (h : Repr r []) : recvWith body r = (.ok none, r) := by
  simp only [recvWith, h.recvAvail, packetSpan, span_nil, if_pos]

theorem recvWith_cons (h : Repr r (p :: q)) :
    recvWith body r =
      match body r p.desc ((r.readIndex.toNat + 16) % r.dataSize) with
      | .ok bytes => (.ok (some (p.desc, bytes)), pop r p)
      | .err e => (.err e, r)
      | .panic => (.panic, r) := by
  have hspan : packetSpan (p :: q) = 8 * p.desc.len8.toNat + 8 + packetSpan q := by
    simp only [packetSpan, span_cons, Packet.length_toBytes]
  have hfits := h.head_fits
  have hlen := p.len_eq
  simp only [recvWith, h.recvAvail]
  rw [if_neg (by omega), if_neg (by omega), copyFrom_eq (by omega)]
  simp only [h.window_head.1, VmPacketDescriptor.ofBytes_toBytes]
  rw [if_neg (by omega)]
  rfl

/-- **`recv_packet_raw` returns the first packet and removes it.** -/
theorem recvPacketRaw_cons (h : Repr r (p :: q)) (bufLen : ℕ) :
    recvPacketRaw bufLen r = (.ok (some (p.desc, p.body.take bufLen)), pop r p) := by
  have hfits := h.head_fits
  have hlen := p.len_eq
  rw [recvPacketRaw, recvWith_cons h]
  have hbody : (copyFrom r ((r.readIndex.toNat + 16) % r.dataSize)
      (min (p.desc.len8.toNat * 8 - 16) bufLen)).1 = p.body.take bufLen := by
    rw [copyFrom_eq (by omega), window_mod,
      ← take_window _ _ (show min (p.desc.len8.toNat * 8 - 16) bufLen ≤ p.body.length by omega),
      h.window_head.2, show p.desc.len8.toNat * 8 - 16 = p.body.length by omega,
      Nat.min_comm, ← List.take_take, List.take_length]
  simp only [hbody]

/-- The payload of the packet lies inside it, and what precedes it fits into the
buffer that `recv_packet` skips it through. -/
def Packet.readable (p : Packet) : Bool :=
  decide (p.desc.offset8.toNat ≤ p.desc.len8.toNat ∧ p.desc.offset8.toNat * 8 ≤ 80)

/-- The payload of the packet: what follows the descriptor and the header behind it. -/
def Packet.payload (p : Packet) : List UInt8 := p.body.drop (p.desc.offset8.toNat * 8 - 16)

/-- The payload lies on the ring; if the offset points into the descriptor, then
`recv_packet` reads past the end of the packet. -/
theorem Repr.payload_head (h : Repr r (p :: q)) (hin : p.desc.offset8.toNat ≤ p.desc.len8.toNat)
    (bufLen : ℕ) :
    ∃ extra, (2 ≤ p.desc.offset8.toNat → extra = []) ∧
      window r.dataSize r.data (r.readIndex.toNat + 16 + (p.desc.offset8.toNat * 8 - 16))
        (min (p.desc.len8.toNat * 8 - p.desc.offset8.toNat * 8) bufLen) =
          (p.payload ++ extra).take bufLen := by
  have hlen := p.len_eq
  have hpay : window r.dataSize r.data
      (r.readIndex.toNat + 16 + (p.desc.offset8.toNat * 8 - 16)) p.payload.length = p.payload := by
    have hbody := h.window_head.2
    rw [show p.body.length = p.desc.offset8.toNat * 8 - 16 + p.payload.length by
      rw [Packet.payload, List.length_drop]; omega, window_add] at hbody
    have hdrop := congrArg (List.drop (p.desc.offset8.toNat * 8 - 16)) hbody
    rwa [List.drop_left' (length_window ..)] at hdrop
  -- what is read is the payload and, for a small offset, what follows it
  have hspan : p.desc.len8.toNat * 8 - p.desc.offset8.toNat * 8 =
      p.payload.length + (16 - p.desc.offset8.toNat * 8) := by
    rw [Packet.payload, List.length_drop]
    omega
  refine ⟨window r.dataSize r.data (r.readIndex.toNat + 16 + (p.desc.offset8.toNat * 8 - 16) +
    p.payload.length) (16 - p.desc.offset8.toNat * 8), fun h2 => ?_, ?_⟩
  · rw [show 16 - p.desc.offset8.toNat * 8 = 0 by omega]
    rfl
  · rw [Nat.min_comm, hspan, ← hpay, length_window, ← window_add]
    generalize p.payload.length + (16 - p.desc.offset8.toNat * 8) = n
    rw [← take_window _ _ (Nat.min_le_right bufLen n), ← List.take_take]
    exact congrArg _ (List.take_of_length_le (by simp))

/-- **`recv_packet` returns the first packet and removes it** if it can read it;
otherwise it leaves the ring as it is. -/
theorem recvPacket_cons (h : Repr r (p :: q)) (bufLen : ℕ) :
    (p.readable = true ∧ ∃ extra, (2 ≤ p.desc.offset8.toNat → extra = []) ∧
        recvPacket bufLen r = (.ok (some (p.desc, (p.payload ++ extra).take bufLen)), pop r p)) ∨
      (p.readable = false ∧
        ((∃ e, recvPacket bufLen r = (.err e, r)) ∨ recvPacket bufLen r = (.panic, r))) := by
  have hfits := h.head_fits
  rw [recvPacket, recvWith_cons h]
  by_cases hin : p.desc.len8.toNat * 8 < p.desc.offset8.toNat * 8
  · refine .inr ⟨decide_eq_false (by omega), .inl ⟨.corrupt, ?_⟩⟩
    simp only [if_pos hin]
  · obtain ⟨extra, hextra, hread⟩ := h.payload_head (by omega) bufLen
    simp only [if_neg hin]
    by_cases hskip : 16 < p.desc.offset8.toNat * 8
    · by_cases hbuf : 64 < p.desc.offset8.toNat * 8 - 16
      · exact .inr ⟨decide_eq_false (by omega), .inr (by simp only [if_pos hskip, if_pos hbuf])⟩
      · simp only [if_pos hskip, if_neg hbuf]
        refine .inl ⟨decide_eq_true (by omega), extra, hextra, ?_⟩
        rw [copyFrom_eq (by omega), copyFrom_eq (by omega), ← hread, window_mod, ← window_mod,
          Nat.mod_add_mod, window_mod]
    · simp only [if_neg hskip]
      refine .inl ⟨decide_eq_true (by omega), extra, hextra, ?_⟩
      rw [copyFrom_eq (by omega), window_mod, ← hread,
        show p.desc.offset8.toNat * 8 - 16 = 0 by omega, Nat.add_zero]

end

end Ring
