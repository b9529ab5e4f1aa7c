/-
The VMBus ring is a FIFO.

Any interleaving of the three senders and `recv_packet_raw` on one ring half,
started with both indices 0 over arbitrary bytes.

* `FifoOk` — the packets received are the first of the packets accepted, the next
  receive returns the next of them (or nothing, if there is none), and both indices
  are aligned and in range;
* `fifo_of_run` — it holds in every state of a run, on every ring whose size the
  `u32` indices of the control page can address;
* `fifo_breaks_beyond_u32` — on a larger ring the write index is cut off, and 8192
  accepted packets look like an empty ring.
-/
import Embclox.Exec
import Embclox.Ring

open Bytes Effect Run

namespace Ring

/-- A packet as it is handed to the reader: the descriptor and everything after
it. -/
abbrev RawPacket := VmPacketDescriptor × List UInt8

def Packet.raw (p : Packet) : RawPacket := (p.desc, p.body)

/-- The longest body a 16-bit length field allows. -/
def maxBody : ℕ := 8 * (2 ^ 16 - 1) - 16

inductive SendCall
  | sendPacket (payload : List UInt8) (transactionId : UInt64) (flags : UInt16)
  | sendComp (payload : List UInt8) (transactionId : UInt64)
  | sendPacketWithPageBuffer (userData : List UInt8) (pagePfn : UInt64)
      (pageOffset pageLen : UInt32) (transactionId : UInt64) (flags : UInt16)

namespace SendCall

def run : SendCall → Prog RingHalf RingError Unit
  | sendPacket payload transactionId flags => Ring.sendPacket payload transactionId flags
  | sendComp payload transactionId => Ring.sendComp payload transactionId
  | sendPacketWithPageBuffer userData pagePfn pageOffset pageLen transactionId flags =>
      Ring.sendPacketWithPageBuffer userData pagePfn pageOffset pageLen transactionId flags

/-- The bytes between the descriptor and the payload. -/
def extraHeader : SendCall → List UInt8
  | sendPacket .. | sendComp .. => []
  | sendPacketWithPageBuffer _ pagePfn pageOffset pageLen _ _ =>
      le32 0 ++ le32 1 ++ le32 pageOffset ++ le32 pageLen ++ le64 pagePfn

def payload : SendCall → List UInt8
  | sendPacket payload _ _ | sendComp payload _ => payload
  | sendPacketWithPageBuffer userData .. => userData

/-- Descriptor, extra header and payload, before the padding. -/
def unpadded (call : SendCall) : ℕ := 16 + call.extraHeader.length + call.payload.length

/-- The body the caller asks for: extra header, payload, zeros up to a multiple of
8 bytes. -/
def body (call : SendCall) : List UInt8 :=
  call.extraHeader ++ call.payload ++ List.replicate (align8 call.unpadded - call.unpadded) 0

/-- The descriptor the caller asks for. -/
def desc (call : SendCall) : VmPacketDescriptor :=
  let len8 := UInt16.ofNat (align8 call.unpadded / 8)
  match call with
  | sendPacket _ transactionId flags =>
      ⟨vmPktDataInband, 2, len8, flags, transactionId⟩
  | sendComp _ transactionId => ⟨vmPktComp, 2, len8, 0, transactionId⟩
  | sendPacketWithPageBuffer _ _ _ _ transactionId flags =>
      ⟨vmPktDataUsingGpaDirect, 5, len8, flags, transactionId⟩

/-- The length of the packet fits into its 16-bit field. -/
def Fits (call : SendCall) : Prop := align8 call.unpadded / 8 < 2 ^ 16

end SendCall

/-! ### Runs -/

/-- The ring, the packets accepted with `Ok`, and the packets received. -/
structure FifoSys where
  ring : RingHalf
  sent : List RawPacket
  got : List RawPacket

inductive FifoAct
  | send (call : SendCall)
  | recvPacketRaw (bufLen : ℕ)

def fifoStep (s : FifoSys) : FifoAct → Option FifoSys
  | .send call =>
      match call.run s.ring with
      | (.ok _, ring) => some { s with ring := ring, sent := s.sent ++ [(call.desc, call.body)] }
      | (_, ring) => some { s with ring := ring }
  | .recvPacketRaw bufLen =>
      match recvPacketRaw bufLen s.ring with
      | (.ok (some p), ring) => some { s with ring := ring, got := s.got ++ [p] }
      | (_, ring) => some { s with ring := ring }

/-- A fresh ring of this size over these bytes. -/
def freshRing (dataSize : ℕ) (data : ℕ → UInt8) (hpos : 0 < dataSize) (hdvd : 4096 ∣ dataSize) :
    RingHalf :=
  ⟨dataSize, 0, 0, data, hpos, hdvd⟩

def fifoInit (ring : RingHalf) : FifoSys := ⟨ring, [], []⟩

/-- The buffer is as long as the next packet. -/
def BufFits (s : FifoSys) (bufLen : ℕ) : Prop :=
  ∀ p, s.sent[s.got.length]? = some p → p.2.length ≤ bufLen

/-- Every packet fits its length field, and every buffer the packet that it is for. -/
def CallFits (s : FifoSys) : FifoAct → Prop
  | .send call => call.Fits
  | .recvPacketRaw bufLen => BufFits s bufLen

/-- The ring behaves as a queue. -/
structure FifoOk (s : FifoSys) : Prop where
  order : s.got <+: s.sent
  next : ∀ bufLen, BufFits s bufLen →
    (recvPacketRaw bufLen s.ring).1 = .ok s.sent[s.got.length]?
  send : ∀ call : SendCall, (call.run s.ring).1 ≠ .panic
  write_lt : s.ring.writeIndex.toNat < s.ring.dataSize
  read_lt : s.ring.readIndex.toNat < s.ring.dataSize
  write_dvd : 8 ∣ s.ring.writeIndex.toNat
  read_dvd : 8 ∣ s.ring.readIndex.toNat

/-! ### The invariant -/

/-- What was accepted and not yet received is what the ring holds. -/
def FifoInv (s : FifoSys) : Prop := ∃ q, Repr s.ring q ∧ s.sent = s.got ++ q.map Packet.raw

theorem Packet.length_body_le (p : Packet) : p.body.length ≤ maxBody := by
  have hlen := p.len_eq
  have hlt := p.desc.len8.toNat_lt
  rw [maxBody]
  omega

/-- A packet that fits its length field, with the descriptor and the body that were
asked for. -/
theorem SendCall.exists_packet {call : SendCall} (hfit : call.Fits) :
    ∃ p : Packet, p.desc = call.desc ∧ p.body = call.body := by
  refine ⟨⟨call.desc, call.body, ?_⟩, rfl, rfl⟩
  have hle := le_align8 call.unpadded
  have hlen : call.desc.len8.toNat = align8 call.unpadded / 8 := by
    have hfield : call.desc.len8 = UInt16.ofNat (align8 call.unpadded / 8) := by
      cases call <;> rfl
    rw [hfield, UInt16.toNat_ofNat', Nat.mod_eq_of_lt hfit]
  have hdvd : 8 * (align8 call.unpadded / 8) = align8 call.unpadded := by
    unfold align8
    omega
  rw [hlen, hdvd, body]
  simp only [List.length_append, List.length_replicate]
  unfold unpadded at hle ⊢
  omega

/-- The three senders are `sendWith` with the descriptor and the body of the call. -/
theorem SendCall.run_eq (call : SendCall) :
    ∃ packetType extra headerSize transactionId flags,
      call.run = sendWith packetType extra headerSize call.payload transactionId flags ∧
      call.desc = descFor packetType headerSize call.payload.length transactionId flags ∧
      call.body = bodyFor extra headerSize call.payload ∧
      headerSize = 16 + extra.flatten.length := by
  cases call with
  | sendPacket payload transactionId flags =>
    refine ⟨vmPktDataInband, [], 16, transactionId, flags, rfl, ?_, ?_, by simp⟩
    · simp [desc, descFor, unpadded, extraHeader, SendCall.payload]
    · simp [body, bodyFor, unpadded, extraHeader, SendCall.payload, Nat.sub_sub]
  | sendComp payload transactionId =>
    refine ⟨vmPktComp, [], 16, transactionId, 0, rfl, ?_, ?_, by simp⟩
    · simp [desc, descFor, unpadded, extraHeader, SendCall.payload]
    · simp [body, bodyFor, unpadded, extraHeader, SendCall.payload, Nat.sub_sub]
  | sendPacketWithPageBuffer userData pagePfn pageOffset pageLen transactionId flags =>
    refine ⟨vmPktDataUsingGpaDirect, pageBufferHeader pagePfn pageOffset pageLen, 40,
      transactionId, flags, rfl, ?_, ?_, by simp [pageBufferHeader]⟩
    · simp [desc, descFor, unpadded, extraHeader, SendCall.payload]
    · simp [body, bodyFor, unpadded, extraHeader, SendCall.payload, pageBufferHeader, Nat.sub_sub]

/-- A send either changes nothing and reports `Full`, or appends its packet. -/
theorem SendCall.run_repr {call : SendCall} {r : RingHalf} {q : List Packet} (h : Repr r q)
    (hfit : call.Fits) :
    call.run r = (.err .full, r) ∨
      ∃ r' p, call.run r = (.ok (), r') ∧ Repr r' (q ++ [p]) ∧ p.raw = (call.desc, call.body) := by
  obtain ⟨p, hdesc, hbody⟩ := exists_packet hfit
  obtain ⟨packetType, extra, headerSize, transactionId, flags, hrun, hd, hb, hhead⟩ := run_eq call
  rw [hrun]
  rcases Nat.lt_or_ge (packetSpan (q ++ [p])) r.dataSize with hroom | hfull
  · obtain ⟨r', hr', hrepr, -⟩ := sendWith_ok h (hdesc.trans hd) (hbody.trans hb) hhead hroom
    exact .inr ⟨r', p, hr', hrepr, by rw [Packet.raw, hdesc, hbody]⟩
  · exact .inl (sendWith_full h (hbody.trans hb) hhead hfull)

/-- The next packet is the first on the ring. -/
theorem next_sent {s : FifoSys} {p : Packet} {q : List Packet}
    (h : s.sent = s.got ++ (p :: q).map Packet.raw) : s.sent[s.got.length]? = some p.raw := by
  rw [h, List.getElem?_append_right (Nat.le_refl _), Nat.sub_self]
  rfl

theorem fifoStep_inv {s u : FifoSys} {a : FifoAct} (hi : FifoInv s) (hfit : CallFits s a)
    (h : fifoStep s a = some u) : FifoInv u := by
  obtain ⟨q, hrepr, hsent⟩ := hi
  cases a with
  | send call =>
    rcases call.run_repr hrepr hfit with hrun | ⟨r', p, hrun, hrepr', hraw⟩
    · simp only [fifoStep, hrun, Option.some.injEq] at h
      obtain rfl := h
      exact ⟨q, hrepr, hsent⟩
    · simp only [fifoStep, hrun, Option.some.injEq] at h
      obtain rfl := h
      exact ⟨q ++ [p], hrepr', by simp [hsent, hraw]⟩
  | recvPacketRaw bufLen =>
    cases q with
    | nil =>
      simp only [fifoStep, recvPacketRaw, recvWith_nil hrepr, Option.some.injEq] at h
      obtain rfl := h
      exact ⟨[], hrepr, hsent⟩
    | cons p q =>
      -- the whole body fits into the buffer
      have hall : p.body.take bufLen = p.body :=
        List.take_of_length_le (hfit p.raw (next_sent hsent))
      simp only [fifoStep, recvPacketRaw_cons hrepr, hall, Option.some.injEq] at h
      obtain rfl := h
      exact ⟨q, hrepr.pop, by simp [hsent, Packet.raw]⟩

theorem FifoInv.ok {s : FifoSys} (hi : FifoInv s) : FifoOk s := by
  obtain ⟨q, hrepr, hsent⟩ := hi
  refine ⟨⟨_, hsent.symm⟩, fun bufLen hbuf => ?_, fun call => ?_, hrepr.write_lt, hrepr.read_lt,
    hrepr.write_dvd, hrepr.read_dvd⟩
  · cases q with
    | nil =>
      rw [hsent, List.map_nil, List.append_nil, List.getElem?_eq_none (Nat.le_refl _),
        recvPacketRaw, recvWith_nil hrepr]
    | cons p q =>
      have hall : p.body.take bufLen = p.body :=
        List.take_of_length_le (hbuf p.raw (next_sent hsent))
      rw [recvPacketRaw_cons hrepr, next_sent hsent, hall]
      rfl
  · obtain ⟨packetType, extra, headerSize, transactionId, flags, hrun, -⟩ := call.run_eq
    rw [hrun]
    simp only [sendWith, hrepr.sendAvail]
    split <;> simp

theorem freshRing_repr {dataSize : ℕ} {data : ℕ → UInt8} (hpos : 0 < dataSize)
    (hdvd : 4096 ∣ dataSize) (hsize : dataSize ≤ 2 ^ 32) :
    Repr (freshRing dataSize data hpos hdvd) [] :=
  ⟨hsize, hpos, Nat.dvd_zero 8, (Nat.zero_mod _).symm, hpos, trivial⟩

/-! ### The queue along a run -/

/-- **The VMBus ring is a FIFO**, for every ring that the `u32` indices can address:
from fresh indices over any bytes, every interleaving of sends whose length fits
its field and receives with a buffer for the next packet keeps `FifoOk`. -/
theorem fifo_of_run {dataSize : ℕ} (data : ℕ → UInt8) (hpos : 0 < dataSize)
    (hdvd : 4096 ∣ dataSize) (hsize : dataSize ≤ 2 ^ 32) {l : List FifoAct} {s : FifoSys}
    (h : Exec fifoStep CallFits (fifoInit (freshRing dataSize data hpos hdvd)) l s) : FifoOk s := by
  have hinit : FifoInv (fifoInit (freshRing dataSize data hpos hdvd)) :=
    ⟨[], freshRing_repr hpos hdvd hsize, rfl⟩
  exact (h.invariant hinit fifoStep_inv).ok

instance (s : FifoSys) (bufLen : ℕ) : Decidable (BufFits s bufLen) :=
  inferInstanceAs (Decidable (∀ p ∈ s.sent[s.got.length]?, p.2.length ≤ bufLen))

instance (s : FifoSys) : (a : FifoAct) → Decidable (CallFits s a)
  | .send call => inferInstanceAs (Decidable (align8 call.unpadded / 8 < 2 ^ 16))
  | .recvPacketRaw bufLen => inferInstanceAs (Decidable (BufFits s bufLen))

/-- A data packet, a completion and a page buffer packet, with two receives. -/
def threeSends : List FifoAct :=
  [.send (.sendPacket [1, 2, 3] 7 1), .send (.sendComp [] 8), .recvPacketRaw 8,
    .send (.sendPacketWithPageBuffer [4] 5 6 7 9 1), .recvPacketRaw 0]

theorem fifo_of_run_three_sends :
    ∃ s, Exec fifoStep CallFits
        (fifoInit (freshRing 4096 (fun _ => 255) (by decide) (by decide))) threeSends s ∧
      s.sent.length = 3 ∧ s.got.length = 2 ∧ FifoOk s := by
  have hrun : ∃ s, Exec fifoStep CallFits
      (fifoInit (freshRing 4096 (fun _ => 255) (by decide) (by decide))) threeSends s ∧
        s.sent.length = 3 ∧ s.got.length = 2 := Exec.exists_of_run (by decide +kernel)
  obtain ⟨s, hs, hsent, hgot⟩ := hrun
  exact ⟨s, hs, hsent, hgot, fifo_of_run _ (by decide) (by decide) (by decide) hs⟩

/-! ### Rings that are too large for their indices -/

@[simp] theorem copyAll_dataSize (r : RingHalf) (pos : ℕ) (pieces : List (List UInt8)) :
    (copyAll r pos pieces).dataSize = r.dataSize := by
  induction pieces generalizing r pos with
  | nil => rfl
  | cons src rest ih => rw [copyAll, ih, copyTo_dataSize]

@[simp] theorem copyAll_readIndex (r : RingHalf) (pos : ℕ) (pieces : List (List UInt8)) :
    (copyAll r pos pieces).readIndex = r.readIndex := by
  induction pieces generalizing r pos with
  | nil => rfl
  | cons src rest ih => rw [copyAll, ih]; rfl

/-- One page more than the indices can address. -/
def hugeRing : RingHalf := freshRing (2 ^ 32 + 4096) (fun _ => 0) (by decide) (by decide)

/-- A packet with the longest possible body takes up 2 ^ 19 bytes of the ring, and
`n` of them move the write index to `n * 2 ^ 19`. -/
theorem fill_hugeRing {payload : List UInt8} (hlen : payload.length = maxBody) {n : ℕ}
    (hn : n ≤ 8192) :
    ∃ s, Exec fifoStep CallFits (fifoInit hugeRing)
        (List.replicate n (.send (.sendPacket payload 0 0))) s ∧
      s.ring.dataSize = 2 ^ 32 + 4096 ∧ s.ring.readIndex = 0 ∧
      s.ring.writeIndex = UInt32.ofNat (n * 2 ^ 19) ∧ s.sent.length = n ∧ s.got = [] := by
  induction n with
  | zero => exact ⟨fifoInit hugeRing, .nil, rfl, rfl, rfl, rfl, rfl⟩
  | succ n ih =>
    obtain ⟨s, hs, hsize, hread, hwrite, hsent, hgot⟩ := ih (by omega)
    have hidx : s.ring.writeIndex.toNat = n * 2 ^ 19 := by
      rw [hwrite, UInt32.toNat_ofNat', Nat.mod_eq_of_lt (by omega)]
    have havail : sendAvail s.ring = some (2 ^ 32 + 4096 - n * 2 ^ 19) := by
      rw [sendAvail, hidx, hread, hsize]
      simp only [UInt32.toNat_zero, Nat.zero_le, if_true, Nat.sub_zero]
      rw [if_pos (by omega)]
    have htotal : align8 (16 + maxBody) + 8 = 2 ^ 19 := by decide
    have hfit : CallFits s (.send (.sendPacket payload 0 0)) := by
      simp only [CallFits, SendCall.Fits, SendCall.unpadded, SendCall.extraHeader,
        SendCall.payload, List.length_nil, hlen]
      decide
    have hstep : ∃ ring raw, fifoStep s (.send (.sendPacket payload 0 0)) =
        some ⟨ring, s.sent ++ [raw], s.got⟩ ∧
        ring.dataSize = 2 ^ 32 + 4096 ∧ ring.readIndex = 0 ∧
        ring.writeIndex = UInt32.ofNat ((n + 1) * 2 ^ 19) := by
      simp only [fifoStep, SendCall.run, sendPacket, sendWith, havail, hlen, htotal]
      rw [if_neg (by omega)]
      refine ⟨_, _, rfl, ?_, ?_, ?_⟩
      · rw [copyAll_dataSize, hsize]
      · rw [copyAll_readIndex, hread]
      · dsimp only
        rw [hidx, hsize, Nat.mod_eq_of_lt (by omega), Nat.succ_mul]
    obtain ⟨ring, raw, hstep, hsize', hread', hwrite'⟩ := hstep
    refine ⟨⟨ring, s.sent ++ [raw], s.got⟩, ?_, hsize', hread', hwrite', ?_, hgot⟩
    · rw [List.replicate_succ']
      exact .snoc hs hfit hstep
    · rw [List.length_append, List.length_singleton, hsent]

/-- 8192 packets of 2 ^ 19 bytes bring the write index of the huge ring back to 0:
the reader sees an empty ring. -/
theorem fifo_breaks_beyond_u32 :
    0 < hugeRing.dataSize ∧ 4096 ∣ hugeRing.dataSize ∧
    ∃ s, Exec fifoStep CallFits (fifoInit hugeRing)
        (List.replicate 8192 (.send (.sendPacket (List.replicate maxBody 0) 0 0))) s ∧
      s.sent.length = 8192 ∧ s.got = [] ∧ (recvPacketRaw maxBody s.ring).1 = .ok none ∧
      ¬ FifoOk s := by
  obtain ⟨s, hs, hsize, hread, hwrite, hsent, hgot⟩ :=
    fill_hugeRing (List.length_replicate (a := (0 : UInt8))) (Nat.le_refl 8192)
  have hwrite0 : s.ring.writeIndex = 0 := by rw [hwrite]; rfl
  have hnone : ∀ bufLen, (recvPacketRaw bufLen s.ring).1 = .ok none := by
    intro bufLen
    have havail : recvAvail s.ring = some 0 := by
      rw [recvAvail, hread, hwrite0]
      rfl
    simp only [recvPacketRaw, recvWith, havail, if_true]
  refine ⟨hugeRing.size_pos, hugeRing.size_dvd, s, hs, hsent, hgot, hnone _, fun hok => ?_⟩
  cases hcase : s.sent with
  | nil =>
    rw [hcase] at hsent
    exact absurd hsent (by simp)
  | cons p rest =>
    have hfirst : s.sent[s.got.length]? = some p := by simp [hcase, hgot]
    have hnext := hok.next p.2.length fun p' hp' => by
      obtain rfl := Option.some.inj (hfirst.symm.trans hp')
      exact Nat.le_refl _
    rw [hnone, hfirst] at hnext
    simp at hnext

end Ring
