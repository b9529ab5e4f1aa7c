/-
`open_channel`: the ring buffer of a channel and its two halves.

One region is allocated for both rings.  The guest sends the page offset of the second
half to the host, and divides the region by two itself; `RingHalf::new` asserts that a
half is a whole number of pages and has room for more than its control page, which the
assertion at the entry does not ask for.

* `openChannel` — the call, with the allocator and the host it meets;
* `Geometry` — the halves are disjoint, aligned, big enough and together the region, and
  the host is told where the second one starts;
* `openChannel_accepted` — what the call does once the host has accepted;
* `geometry_iff` — the geometry is right exactly for the multiples of 8192 from 16384 on
  that are below 2^45;
* `openChannel_panics` — the smallest ring that the entry accepts ends in a panic.
-/
import Embclox.Offers
import Embclox.Ring
import Mathlib.Order.Interval.Set.LinearOrder

open Bytes Effect
open Channel (Request postMessage postGpadl openchannel)
open Netvsc (HvError)

namespace OpenChannel

/-- A region from `alloc_coherent(size, 4096)`: it is aligned, and lies within the
addresses of a `usize`. -/
structure DmaRegion where
  vaddr : ℕ
  paddr : ℕ
  size : ℕ
  aligned : 4096 ∣ vaddr
  inSpace : vaddr + size ≤ 2 ^ 64
  inMemory : paddr + size ≤ 2 ^ 64

/-- What the call meets: the allocator, which returns a region of the size that is asked
for or panics, and the host, which takes a message or not and answers a request. -/
structure Env where
  allocCoherent : ℕ → Option DmaRegion
  size_eq : ∀ {size region}, allocCoherent size = some region → region.size = size
  fails : ℕ → Option HvError
  answer : Request → Except HvError Unit

/-- The host takes every message and accepts every request. -/
structure Env.Accepts (env : Env) : Prop where
  posted : ∀ n, env.fails n = none
  answered : ∀ req, env.answer req = .ok ()

/-- `NEXT_GPADL`, the messages posted, and memory. -/
structure Sys where
  nextGpadl : UInt32
  posted : List (List UInt8)
  memory : ℕ → UInt8

/-- One half of a ring: the address of its control page and the size of its data area. -/
structure RingHalf where
  base : ℕ
  dataSize : ℕ

structure Chan where
  childRelid : UInt32
  connectionId : UInt32
  ringBuf : DmaRegion
  gpadlHandle : UInt32
  send : RingHalf
  recv : RingHalf

/-! ### The call -/

/-- `RingHalf::new`: bit 0 of the feature bits enables flow control. -/
def RingHalf.new (base totalSize : ℕ) : Prog Sys HvError RingHalf := fun s =>
  if 4096 < totalSize ∧ totalSize % 4096 = 0 then
    (.ok ⟨base, totalSize - 4096⟩, { s with memory := Memory.write s.memory (base + 64) (le32 1) })
  else (.panic, s)

/-- Messages are posted, and the answer is waited for. -/
def request (env : Env) (post : Prog (List (List UInt8)) HvError Unit) (req : Request) :
    Prog Sys HvError Unit := fun s =>
  match post s.posted with
  | (.ok (), posted) =>
      match env.answer req with
      | .ok () => (.ok (), { s with posted })
      | .error e => (.err e, { s with posted })
  | (.err e, posted) => (.err e, { s with posted })
  | (.panic, posted) => (.panic, { s with posted })

def createGpadl (env : Env) (childRelid gpadlHandle : UInt32) (byteCount : ℕ)
    (pfns : List UInt64) : Prog Sys HvError Unit :=
  request env (postGpadl env.fails childRelid gpadlHandle byteCount pfns)
    (.createGpadl childRelid gpadlHandle byteCount pfns)

def openChannelMsg (env : Env) (childRelid gpadlHandle downstreamPageOffset : UInt32) :
    Prog Sys HvError Unit :=
  request env (postMessage env.fails (openchannel childRelid gpadlHandle downstreamPageOffset))
    (.openChannel childRelid gpadlHandle downstreamPageOffset)

def allocGpadlHandle : Prog Sys HvError UInt32 := fun s =>
  (.ok s.nextGpadl, { s with nextGpadl := s.nextGpadl + 1 })

/-- `build_pfn_list`; the page table walk after it only warns. -/
def buildPfnList (region : DmaRegion) (numPages : ℕ) : List UInt64 :=
  (List.range numPages).map fun i => UInt64.ofNat (region.paddr + i * 4096) >>> 12

def openChannel (env : Env) (offer : Offers.ChannelOffer) (ringSize : ℕ) :
    Prog Sys HvError Chan :=
  if 8192 ≤ ringSize ∧ ringSize % 4096 = 0 then do
    let halfSize := ringSize / 2
    let ringBuf ← Prog.ofOption (env.allocCoherent ringSize)
    let pfns := buildPfnList ringBuf (ringSize / 4096)
    let gpadlHandle ← allocGpadlHandle
    createGpadl env offer.childRelid gpadlHandle ringSize pfns
    let sendPages := halfSize / 4096
    openChannelMsg env offer.childRelid gpadlHandle (UInt32.ofNat sendPages)
    let send ← RingHalf.new ringBuf.vaddr halfSize
    let recv ← RingHalf.new (ringBuf.vaddr + halfSize) halfSize
    pure ⟨offer.childRelid, offer.connectionId, ringBuf, gpadlHandle, send, recv⟩
  else Prog.panic

/-- Entry `i` of the list is the frame of page `i` of the region. -/
theorem getElem?_buildPfnList {region : DmaRegion} {numPages i : ℕ} (hi : i < numPages)
    (hpages : numPages * 4096 ≤ region.size) :
    ∃ pfn, (buildPfnList region numPages)[i]? = some pfn ∧
      pfn.toNat = (region.paddr + i * 4096) / 4096 := by
  have hmem := region.inMemory
  refine ⟨UInt64.ofNat (region.paddr + i * 4096) >>> 12, ?_, ?_⟩
  · rw [buildPfnList, List.getElem?_map, List.getElem?_range hi, Option.map_some]
  · -- no address of the region overflows
    rw [UInt64.toNat_shiftRight, UInt64.toNat_ofNat', Nat.mod_eq_of_lt (by omega),
      Nat.shiftRight_eq_div_pow]
    rfl

/-! ### The ring in memory -/

/-- The ring that the senders and receivers see in a half. -/
def RingHalf.ring (half : RingHalf) (memory : ℕ → UInt8) : Option Ring.RingHalf :=
  Ring.RingHalf.new (u32At (Memory.read memory half.base 4) 0)
    (u32At (Memory.read memory (half.base + 4) 4) 0)
    (fun i => memory (half.base + 4096 + i)) (half.dataSize + 4096)

/-- `RingHalf::new` panics just where the model of the ring has none. -/
theorem RingHalf.new_panics_iff (base total : ℕ) (s : Sys) (writeIndex readIndex : UInt32)
    (data : ℕ → UInt8) :
    (RingHalf.new base total s).1 = .panic ↔
      Ring.RingHalf.new writeIndex readIndex data total = none := by
  unfold RingHalf.new Ring.RingHalf.new
  by_cases h : 4096 < total ∧ total % 4096 = 0
  · rw [if_pos h, dif_pos h]
    simp
  · rw [if_neg h, dif_neg h]
    simp

/-- A half that was made holds a ring with its data area. -/
theorem RingHalf.ring_of_new {base total : ℕ} {s t : Sys} {half : RingHalf}
    (h : RingHalf.new base total s = (.ok half, t)) (memory : ℕ → UInt8) :
    ∃ r, half.ring memory = some r ∧ r.dataSize = half.dataSize := by
  unfold RingHalf.new at h
  by_cases ha : 4096 < total ∧ total % 4096 = 0
  · rw [if_pos ha] at h
    obtain rfl := Outcome.ok.inj (Prod.mk.inj h).1
    have htotal : total - 4096 + 4096 = total := Nat.sub_add_cancel ha.1.le
    have hnew : 4096 < total - 4096 + 4096 ∧ (total - 4096 + 4096) % 4096 = 0 := by rwa [htotal]
    rw [RingHalf.ring, Ring.RingHalf.new, dif_pos hnew]
    exact ⟨_, rfl, Nat.add_sub_cancel ..⟩
  · rw [if_neg ha] at h
    exact absurd (Prod.mk.inj h).1 (by simp)

/-- The addresses of a half. -/
def RingHalf.range (half : RingHalf) : Set ℕ :=
  Set.Ico half.base (half.base + 4096 + half.dataSize)

def DmaRegion.range (region : DmaRegion) : Set ℕ :=
  Set.Ico region.vaddr (region.vaddr + region.size)

/-- The halves of a channel as they ought to be, where the last message that was posted
has told the host about them. -/
structure Geometry (ch : Chan) (s : Sys) : Prop where
  disjoint : ∀ a ∈ ch.send.range, a ∉ ch.recv.range
  sendAligned : 4096 ∣ ch.send.base
  recvAligned : 4096 ∣ ch.recv.base
  sendPos : 0 < ch.send.dataSize
  recvPos : 0 < ch.recv.dataSize
  whole : ch.send.range ∪ ch.recv.range = ch.ringBuf.range
  told : ∃ m, s.posted.getLast? = some m ∧ u32At m 0 = Channel.channelmsgOpenchannel ∧
    ch.ringBuf.vaddr + (u32At m 24).toNat * 4096 = ch.recv.base

/-! ### A host that accepts -/

section

variable {env : Env} {offer : Offers.ChannelOffer} {ringSize : ℕ} {region : DmaRegion}

theorem request_ok {post : Prog (List (List UInt8)) HvError Unit} {req : Request} {s : Sys}
    {posted : List (List UInt8)} (hpost : post s.posted = (.ok (), posted))
    (hanswer : env.answer req = .ok ()) :
    request env post req s = (.ok (), { s with posted }) := by
  rw [request, hpost]
  simp only [hanswer]

/-- The state when the host has accepted both requests. -/
def asked (offer : Offers.ChannelOffer) (region : DmaRegion) (ringSize : ℕ) (s : Sys) : Sys where
  nextGpadl := s.nextGpadl + 1
  posted := s.posted ++ (Request.createGpadl offer.childRelid s.nextGpadl ringSize
      (buildPfnList region (ringSize / 4096))).messages ++
    [openchannel offer.childRelid s.nextGpadl (UInt32.ofNat (ringSize / 2 / 4096))]
  memory := s.memory

/-- The channel with halves of this size. -/
def chanOf (offer : Offers.ChannelOffer) (region : DmaRegion) (handle : UInt32) (half : ℕ) :
    Chan :=
  ⟨offer.childRelid, offer.connectionId, region, handle, ⟨region.vaddr, half - 4096⟩,
    ⟨region.vaddr + half, half - 4096⟩⟩

/-- **Once the host has accepted**, the call returns if the assertion of `RingHalf::new`
holds for a half, and panics otherwise. -/
theorem openChannel_accepted (offer : Offers.ChannelOffer) (henv : env.Accepts)
    (hmin : 8192 ≤ ringSize) (hpage : ringSize % 4096 = 0)
    (halloc : env.allocCoherent ringSize = some region) (s : Sys) :
    openChannel env offer ringSize s =
      if 4096 < ringSize / 2 ∧ ringSize / 2 % 4096 = 0 then
        (.ok (chanOf offer region s.nextGpadl (ringSize / 2)), { asked offer region ringSize s with
          memory := Memory.write (Memory.write s.memory (region.vaddr + 64) (le32 1))
            (region.vaddr + ringSize / 2 + 64) (le32 1) })
      else (.panic, asked offer region ringSize s) := by
  have hgpadl : ∀ relid handle byteCount pfns (t : Sys),
      createGpadl env relid handle byteCount pfns t = (.ok (), { t with
        posted := t.posted ++ (Request.createGpadl relid handle byteCount pfns).messages }) :=
    fun relid handle byteCount pfns t =>
      request_ok (Channel.postGpadl_ok _ henv.posted ..) (henv.answered _)
  have hopen : ∀ relid handle offset (t : Sys),
      openChannelMsg env relid handle offset t =
        (.ok (), { t with posted := t.posted ++ [openchannel relid handle offset] }) := by
    intro relid handle offset t
    refine request_ok ?_ (henv.answered _)
    rw [postMessage, henv.posted, if_neg (by simp [openchannel, Synic.payloadMax])]
  rw [openChannel, if_pos ⟨hmin, hpage⟩]
  simp only [Prog.bind_apply, Prog.ofOption, halloc, allocGpadlHandle, hgpadl, hopen]
  by_cases hhalf : 4096 < ringSize / 2 ∧ ringSize / 2 % 4096 = 0
  · simp only [RingHalf.new, if_pos hhalf]
    rfl
  · simp only [RingHalf.new, if_neg hhalf]
    rfl

/-- The halves, if the ring can be divided. -/
theorem geometry_of_half {half : ℕ} {handle : UInt32} {s : Sys} {m : List UInt8}
    (hsize : region.size = 2 * half) (hmin : 4096 < half) (hpage : half % 4096 = 0)
    (hlast : s.posted.getLast? = some m) (htype : u32At m 0 = Channel.channelmsgOpenchannel)
    (htold : (u32At m 24).toNat * 4096 = half) :
    Geometry (chanOf offer region handle half) s where
  disjoint := by
    rintro a ⟨-, hsend⟩ ⟨hrecv, -⟩
    dsimp only [chanOf] at hsend hrecv
    omega
  sendAligned := region.aligned
  recvAligned := Nat.dvd_add region.aligned (Nat.dvd_of_mod_eq_zero hpage)
  sendPos := Nat.sub_pos_of_lt hmin
  recvPos := Nat.sub_pos_of_lt hmin
  whole := by
    have hsend : region.vaddr + 4096 + (half - 4096) = region.vaddr + half := by omega
    have hrecv : region.vaddr + half + 4096 + (half - 4096) = region.vaddr + region.size := by omega
    rw [RingHalf.range, RingHalf.range, DmaRegion.range, chanOf]
    dsimp only
    rw [hsend, hrecv]
    exact Set.Ico_union_Ico_eq_Ico (by omega) (by omega)
  told := ⟨m, hlast, htype, by rw [htold]; rfl⟩

theorem openchannel_fields (relid handle offset : UInt32) :
    u32At (openchannel relid handle offset) 0 = Channel.channelmsgOpenchannel ∧
      u32At (openchannel relid handle offset) 24 = offset := by
  simp only [openchannel, List.append_assoc]
  refine ⟨u32At_head _ _, ?_⟩
  rw [← List.append_assoc, ← List.append_assoc, ← List.append_assoc, ← List.append_assoc,
    ← List.append_assoc]
  exact u32At_le32 rfl

/-- **When the geometry is right**: for a ring size that the entry accepts, and a host
that accepts, the call returns a channel with consistent halves exactly if each half is
a whole number of pages and more than one, and that number fits into the message. -/
theorem geometry_iff (henv : env.Accepts) (hmin : 8192 ≤ ringSize) (hpage : ringSize % 4096 = 0)
    (halloc : env.allocCoherent ringSize = some region) (s : Sys) :
    (∃ ch t, openChannel env offer ringSize s = (.ok ch, t) ∧ ch.ringBuf = region ∧
      Geometry ch t) ↔
    ringSize % 8192 = 0 ∧ 16384 ≤ ringSize ∧ ringSize < 2 ^ 45 := by
  have hsize := env.size_eq halloc
  have hcall := openChannel_accepted offer henv hmin hpage halloc s
  have hfields := openchannel_fields offer.childRelid s.nextGpadl
    (UInt32.ofNat (ringSize / 2 / 4096))
  constructor
  · rintro ⟨ch, t, hret, -, hgeo⟩
    by_cases hhalf : 4096 < ringSize / 2 ∧ ringSize / 2 % 4096 = 0
    · rw [if_pos hhalf, hret] at hcall
      obtain ⟨hch, rfl⟩ := Prod.mk.inj hcall
      obtain rfl := Outcome.ok.inj hch
      obtain ⟨m, hlast, -, htold⟩ := hgeo.told
      have hm : openchannel offer.childRelid s.nextGpadl (UInt32.ofNat (ringSize / 2 / 4096)) = m :=
        Option.some_inj.mp (List.getLast?_concat.symm.trans hlast)
      rw [← hm, hfields.2, UInt32.toNat_ofNat'] at htold
      have hoff : ringSize / 2 / 4096 % 2 ^ 32 * 4096 = ringSize / 2 := Nat.add_left_cancel htold
      omega
    · rw [if_neg hhalf, hret] at hcall
      exact absurd (Prod.mk.inj hcall).1 (by simp)
  · rintro ⟨hdiv, hbig, hsmall⟩
    have hhalf : 4096 < ringSize / 2 ∧ ringSize / 2 % 4096 = 0 := by omega
    rw [if_pos hhalf] at hcall
    refine ⟨_, _, hcall, rfl, geometry_of_half ?_ hhalf.1 hhalf.2 List.getLast?_concat hfields.1 ?_⟩
    · omega
    · rw [hfields.2, UInt32.toNat_ofNat']
      omega

end

/-- A host that accepts, and an allocator at 1 MiB. -/
def acceptingEnv : Env where
  allocCoherent := fun size =>
    if h : size ≤ 2 ^ 32 then
      some ⟨0x100000, 0x100000, size, by decide, by omega, by omega⟩
    else none
  size_eq := by
    intro size region h
    by_cases hle : size ≤ 2 ^ 32
    · rw [dif_pos hle, Option.some.injEq] at h
      rw [← h]
    · rw [dif_neg hle] at h
      exact absurd h (by simp)
  fails := fun _ => none
  answer := fun _ => .ok ()

theorem acceptingEnv_accepts : acceptingEnv.Accepts := ⟨fun _ => rfl, fun _ => rfl⟩

theorem acceptingEnv_alloc (size : ℕ) (h : size ≤ 2 ^ 32) :
    ∃ region, acceptingEnv.allocCoherent size = some region :=
  ⟨_, dif_pos h⟩

/-- The offer of a NetVSC device on channel 7. -/
def netvscOffer : Offers.ChannelOffer :=
  { deviceType := Boot.netvscGuid, childRelid := 7, instanceId := Boot.netvscGuid,
    connectionId := 9, monitorId := 0, monitorAllocated := false, isDedicatedInterrupt := false }

def start : Sys := ⟨1, [], fun _ => 0⟩

/-- 16 KiB is the smallest ring that works. -/
theorem geometry_iff_16384 : ∃ region,
    acceptingEnv.allocCoherent 16384 = some region ∧
    ∃ ch t, openChannel acceptingEnv netvscOffer 16384 start = (.ok ch, t) ∧
      ch.ringBuf = region ∧ Geometry ch t := by
  obtain ⟨region, halloc⟩ := acceptingEnv_alloc 16384 (by decide)
  exact ⟨region, halloc,
    (geometry_iff acceptingEnv_accepts (by decide) (by decide) halloc start).mpr (by decide)⟩

/-- **Ring sizes of 8192 and 12288 end in a panic**, though the entry accepts them and the
host has accepted the requests; of 12288 the host was told that the second half starts
at 4096, and not in the middle. -/
theorem openChannel_panics :
    (openChannel acceptingEnv netvscOffer 8192 start).1 = .panic ∧
    (openChannel acceptingEnv netvscOffer 12288 start).1 = .panic ∧
    ∃ m, (openChannel acceptingEnv netvscOffer 12288 start).2.posted.getLast? = some m ∧
      (u32At m 24).toNat * 4096 ≠ 12288 / 2 := by
  obtain ⟨small, hsmall⟩ := acceptingEnv_alloc 8192 (by decide)
  obtain ⟨odd, hodd⟩ := acceptingEnv_alloc 12288 (by decide)
  have h8192 := openChannel_accepted netvscOffer acceptingEnv_accepts (by decide) (by decide)
    hsmall start
  have h12288 := openChannel_accepted netvscOffer acceptingEnv_accepts (by decide) (by decide)
    hodd start
  rw [if_neg (by decide)] at h8192 h12288
  rw [h8192, h12288]
  refine ⟨rfl, rfl, _, List.getLast?_concat, ?_⟩
  rw [(openchannel_fields ..).2]
  decide

end OpenChannel
