/-
The synthetic video device: setting it up, and its pixels.

`SynthvidDevice::init` computes the size of the video memory from width and height,
takes the memory, and agrees with the host on version, location and mode; `put_pixel`
computes an offset from the coordinates.  Both computations are in 32 bits and wrap.

* `init_screen` — what a device that `init` returns has kept of its arguments;
* `init_panics_iff` — every message fits in its buffer;
* `pixels_of_lt` — a screen that fits in 32 bits;
* `pixels_iff` — pixels stay in the video memory and share no byte exactly if the
  screen has fewer than `2 ^ 32` bytes.
-/
import Embclox.Bits
import Embclox.Netvsc

open Bytes Effect
open Netvsc (HvError)

namespace Synthvid

def versionRequest : UInt32 := 1
def versionResponse : UInt32 := 2
def vramLocation : UInt32 := 3
def vramLocationAck : UInt32 := 4
def situationUpdate : UInt32 := 5
def dirt : UInt32 := 10

def pipeMsgData : UInt32 := 1

/-- Minor version in the upper half. -/
def versionWin10 : UInt32 := ((5 : UInt32) <<< 16) ||| 3
def versionWin8 : UInt32 := ((2 : UInt32) <<< 16) ||| 3

/-- `build_msg` with a buffer of this size; `none` is the failed assertion. -/
def buildMsg (vidType : UInt32) (body : List UInt8) (bufLen : ℕ) : Option (List UInt8) :=
  let vidHdrSize := 8 + body.length
  let total := 8 + vidHdrSize
  if total ≤ bufLen then
    some (le32 pipeMsgData ++ le32 (UInt32.ofNat vidHdrSize) ++
      le32 vidType ++ le32 (UInt32.ofNat vidHdrSize) ++ body)
  else none

def parseVidType (buf : List UInt8) : Option UInt32 :=
  if buf.length < 16 then none else some (u32At buf 8)

structure DmaRegion where
  vaddr : UInt64
  paddr : UInt64
  size : UInt64

/-- What is asked of the channel. -/
inductive Call
  | send (msg : List UInt8) (txid : UInt64)
  | recv
  | drain

/-- The channel and the host behind it: whether a message can be sent, and what the next
packet is, its length and its bytes. -/
structure Host where
  sendRaw : List Call → Option HvError
  recvWithTimeout : List Call → Except HvError (ℕ × List UInt8)

structure SynthvidDevice where
  channel : List Call
  vram : DmaRegion
  width : UInt32
  height : UInt32
  bpp : UInt32
  stride : UInt32
  nextTxid : UInt64

abbrev Dev := Prog SynthvidDevice HvError

/-! ### The messages -/

def sendRaw (host : Host) (msg : List UInt8) (txid : UInt64) : Dev Unit := fun d =>
  let d := { d with channel := d.channel ++ [.send msg txid] }
  match host.sendRaw d.channel with
  | none => (.ok (), d)
  | some e => (.err e, d)

/-- Receive into a buffer of 256 zeros. -/
def recvWithTimeout (host : Host) : Dev (ℕ × List UInt8) := fun d =>
  let d := { d with channel := d.channel ++ [.recv] }
  match host.recvWithTimeout d.channel with
  | .ok (rlen, bytes) => (.ok (rlen, (bytes ++ List.replicate 256 0).take 256), d)
  | .error e => (.err e, d)

def drainRecv : Dev Unit := Prog.modify fun d => { d with channel := d.channel ++ [.drain] }

/-- Build a message and send it under the next transaction id. -/
def send (host : Host) (vidType : UInt32) (body : List UInt8) (bufLen : ℕ) : Dev Unit := do
  let msg ← Prog.ofOption (buildMsg vidType body bufLen)
  let d ← Prog.get
  Prog.modify fun d => { d with nextTxid := d.nextTxid + 1 }
  sendRaw host msg d.nextTxid

/-- Does this packet accept the version? -/
def accepts (rlen : ℕ) (buf : List UInt8) : Bool :=
  22 ≤ rlen && parseVidType buf == some versionResponse && buf.getD 20 0 != 0

def tryVersions (host : Host) : List UInt32 → Dev Unit
  | [] => Prog.fail .versionRejected
  | version :: versions => do
      send host versionRequest (le32 version) 32
      let (rlen, buf) ← recvWithTimeout host
      if accepts rlen buf then pure () else tryVersions host versions

def negotiateVersion (host : Host) : Dev Unit := tryVersions host [versionWin10, versionWin8]

def setVramLocation (host : Host) : Dev Unit := do
  let d ← Prog.get
  send host vramLocation (List.replicate 8 0 ++ [1] ++ le64 d.vram.paddr) 48
  let (rlen, buf) ← recvWithTimeout host
  if 16 ≤ rlen ∧ parseVidType buf = some vramLocationAck then pure () else Prog.fail .timeout

def setSituation (host : Host) : Dev Unit := do
  let d ← Prog.get
  send host situationUpdate (List.replicate 8 0 ++ [1] ++
    [1] ++ le32 0 ++ [32] ++ le32 d.width ++ le32 d.height ++ le32 (d.width * 4)) 64

/-- The coordinates are `i32`; only their bits matter. -/
def dirtyRect (host : Host) (x y w h : UInt32) : Dev Unit :=
  send host dirt ([0, 1] ++ le32 x ++ le32 y ++ le32 (x + w) ++ le32 (y + h)) 64

def dirtFull (host : Host) : Dev Unit := do
  let d ← Prog.get
  dirtyRect host 0 0 d.width d.height

def handshake (host : Host) : Dev Unit := do
  negotiateVersion host
  drainRecv
  setVramLocation host
  drainRecv
  setSituation host
  drainRecv
  dirtFull host
  drainRecv

/-! ### Setting up and drawing -/

def vramSize (width height : UInt32) : UInt32 := width * height * (32 / 8)

def vramAlloc (width height : UInt32) : UInt64 :=
  ((vramSize width height).toUInt64 + 4095) &&& ~~~4095

/-- The allocator panics (`none`) or gives the virtual and physical address. -/
abbrev DmaAllocator := UInt64 → UInt64 → Option (UInt64 × UInt64)

def allocCoherent (dma : DmaAllocator) (size align : UInt64) : Option DmaRegion :=
  (dma size align).map fun (vaddr, paddr) => ⟨vaddr, paddr, size⟩

/-- The given framebuffer, or fresh memory. -/
def takeVram (dma : DmaAllocator) (fbPhys fbVaddr : Option UInt64) (size : UInt64) :
    Option DmaRegion :=
  match fbPhys, fbVaddr with
  | some phys, some vaddr => some ⟨vaddr, phys, size⟩
  | _, _ => allocCoherent dma size 4096

def init (host : Host) (channel : List Call) (width height : UInt32) (dma : DmaAllocator)
    (fbPhys fbVaddr : Option UInt64) : Outcome HvError SynthvidDevice :=
  match takeVram dma fbPhys fbVaddr (vramAlloc width height) with
  | none => .panic
  | some vram =>
    match handshake host ⟨channel, vram, width, height, 32, width, 1⟩ with
    | (.ok _, d) => .ok d
    | (.err e, _) => .err e
    | (.panic, _) => .panic

/-- The offset of a pixel, computed in 32 bits. -/
def SynthvidDevice.offset (d : SynthvidDevice) (x y : UInt32) : UInt32 := (y * d.stride + x) * 4

/-- `put_pixel`: the offsets it writes at and the bytes it writes there. -/
def SynthvidDevice.putPixel (d : SynthvidDevice) (x y : UInt32) (r g b : UInt8) :
    List (ℕ × UInt8) :=
  if d.width ≤ x ∨ d.height ≤ y then []
  else
    let offset := (d.offset x y).toNat
    [(offset, b), (offset + 1, g), (offset + 2, r), (offset + 3, 0)]

/-- Every write is in the video memory. -/
def SynthvidDevice.InVram (d : SynthvidDevice) : Prop :=
  ∀ x y r g b, ∀ w ∈ d.putPixel x y r g b, w.1 < d.vram.size.toNat

/-- Two different pixels share no byte. -/
def SynthvidDevice.NoSharing (d : SynthvidDevice) : Prop :=
  ∀ x y x' y', (x, y) ≠ (x', y') → ∀ r g b r' g' b',
    ∀ w ∈ d.putPixel x y r g b, ∀ w' ∈ d.putPixel x' y' r' g' b', w.1 ≠ w'.1

/-! ### The handshake, operation by operation -/

section

variable {host : Host}

/-- A property of programs that the operations of the handshake have and that is kept when
programs are put together.  The body of a message leaves room for the two headers. -/
structure Built (host : Host) (Q : ∀ {α : Type}, Dev α → Prop) : Prop where
  pure : ∀ {α : Type} (a : α), Q (Pure.pure a : Dev α)
  fail : ∀ {α : Type} (e : HvError), Q (Prog.fail e : Dev α)
  get : Q (Prog.get : Dev SynthvidDevice)
  bind : ∀ {α β : Type} {p : Dev α} {f : α → Dev β}, Q p → (∀ a, Q (f a)) → Q (p >>= f)
  send : ∀ (vidType : UInt32) (body : List UInt8) (bufLen : ℕ), 16 + body.length ≤ bufLen →
    Q (send host vidType body bufLen)
  recv : Q (recvWithTimeout host)
  drain : Q drainRecv

section

variable {Q : ∀ {α : Type}, Dev α → Prop}

theorem Built.tryVersions (h : Built host Q) (versions : List UInt32) :
    Q (tryVersions host versions) := by
  induction versions with
  | nil => exact h.fail _
  | cons version versions ih =>
    refine h.bind (h.send _ _ _ (by simp)) fun _ => h.bind h.recv ?_
    rintro ⟨rlen, buf⟩
    dsimp only
    split
    · exact h.pure _
    · exact ih

theorem Built.setVramLocation (h : Built host Q) : Q (setVramLocation host) := by
  refine h.bind h.get fun d => h.bind (h.send _ _ _ (by simp)) fun _ => h.bind h.recv ?_
  rintro ⟨rlen, buf⟩
  dsimp only
  split
  · exact h.pure _
  · exact h.fail _

theorem Built.handshake (h : Built host Q) : Q (handshake host) := by
  have hsituation : Q (setSituation host) := h.bind h.get fun d => h.send _ _ _ (by simp)
  have hdirt : Q (dirtFull host) := h.bind h.get fun d => h.send _ _ _ (by simp)
  refine h.bind (h.tryVersions _) fun _ => h.bind h.drain fun _ => ?_
  refine h.bind h.setVramLocation fun _ => h.bind h.drain fun _ => ?_
  refine h.bind hsituation fun _ => h.bind h.drain fun _ => ?_
  exact h.bind hdirt fun _ => h.drain

end

/-! ### What `init` keeps -/

/-- The part of a device that `put_pixel` depends on. -/
def SynthvidDevice.screen (d : SynthvidDevice) : UInt64 × UInt32 × UInt32 × UInt32 :=
  (d.vram.size, d.width, d.height, d.stride)

theorem sendRaw_screen (msg : List UInt8) (txid : UInt64) :
    Prog.Leaves SynthvidDevice.screen (sendRaw host msg txid) := by
  intro d
  unfold sendRaw
  dsimp only
  split <;> rfl

theorem recvWithTimeout_screen :
    Prog.Leaves SynthvidDevice.screen (recvWithTimeout host) := by
  intro d
  unfold recvWithTimeout
  dsimp only
  split <;> rfl

theorem send_screen (vidType : UInt32) (body : List UInt8) (bufLen : ℕ) :
    Prog.Leaves SynthvidDevice.screen (send host vidType body bufLen) := by
  refine (Prog.Leaves.ofOption _).bind fun msg => Prog.Leaves.get.bind fun d => ?_
  exact Prog.Leaves.bind (Prog.Leaves.modify fun _ => rfl) fun _ => sendRaw_screen msg _

theorem built_screen : Built host (Prog.Leaves SynthvidDevice.screen) where
  pure := Prog.Leaves.pure
  fail := Prog.Leaves.fail
  get := Prog.Leaves.get
  bind := Prog.Leaves.bind
  send := fun vidType body bufLen _ => send_screen vidType body bufLen
  recv := recvWithTimeout_screen
  drain := Prog.Leaves.modify fun _ => rfl

/-- The video memory has the computed size, whichever it is. -/
theorem takeVram_size {dma : DmaAllocator} {fbPhys fbVaddr : Option UInt64} {size : UInt64}
    {vram : DmaRegion} (h : takeVram dma fbPhys fbVaddr size = some vram) : vram.size = size := by
  unfold takeVram at h
  split at h
  · obtain rfl := Option.some_inj.mp h
    rfl
  · obtain ⟨addr, -, rfl⟩ := Option.map_eq_some_iff.mp h
    rfl

theorem init_screen {channel : List Call} {width height : UInt32} {dma : DmaAllocator}
    {fbPhys fbVaddr : Option UInt64} {d : SynthvidDevice}
    (h : init host channel width height dma fbPhys fbVaddr = .ok d) :
    d.vram.size = vramAlloc width height ∧ d.width = width ∧ d.height = height ∧
      d.stride = width := by
  unfold init at h
  split at h
  · cases h
  · next vram hvram =>
    have hleaves : (handshake host ⟨channel, vram, width, height, 32, width, 1⟩).2.screen =
        (vram.size, width, height, width) := built_screen.handshake _
    split at h
    · next d' hrun =>
      obtain rfl := Outcome.ok.inj h
      rw [hrun] at hleaves
      simp only [SynthvidDevice.screen, Prod.mk.injEq, takeVram_size hvram] at hleaves
      exact hleaves
    · cases h
    · cases h

/-! ### No message is too long for its buffer -/

theorem sendRaw_safe (msg : List UInt8) (txid : UInt64) : Prog.Safe (sendRaw host msg txid) := by
  intro d
  unfold sendRaw
  dsimp only
  split <;> exact fun h => by cases h

theorem recvWithTimeout_safe : Prog.Safe (recvWithTimeout host) := by
  intro d
  unfold recvWithTimeout
  dsimp only
  split <;> exact fun h => by cases h

/-- The assertion of `build_msg` holds if the body leaves room for the two headers. -/
theorem send_safe (vidType : UInt32) {body : List UInt8} {bufLen : ℕ}
    (h : 16 + body.length ≤ bufLen) : Prog.Safe (send host vidType body bufLen) := by
  obtain ⟨msg, hmsg⟩ : ∃ msg, buildMsg vidType body bufLen = some msg :=
    ⟨_, if_pos (by omega)⟩
  have hsome : Prog.Safe (Prog.ofOption (buildMsg vidType body bufLen) : Dev (List UInt8)) := by
    rw [hmsg]
    exact Prog.Safe.pure msg
  refine hsome.bind fun msg => Prog.Safe.get.bind fun d => ?_
  exact Prog.Safe.bind (Prog.Safe.modify _) fun _ => sendRaw_safe msg _

theorem built_safe : Built host Prog.Safe where
  pure := Prog.Safe.pure
  fail := Prog.Safe.fail
  get := Prog.Safe.get
  bind := Prog.Safe.bind
  send := fun vidType _ _ h => send_safe vidType h
  recv := recvWithTimeout_safe
  drain := Prog.Safe.modify _

/-- **`init` panics only in the allocator**, whatever the host does. -/
theorem init_panics_iff (channel : List Call) (width height : UInt32) (dma : DmaAllocator)
    (fbPhys fbVaddr : Option UInt64) :
    init host channel width height dma fbPhys fbVaddr = .panic ↔
      takeVram dma fbPhys fbVaddr (vramAlloc width height) = none := by
  unfold init
  split
  · next h => exact iff_of_true rfl h
  · next vram h =>
    have hsafe : (handshake host ⟨channel, vram, width, height, 32, width, 1⟩).1 ≠ .panic :=
      built_safe.handshake _
    refine iff_of_false ?_ (by simp [h])
    split
    · exact fun h' => by cases h'
    · exact fun h' => by cases h'
    · next hrun =>
      rw [hrun] at hsafe
      exact absurd rfl hsafe

end

/-! ### The pixels of a screen -/

variable {d : SynthvidDevice} {x y x' y' : UInt32} {r g b : UInt8}

theorem toNat_vramSize (width height : UInt32) :
    (vramSize width height).toNat = 4 * (width.toNat * height.toNat) % 2 ^ 32 := by
  have hfour : ((32 : UInt32) / 8).toNat = 4 := by decide
  rw [vramSize, UInt32.toNat_mul, UInt32.toNat_mul, hfour]
  omega

/-- The size is rounded up to pages. -/
theorem toNat_vramAlloc (width height : UInt32) :
    (vramAlloc width height).toNat = ((vramSize width height).toNat + 4095) / 4096 * 4096 := by
  have hlt := (vramSize width height).toNat_lt
  have hmask : (4095 : UInt64).toBitVec = 1#64 <<< 12 - 1#64 := by decide
  rw [vramAlloc, ← UInt64.toNat_toBitVec, UInt64.toBitVec_and, UInt64.toBitVec_not, hmask,
    Bits.toNat_and_not_low (by decide), UInt64.toNat_toBitVec, UInt64.toNat_add,
    UInt32.toNat_toUInt64]
  have hmod : ((vramSize width height).toNat + (4095 : UInt64).toNat) % 2 ^ 64 =
      (vramSize width height).toNat + 4095 := Nat.mod_eq_of_lt (by simp; omega)
  rw [hmod]
  rfl

theorem toNat_offset (d : SynthvidDevice) (x y : UInt32) :
    (d.offset x y).toNat = 4 * (y.toNat * d.stride.toNat + x.toNat) % 2 ^ 32 := by
  have hfour : (4 : UInt32).toNat = 4 := by decide
  rw [SynthvidDevice.offset, UInt32.toNat_mul, UInt32.toNat_add, UInt32.toNat_mul, hfour]
  omega

/-- The index of a pixel of a screen. -/
theorem index_lt {w h x y : ℕ} (hx : x < w) (hy : y < h) : y * w + x < w * h := by
  calc y * w + x < y * w + w := by omega
    _ = (y + 1) * w := (Nat.succ_mul y w).symm
    _ ≤ h * w := Nat.mul_le_mul_right w hy
    _ = w * h := Nat.mul_comm h w

theorem index_inj {w x y x' y' : ℕ} (hx : x < w) (hx' : x' < w)
    (h : y * w + x = y' * w + x') : x = x' ∧ y = y' := by
  have hmod := congrArg (· % w) h
  have hdiv := congrArg (· / w) h
  have hpos : 0 < w := by omega
  simp only [Nat.mul_add_mod_of_lt hx, Nat.mul_add_mod_of_lt hx'] at hmod
  simp only [Nat.mul_comm _ w, Nat.mul_add_div hpos, Nat.div_eq_of_lt hx, Nat.div_eq_of_lt hx',
    Nat.add_zero] at hdiv
  exact ⟨hmod, hdiv⟩

/-- Only pixels of the screen are drawn, each in the four bytes at its offset. -/
theorem mem_putPixel {w : ℕ × UInt8} (h : w ∈ d.putPixel x y r g b) :
    x.toNat < d.width.toNat ∧ y.toNat < d.height.toNat ∧
      (d.offset x y).toNat ≤ w.1 ∧ w.1 < (d.offset x y).toNat + 4 := by
  unfold SynthvidDevice.putPixel at h
  split at h
  · exact absurd h List.not_mem_nil
  · next hin =>
    rw [not_or, UInt32.not_le, UInt32.not_le] at hin
    refine ⟨UInt32.lt_iff_toNat_lt.mp hin.1, UInt32.lt_iff_toNat_lt.mp hin.2, ?_⟩
    simp only [List.mem_cons, List.not_mem_nil, or_false] at h
    rcases h with rfl | rfl | rfl | rfl <;> dsimp only <;> omega

theorem mem_putPixel_offset (hx : x.toNat < d.width.toNat) (hy : y.toNat < d.height.toNat) :
    ((d.offset x y).toNat, b) ∈ d.putPixel x y r g b := by
  have hin : ¬ (d.width ≤ x ∨ d.height ≤ y) := by
    rw [not_or, UInt32.not_le, UInt32.not_le]
    exact ⟨UInt32.lt_iff_toNat_lt.mpr hx, UInt32.lt_iff_toNat_lt.mpr hy⟩
  rw [SynthvidDevice.putPixel, if_neg hin]
  exact List.mem_cons_self

/-- **A screen of fewer than `2 ^ 32` bytes**: neither computation wraps. -/
theorem pixels_of_lt (hsize : (vramSize d.width d.height).toNat ≤ d.vram.size.toNat)
    (hstride : d.stride = d.width)
    (hlt : 4 * (d.width.toNat * d.height.toNat) < 2 ^ 32) : d.InVram ∧ d.NoSharing := by
  have hoffset : ∀ {x y : UInt32}, x.toNat < d.width.toNat → y.toNat < d.height.toNat →
      (d.offset x y).toNat = 4 * (y.toNat * d.width.toNat + x.toNat) := by
    intro x y hx hy
    have := index_lt hx hy
    rw [toNat_offset, hstride, Nat.mod_eq_of_lt (by omega)]
  rw [toNat_vramSize, Nat.mod_eq_of_lt hlt] at hsize
  constructor
  · intro x y r g b w hw
    obtain ⟨hx, hy, -, hw⟩ := mem_putPixel hw
    have := index_lt hx hy
    rw [hoffset hx hy] at hw
    omega
  · intro x y x' y' hne r g b r' g' b' w hw w' hw' heq
    obtain ⟨hx, hy, hge, hlt⟩ := mem_putPixel hw
    obtain ⟨hx', hy', hge', hlt'⟩ := mem_putPixel hw'
    rw [hoffset hx hy] at hge hlt
    rw [hoffset hx' hy'] at hge' hlt'
    -- The four bytes at an offset belong to one index.
    have hindex : y.toNat * d.width.toNat + x.toNat = y'.toNat * d.width.toNat + x'.toNat := by
      omega
    obtain ⟨hxx, hyy⟩ := index_inj hx hx' hindex
    exact hne (by rw [UInt32.toNat_inj.mp hxx, UInt32.toNat_inj.mp hyy])

/-- If the size wraps to 0, the first pixel is outside. -/
theorem not_inVram (hsize : d.vram.size = 0) (hw : 0 < d.width.toNat)
    (hh : 0 < d.height.toNat) : ¬ d.InVram := by
  intro h
  have hmem := h 0 0 0 0 0 _ (mem_putPixel_offset hw hh)
  rw [hsize] at hmem
  exact Nat.not_lt_zero _ hmem

/-- The pixel with index `2 ^ 30` lies on the first one. -/
theorem not_noSharing (hstride : d.stride = d.width)
    (hlt : 2 ^ 32 < 4 * (d.width.toNat * d.height.toNat)) : ¬ d.NoSharing := by
  intro h
  have hw : 0 < d.width.toNat := Nat.pos_of_ne_zero fun h0 => by simp [h0] at hlt
  have hh : 0 < d.height.toNat := Nat.pos_of_ne_zero fun h0 => by simp [h0] at hlt
  have hdiv : 2 ^ 30 / d.width.toNat < d.height.toNat :=
    (Nat.div_lt_iff_lt_mul hw).mpr (by rw [Nat.mul_comm]; omega)
  have hx : (UInt32.ofNat (2 ^ 30 % d.width.toNat)).toNat = 2 ^ 30 % d.width.toNat := by
    have := Nat.mod_le (2 ^ 30) d.width.toNat
    rw [UInt32.toNat_ofNat', Nat.mod_eq_of_lt (by omega)]
  have hy : (UInt32.ofNat (2 ^ 30 / d.width.toNat)).toNat = 2 ^ 30 / d.width.toNat := by
    have := Nat.div_le_self (2 ^ 30) d.width.toNat
    rw [UInt32.toNat_ofNat', Nat.mod_eq_of_lt (by omega)]
  have hindex : 2 ^ 30 / d.width.toNat * d.width.toNat + 2 ^ 30 % d.width.toNat = 2 ^ 30 := by
    rw [Nat.mul_comm]
    exact Nat.div_add_mod _ _
  have hoffset : (d.offset (UInt32.ofNat (2 ^ 30 % d.width.toNat))
      (UInt32.ofNat (2 ^ 30 / d.width.toNat))).toNat = (d.offset 0 0).toNat := by
    rw [toNat_offset, toNat_offset, hstride, hx, hy, hindex]
    simp
  have hne : (UInt32.ofNat (2 ^ 30 % d.width.toNat), UInt32.ofNat (2 ^ 30 / d.width.toNat)) ≠
      ((0, 0) : UInt32 × UInt32) := by
    intro heq
    obtain ⟨hx0, hy0⟩ := Prod.mk.inj heq
    rw [hx0] at hx
    rw [hy0] at hy
    rw [← hx, ← hy] at hindex
    simp at hindex
  refine h _ _ _ _ hne 0 0 0 0 0 0 _ (mem_putPixel_offset ?_ ?_) _
    (mem_putPixel_offset (by simpa using hw) (by simpa using hh)) hoffset
  · rw [hx]
    exact Nat.mod_lt _ hw
  · rw [hy]
    exact hdiv

/-- **Pixels of a device that `init` has returned.**  All writes of `put_pixel` are in the
video memory and no two pixels share a byte, exactly if the screen has fewer than `2 ^ 32`
bytes. -/
theorem pixels_iff {host : Host} {channel : List Call} {width height : UInt32}
    {dma : DmaAllocator} {fbPhys fbVaddr : Option UInt64}
    (h : init host channel width height dma fbPhys fbVaddr = .ok d) :
    d.InVram ∧ d.NoSharing ↔ 4 * (width.toNat * height.toNat) < 2 ^ 32 := by
  obtain ⟨hsize, rfl, rfl, hstride⟩ := init_screen h
  have halloc := toNat_vramAlloc d.width d.height
  rw [← hsize] at halloc
  constructor
  · intro hpixels
    rcases Nat.lt_trichotomy (4 * (d.width.toNat * d.height.toNat)) (2 ^ 32) with hlt | heq | hgt
    · exact hlt
    · -- The size wraps to 0.
      refine absurd hpixels.1 (not_inVram ?_ ?_ ?_)
      · rw [toNat_vramSize, heq] at halloc
        exact UInt64.toNat_inj.mp halloc
      · exact Nat.pos_of_ne_zero fun h0 => by simp [h0] at heq
      · exact Nat.pos_of_ne_zero fun h0 => by simp [h0] at heq
    · exact absurd hpixels.2 (not_noSharing hstride hgt)
  · intro hlt
    exact pixels_of_lt (by omega) hstride hlt

/-- A host that accepts everything: its second answer is the acknowledgement. -/
def willing : Host where
  sendRaw := fun _ => none
  recvWithTimeout := fun calls =>
    let vidType := if calls.length = 2 then versionResponse else vramLocationAck
    .ok (22, List.replicate 8 0 ++ le32 vidType ++ le32 14 ++ le32 versionWin10 ++ [1, 1])

/-- The framebuffer of the firmware is there. -/
def firmwareInit (width height : UInt32) : Outcome HvError SynthvidDevice :=
  init willing [] width height (fun _ _ => none) (some 0xF8000000) (some 0xFFFF8000F8000000)

theorem pixels_iff_xga : ∃ d, firmwareInit 1024 768 = .ok d ∧ d.InVram ∧ d.NoSharing := by
  obtain ⟨d, hd⟩ : ∃ d, firmwareInit 1024 768 = .ok d :=
    Outcome.exists_of_isOk (by decide +kernel)
  exact ⟨d, hd, (pixels_iff hd).mpr (by decide)⟩

/-- **A wrapped size**: 32 pages for a screen of a little more than 4 GiB.  The first pixel
of the second line is outside, and the first pixels of two lines share their bytes. -/
theorem pixels_wrap : ∃ d, firmwareInit 32768 32769 = .ok d ∧
    d.vram.size = 131072 ∧ (131072, 3) ∈ d.putPixel 0 1 1 2 3 ∧ ¬ d.InVram ∧
    (0, 3) ∈ d.putPixel 0 0 1 2 3 ∧ (0, 6) ∈ d.putPixel 0 32768 4 5 6 ∧ ¬ d.NoSharing := by
  obtain ⟨d, hd⟩ : ∃ d, firmwareInit 32768 32769 = .ok d :=
    Outcome.exists_of_isOk (by decide +kernel)
  obtain ⟨hsize, hwidth, hheight, hstride⟩ := init_screen hd
  have hput : ∀ x y r g b, d.putPixel x y r g b =
      SynthvidDevice.putPixel ⟨[], ⟨0, 0, 0⟩, 32768, 32769, 32, 32768, 0⟩ x y r g b := by
    intro x y r g b
    simp only [SynthvidDevice.putPixel, SynthvidDevice.offset, hwidth, hheight, hstride]
  have hout : (131072, 3) ∈ d.putPixel 0 1 1 2 3 := by
    rw [hput]
    decide
  have hfirst : (0, 3) ∈ d.putPixel 0 0 1 2 3 := by
    rw [hput]
    decide
  have hsecond : (0, 6) ∈ d.putPixel 0 32768 4 5 6 := by
    rw [hput]
    decide
  have hpages : vramAlloc 32768 32769 = 131072 := by decide
  rw [hpages] at hsize
  refine ⟨d, hd, hsize, hout, fun h => ?_, hfirst, hsecond, fun h => ?_⟩
  · have := h 0 1 1 2 3 _ hout
    rw [hsize] at this
    exact absurd this (by decide)
  · exact h 0 0 0 32768 (by decide) 1 2 3 4 5 6 _ hfirst _ hsecond rfl

end Synthvid
