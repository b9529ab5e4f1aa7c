/-
The NIC wrapper around a NetVSC device.

`tx_ready` looks at the section flag, but `transmit_with` also needs room on the send
ring of the channel, and turns the error it gets without it into a panic.  The receive
loop inside `tx_ready` may itself use that room up: it writes a completion for every
transfer-page packet.

* `transmitWith` — the device's `transmit_with` with the result of its closure, which
  `exec_of_transmitWith` finds among the runs of the device;
* `NicNetvsc` — the wrapper, with the MTU that `init` has checked;
* `transmits_iff` — after `tx_ready` returned `true`, a transmit calls its closure once
  and does not panic exactly if the send ring has room;
* `transmit_panics` — the completion that `tx_ready` sends takes the last room.
-/
import Embclox.NetvscSend

open Bytes Effect Ring Nvsp Run

namespace Netvsc

/-- `has_tx_space`, with a drain of the channel of up to `n` packets. -/
def hasTxSpace (n : ℕ) : Dev Bool := do
  let _ ← Prog.attempt (pumpChannel n)
  let d ← Prog.get
  return d.sendSectionFree

/-! ### Transmitting with a closure -/

section

variable {γ : Type}

/-- The end of `transmit_with`: the closure gets the payload region of section 0, and
its result is returned if the message was sent. -/
def sendFrame (frameLen : ℕ) (f : List UInt8 → γ × List UInt8) : Dev γ := do
  let d ← Prog.get
  transmitFrame frameLen fun payload => (f payload).2
  return (f (Memory.read d.sendBuf rndisPacketHdrSize frameLen)).1

/-- The check of the section, with one drain of the channel of up to `n` packets. -/
def awaitSection (n : ℕ) : Dev Unit := do
  let d ← Prog.get
  if d.sendSectionFree then return ()
  else do
    let _ ← Prog.attempt (pumpChannel n)
    let d ← Prog.get
    if d.sendSectionFree then return () else Prog.fail .timeout

/-- `transmit_with`. -/
def transmitWith (n frameLen : ℕ) (f : List UInt8 → γ × List UInt8) : Dev γ := do
  if netvscSendBufSize < rndisPacketHdrSize + frameLen then Prog.panic
  else do
    awaitSection n
    sendFrame frameLen f

variable {n frameLen : ℕ} {f : List UInt8 → γ × List UInt8} {d d' : NetvscDevice}

theorem transmitWith_of_free (hlen : ¬ netvscSendBufSize < rndisPacketHdrSize + frameLen)
    (hfree : d.sendSectionFree = true) : transmitWith n frameLen f d = sendFrame frameLen f d := by
  have hawait : awaitSection n d = (.ok (), d) := by
    rw [awaitSection, Prog.get_bind, if_pos hfree]
    rfl
  rw [transmitWith, if_neg hlen, Prog.bind_apply, hawait]

/-- What `transmit_with` returns when the section is free. -/
theorem sendFrame_cases (frameLen : ℕ) (f : List UInt8 → γ × List UInt8) (d : NetvscDevice) :
    (SectionRoom d.send ∧ (sendFrame frameLen f d).1 =
      .ok (f (Memory.read d.sendBuf rndisPacketHdrSize frameLen)).1) ∨
    (¬ SectionRoom d.send ∧ ((sendFrame frameLen f d).1 = .panic ∨
      (sendFrame frameLen f d).1 = .err (.hypercallFailed 0xFFFF))) := by
  rw [sendFrame, Prog.get_bind, Prog.bind_apply]
  have hcases := transmitFrame_attempted frameLen (fun payload => (f payload).2) d
  generalize transmitFrame frameLen (fun payload => (f payload).2) d = x at hcases
  obtain ⟨_, ⟨hnone, ho, -⟩ | ⟨hfull, ho, -⟩ | ⟨hroom, ho, -⟩⟩ := hcases
  · rw [show x = (.panic, x.2) from Prod.ext ho rfl]
    refine .inr ⟨?_, .inl rfl⟩
    rintro ⟨avail, havail, -⟩
    exact absurd (hnone.symm.trans havail) (by simp)
  · rw [show x = (.err (.hypercallFailed 0xFFFF), x.2) from Prod.ext ho rfl]
    refine .inr ⟨fun hroom => ?_, .inr rfl⟩
    exact absurd (hroom.not_full.symm.trans hfull) Bool.false_ne_true
  · rw [show x = (.ok (), x.2) from Prod.ext ho rfl]
    exact .inl ⟨hroom, rfl⟩

/-- The run of a call ends as `transmit_with` does after its check. -/
theorem perform_finishCall (c : Ctl) (hfree : d.sendSectionFree = true) :
    (perform (finishCall (.transmitWith frameLen fun payload => (f payload).2)) ⟨d, c⟩).dev =
      (sendFrame frameLen f d).2 := by
  rw [perform_dev, finishCall, Prog.get_bind, if_pos hfree, sendFrame, Prog.get_bind,
    Prog.bind_apply, Prog.bind_apply, Prog.attempt]
  rcases transmitFrame frameLen (fun payload => (f payload).2) d with ⟨_ | _ | _, e⟩ <;> rfl

/-- The same with the section in use. -/
theorem perform_finishCall_busy (c : Ctl) (hbusy : d.sendSectionFree ≠ true) :
    (perform (finishCall (.transmitWith frameLen fun payload => (f payload).2)) ⟨d, c⟩).dev =
      d := by
  rw [perform_dev, finishCall, Prog.get_bind, if_neg hbusy]
  rfl

/-- **`transmit_with` is a run of the device**, if its drain of the channel comes to an
end: the call and then one step for each receive. -/
theorem exec_of_transmitWith
    (hpump : d.sendSectionFree ≠ true → ∃ d', pumpChannel n d = (.ok false, d')) :
    ∃ l t, (∀ a ∈ l, a = receives) ∧
      Exec step (fun _ _ => True) ⟨d, .ready⟩
        (.call (.transmitWith frameLen fun payload => (f payload).2) :: l) t ∧
      t.dev = (transmitWith n frameLen f d).2 := by
  by_cases hlen : netvscSendBufSize < rndisPacketHdrSize + frameLen
  · refine ⟨[], _, by simp, .cons trivial rfl .nil, ?_⟩
    rw [perform_dev, startCall, if_pos hlen, transmitWith, if_pos hlen]
    rfl
  by_cases hfree : d.sendSectionFree = true
  · have hstart : startCall (.transmitWith frameLen fun payload => (f payload).2) d =
        finishCall (.transmitWith frameLen fun payload => (f payload).2) d := by
      rw [startCall, if_neg hlen, Prog.get_bind, if_pos hfree]
    refine ⟨[], _, by simp, .cons trivial rfl .nil, ?_⟩
    rw [transmitWith_of_free hlen hfree, ← perform_finishCall .ready hfree]
    exact congrArg Sys.dev (perform_congr hstart)
  · obtain ⟨d', hd'⟩ := hpump hfree
    obtain ⟨l, hl, hrun⟩ := exec_of_pumpChannel (G := fun _ _ => True) (fun _ => trivial) hd'
      (.transmitWith frameLen fun payload => (f payload).2)
    have hstart : step ⟨d, .ready⟩ (.call (.transmitWith frameLen fun payload => (f payload).2)) =
        some ⟨d, .pump (.transmitWith frameLen fun payload => (f payload).2)⟩ := by
      show some (perform _ _) = _
      unfold perform
      rw [startCall, if_neg hlen, Prog.get_bind, if_neg hfree]
      rfl
    refine ⟨l, _, hl, .cons trivial hstart hrun, ?_⟩
    rw [transmitWith, if_neg hlen, Prog.bind_apply, awaitSection, Prog.get_bind, if_neg hfree,
      Prog.bind_apply, Prog.attempt, hd']
    dsimp only
    rw [Prog.get_bind]
    by_cases hfree' : d'.sendSectionFree = true
    · rw [if_pos hfree', perform_finishCall _ hfree']
      rfl
    · rw [if_neg hfree', perform_finishCall_busy _ hfree']
      rfl

end

/-! ### The wrapper -/

/-- `NicNetvsc`; the hardware address is left out. -/
structure NicNetvsc where
  device : NetvscDevice
  mtu : UInt32
  mtu_ok : mtu.toNat + 14 ≤ rxFrameMax

namespace NicNetvsc

/-- The end of `probe`: the device comes from `init`, whose last check the MTU has
passed. -/
def ofInit (d : NetvscDevice) (h : (checkMtu d).1 = .ok .ready) : NicNetvsc where
  device := d
  mtu := d.mtu
  mtu_ok := by
    by_contra hmtu
    rw [checkMtu, Prog.get_bind, if_neg hmtu] at h
    exact absurd h (by simp)

def onDevice {α : Type} (p : Dev α) : Prog NicNetvsc HvError α := fun nic =>
  ((p nic.device).1, { nic with device := (p nic.device).2 })

/-- The advertised `max_transmission_unit`. -/
def maxTransmissionUnit (nic : NicNetvsc) : ℕ := nic.mtu.toNat

/-- `transmit_with`: the closure is called on the caller's state `g`, which it may
change. -/
def transmitWith {γ : Type} (n len : ℕ) (f : γ → List UInt8 → γ × List UInt8) (g : γ) :
    Prog NicNetvsc HvError γ :=
  Prog.expect (onDevice (Netvsc.transmitWith n len (f g)))

/-- A frame of the advertised size fits in section 0. -/
theorem fits {nic : NicNetvsc} {len : ℕ} (hlen : len ≤ nic.maxTransmissionUnit) :
    ¬ netvscSendBufSize < rndisPacketHdrSize + len := by
  have hmtu : nic.mtu.toNat + 14 ≤ 1600 := nic.mtu_ok
  have hlen' : len ≤ nic.mtu.toNat := hlen
  show ¬ 1024 * 1024 < 44 + len
  omega

section

variable {γ : Type} {nic : NicNetvsc} {len : ℕ} (hlen : len ≤ nic.maxTransmissionUnit)
  (hfree : nic.device.sendSectionFree = true) (n : ℕ) (f : γ → List UInt8 → γ × List UInt8) (g : γ)

include hlen hfree

/-- With a free section and room on the ring, the closure is called on the payload
region. -/
theorem transmitWith_of_room (hroom : SectionRoom nic.device.send) :
    ∃ nic', transmitWith n len f g nic =
      (.ok (f g (Memory.read nic.device.sendBuf rndisPacketHdrSize len)).1, nic') := by
  rw [transmitWith]
  unfold Prog.expect onDevice
  rw [transmitWith_of_free (fits hlen) hfree]
  rcases sendFrame_cases len (f g) nic.device with ⟨-, hok⟩ | ⟨hno, -⟩
  · rw [hok]
    exact ⟨_, rfl⟩
  · exact absurd hroom hno

/-- Without room on the ring, the error of the device becomes a panic. -/
theorem transmitWith_panics (hroom : ¬ SectionRoom nic.device.send) :
    (transmitWith n len f g nic).1 = .panic := by
  rw [transmitWith]
  unfold Prog.expect onDevice
  rw [transmitWith_of_free (fits hlen) hfree]
  rcases sendFrame_cases len (f g) nic.device with ⟨hyes, -⟩ | ⟨-, hpanic | herr⟩
  · exact absurd hyes hroom
  · rw [hpanic]
  · rw [herr]

end

end NicNetvsc

/-! ### From `tx_ready` to `transmit_with` -/

/-- No call starts. -/
def NoCall (_ : Sys) : Act → Prop
  | .call _ => False
  | _ => True

/-- No call starts but `recv_with`. -/
def OnlyRecv (_ : Sys) : Act → Prop
  | .call .recvWith => True
  | .call _ => False
  | _ => True

instance (s : Sys) : (a : Act) → Decidable (NoCall s a)
  | .call _ => .isFalse id
  | .guest _ | .put _ _ _ | .take => .isTrue trivial

/-- `tx_ready` was called on `nic` and returned `true`, and `recv_with` is the only call
since then that led to the system `s`.  The host acts at any time. -/
def TxReady (nic : NicNetvsc) (s : Sys) : Prop :=
  ∃ l s₁ l', Exec step NoCall (perform (startCall .hasTxSpace) ⟨nic.device, .ready⟩) l s₁ ∧
    s₁.ctl = .ready ∧ s₁.dev.sendSectionFree = true ∧ Exec step OnlyRecv s₁ l' s

/-- The call itself, with a host that does not act meanwhile. -/
theorem txReady_of_hasTxSpace {nic : NicNetvsc} {n : ℕ} {d : NetvscDevice}
    (hpump : pumpChannel n nic.device = (.ok false, d))
    (h : (hasTxSpace n nic.device).1 = .ok true) : TxReady nic ⟨d, .ready⟩ := by
  obtain ⟨l, -, hrun⟩ :=
    exec_of_pumpChannel (G := NoCall) (fun _ => trivial) hpump .hasTxSpace
  refine ⟨l, _, [], hrun, rfl, ?_, .nil⟩
  rw [hasTxSpace, Prog.bind_apply, Prog.attempt, hpump] at h
  dsimp only at h
  rw [Prog.get_bind] at h
  show d.sendSectionFree = true
  simpa using h

/-- Neither `recv_with` nor the host touches the section flag. -/
theorem onlyRecv_step {s u : Sys} {a : Act} (hs : s.ctl = .ready ∧ s.dev.sendSectionFree = true)
    (ha : OnlyRecv s a) (h : step s a = some u) :
    u.ctl = .ready ∧ u.dev.sendSectionFree = true := by
  cases a with
  | guest env => simp [step, hs.1, Ctl.running] at h
  | call c =>
    cases c with
    | recvWith =>
      obtain rfl : perform (startCall .recvWith) s = u := by simpa [step, hs.1] using h
      refine ⟨rfl, ?_⟩
      show (recvWith s.dev).2.sendSectionFree = true
      rcases hp : s.dev.pendingRx with _ | frame <;> simpa [recvWith, Prog.modify, hp] using hs.2
    | _ => exact absurd ha id
  | put p mem tag =>
    obtain ⟨r, rfl⟩ := step_put h
    exact hs
  | take =>
    obtain rfl : _ = u := Option.some_inj.mp h
    exact hs

theorem TxReady.free {nic : NicNetvsc} {s : Sys} (h : TxReady nic s) :
    s.dev.sendSectionFree = true := by
  obtain ⟨l, s₁, l', -, hctl, hfree, hrun⟩ := h
  exact (hrun.invariant ⟨hctl, hfree⟩ onlyRecv_step).2

/-- `transmit_with` calls its closure once, on a buffer of `len` bytes, and does not
panic, whatever the closure and the caller's state are. -/
def Transmits (nic : NicNetvsc) (len : ℕ) : Prop :=
  ∀ {γ : Type} (n : ℕ) (f : γ → List UInt8 → γ × List UInt8) (g : γ), ∃ buf nic',
    buf.length = len ∧ NicNetvsc.transmitWith n len f g nic = (.ok (f g buf).1, nic')

/-- **After `tx_ready` returned `true`**, the transmit works exactly if the send ring of
the channel has room for its message. -/
theorem transmits_iff {nic : NicNetvsc} {s : Sys} (h : TxReady nic s) {len : ℕ}
    (hlen : len ≤ nic.maxTransmissionUnit) :
    Transmits { nic with device := s.dev } len ↔ SectionRoom s.dev.send := by
  constructor
  · intro ht
    by_contra hroom
    obtain ⟨buf, nic', -, hok⟩ := @ht Unit 0 (fun _ buf => ((), buf)) ()
    have hpanic := @NicNetvsc.transmitWith_panics Unit { nic with device := s.dev } len hlen h.free
      0 (fun _ buf => ((), buf)) () hroom
    rw [hok] at hpanic
    exact absurd hpanic (by simp)
  · intro hroom γ n f g
    obtain ⟨nic', hnic⟩ :=
      @NicNetvsc.transmitWith_of_room γ { nic with device := s.dev } len hlen h.free n f g hroom
    exact ⟨_, nic', Memory.length_read s.dev.sendBuf rndisPacketHdrSize len, hnic⟩

/-- The wrapper around a device with an MTU of 1500 bytes and this send ring. -/
def nicWith (r : RingHalf) : NicNetvsc :=
  .ofInit { openedDevice { } with mtu := 1500, send := r } rfl

theorem transmits_iff_emptyRing :
    ∃ s, TxReady (nicWith (openedHalf fun _ => 0)) s ∧
      Transmits { nicWith (openedHalf fun _ => 0) with device := s.dev } 1500 := by
  obtain ⟨s, hs, hctl, hfree, havail⟩ : ∃ s, Exec step NoCall
      (perform (startCall .hasTxSpace) ⟨(nicWith (openedHalf fun _ => 0)).device, .ready⟩)
      [receives] s ∧ s.ctl = .ready ∧ s.dev.sendSectionFree = true ∧
      sendAvail s.dev.send = some 126976 :=
    Exec.exists_of_run (by decide +kernel)
  have hready : TxReady (nicWith (openedHalf fun _ => 0)) s :=
    ⟨[receives], s, [], hs, hctl, hfree, .nil⟩
  exact ⟨s, hready, (transmits_iff hready (by decide)).mpr ⟨126976, havail, by decide⟩⟩

/-- **A panic after `tx_ready` returned `true`.**  The send ring has room for one message.
While `tx_ready` drains the channel, it completes a packet of the host, and the room is
gone. -/
theorem transmit_panics :
    sectionFull (filledRing 15859) = false ∧
    ∃ s, TxReady (nicWith (filledRing 15859)) s ∧
      ¬ Transmits { nicWith (filledRing 15859) with device := s.dev } 1500 ∧
      ∀ (n : ℕ) (f : Unit → List UInt8 → Unit × List UInt8),
        (NicNetvsc.transmitWith n 1500 f ()
          { nicWith (filledRing 15859) with device := s.dev }).1 = .panic := by
  obtain ⟨s, hs, hctl, hfree, hfull⟩ : ∃ s, Exec step NoCall
      (perform (startCall .hasTxSpace) ⟨(nicWith (filledRing 15859)).device, .ready⟩)
      [answerRndis 7 initCmplt, receives, receives] s ∧ s.ctl = .ready ∧
      s.dev.sendSectionFree = true ∧ sectionFull s.dev.send = true :=
    Exec.exists_of_run (by decide +kernel)
  have hroom : ¬ SectionRoom s.dev.send := fun h =>
    Bool.false_ne_true (h.not_full.symm.trans hfull)
  have hpanic : ∀ (n : ℕ) (f : Unit → List UInt8 → Unit × List UInt8),
      (NicNetvsc.transmitWith n 1500 f ()
        { nicWith (filledRing 15859) with device := s.dev }).1 = .panic := fun n f =>
    NicNetvsc.transmitWith_panics (Nat.le_refl 1500) hfree n f () hroom
  refine ⟨by decide, s, ⟨_, s, [], hs, hctl, hfree, .nil⟩, fun ht => ?_, hpanic⟩
  obtain ⟨buf, nic', -, hok⟩ := @ht Unit 0 (fun _ buf => ((), buf)) ()
  exact absurd (hpanic 0 _) (by rw [hok]; simp)

end Netvsc
