/-
What a NetVSC device can do, without its rings.

A view of the device is what the properties of the data path are about: the receive
buffer, the section flag, the pending frame and the history.  The packets on the
receive ring are those the host has put and the guest has not removed.

* `Take` — what removing a packet does, by the receive that removed it;
* `Micro` — what the guest does besides, one message or one frame at a time;
* `Base` — the rings hold what the history says;
* `Take.log`, `moves_log` — what is logged by a removal and by the other moves.
-/
import Embclox.NetvscRun
import Mathlib.Logic.Relation

open Bytes Effect Ring Nvsp Relation

namespace Netvsc

/-! ### Histories -/

/-- A packet the host has put, with the send it completes and the frame it
carries. -/
structure Posted where
  packet : Packet
  tag : Option ℕ
  frame : Option (List UInt8)

def Event.posted? : Event → Option Posted
  | .put p tag frame => some ⟨p, tag, frame⟩
  | _ => none

def Event.isRemoved : Event → Bool
  | .removed _ => true
  | _ => false

/-- The packets the host has put on the receive ring. -/
def puts (log : List Event) : List Posted := log.filterMap Event.posted?

/-- The number of packets the guest has removed from it. -/
def removedCount (log : List Event) : ℕ := log.countP Event.isRemoved

def unread (log : List Event) : List Posted := (puts log).drop (removedCount log)

/-- The event is neither a put nor a removal. -/
def Event.offRing (e : Event) : Prop := e.posted? = none ∧ e.isRemoved = false

@[simp] theorem offRing_sent (packetType : UInt16) (transactionId : UInt64) (payload : List UInt8) :
    (Event.sent packetType transactionId payload).offRing := ⟨rfl, rfl⟩

@[simp] theorem offRing_ringFull : Event.ringFull.offRing := ⟨rfl, rfl⟩

@[simp] theorem offRing_wrote (sender : Sender) (bytes : List UInt8) :
    (Event.wrote sender bytes).offRing := ⟨rfl, rfl⟩

@[simp] theorem offRing_delivered (frame : List UInt8) : (Event.delivered frame).offRing :=
  ⟨rfl, rfl⟩

theorem puts_append (log new : List Event) : puts (log ++ new) = puts log ++ puts new :=
  List.filterMap_append

theorem removedCount_append (log new : List Event) :
    removedCount (log ++ new) = removedCount log + removedCount new :=
  List.countP_append

theorem puts_offRing {new : List Event} (h : ∀ e ∈ new, e.offRing) : puts new = [] :=
  List.filterMap_eq_nil_iff.mpr fun e he => (h e he).1

theorem removedCount_offRing {new : List Event} (h : ∀ e ∈ new, e.offRing) :
    removedCount new = 0 :=
  List.countP_eq_zero.mpr fun e he => by rw [(h e he).2]; decide

theorem unread_offRing {log new : List Event} (h : ∀ e ∈ new, e.offRing) :
    unread (log ++ new) = unread log := by
  rw [unread, puts_append, removedCount_append, puts_offRing h, removedCount_offRing h,
    List.append_nil, Nat.add_zero, unread]

theorem unread_removed {log : List Event} {desc : VmPacketDescriptor} :
    unread (log ++ [.removed desc]) = (unread log).tail := by
  rw [unread, puts_append, removedCount_append, unread, List.tail_drop]
  exact congrArg _ (List.append_nil _)

theorem unread_put {log : List Event} {p : Packet} {tag : Option ℕ} {frame : Option (List UInt8)}
    (h : removedCount log ≤ (puts log).length) :
    unread (log ++ [.put p tag frame]) = unread log ++ [⟨p, tag, frame⟩] := by
  rw [unread, puts_append, removedCount_append]
  exact List.drop_append_of_le_length h

/-! ### Views -/

structure View where
  recvBuf : ℕ → UInt8
  sectionFree : Bool
  pendingRx : Option (List UInt8)
  log : List Event

def NetvscDevice.view (d : NetvscDevice) : View :=
  ⟨d.recvBuf, d.sendSectionFree, d.pendingRx, d.log⟩

/-- The history goes on with these events. -/
def View.add (v : View) (new : List Event) : View := { v with log := v.log ++ new }

/-- The next packet on the receive ring. -/
def View.next (v : View) : Option Packet := (unread v.log).head?.map Posted.packet

/-- A packet that hands section 0 to the host. -/
def isSectionPacket (packetType : UInt16) (payload : List UInt8) : Bool :=
  packetType == vmPktDataInband && u32At payload 0 == NvspMessageType.sendRndisPkt.asU32 &&
    u32At payload 8 == 0

def Event.isSection : Event → Bool
  | .sent packetType _ payload => isSectionPacket packetType payload
  | _ => false

/-- The event is a message in section 0 handed to the host, or the failure to hand it
over. -/
def Event.handsOver (e : Event) : Prop :=
  (∃ transactionId payload, e = .sent vmPktDataInband transactionId payload ∧ e.isSection = true) ∨
    e = .ringFull

/-- The event is the completion of a transfer-page packet, or the failure to send
it. -/
def Event.acks (desc : VmPacketDescriptor) (e : Event) : Prop :=
  e = .sent vmPktComp desc.transactionId compPayload ∨ e = .ringFull

/-- The moves of a guest that removes nothing.  `K` is the permission to answer a
keepalive; `F` is the permission of a call on the initialised device to send frames,
and to go on although a message could not be handed over. -/
inductive Micro (K F : Prop) (v : View) : View → Prop
  | nvsp (transactionId : UInt64) (payload : List UInt8)
      (h : isSectionPacket vmPktDataInband payload = false) :
      Micro K F v (v.add [.sent vmPktDataInband transactionId payload])
  | full : Micro K F v (v.add [.ringFull])
  | use (sender : Sender) (bytes : List UInt8) (e : Event) (hfree : v.sectionFree = true)
      (he : e.handsOver) (hF : sender = .control ∧ e ≠ .ringFull ∨ F) :
      Micro K F v ({ v with sectionFree := false }.add [.wrote sender bytes, e])
  | reply (bytes : List UInt8) (e : Event) (hK : K) (hfree : v.sectionFree = true)
      (he : e.handsOver) : Micro K F v (v.add [.wrote .keepalive bytes, e])
  | deliver (frame : List UInt8) (h : v.pendingRx = some frame) :
      Micro K F v ({ v with pendingRx := none }.add [.delivered frame])

def Moves (K F : Prop) (d d' : NetvscDevice) : Prop := ReflTransGen (Micro K F) d.view d'.view

/-- The three kinds of receive: `recv_with_timeout` of `init`, `poll_channel` and
`pump_channel`. -/
inductive Consumer
  | raw | poll | pump
  deriving DecidableEq

def Ctl.consumer : Ctl → Option Consumer
  | .negotiate _ _ | .recvBuf | .sendBuf | .singleQueue => some .raw
  | .waitSection _ _ | .response _ | .drain _ _ => some .poll
  | .pump _ => some .pump
  | .opened | .ready | .failed _ | .panicked => none

/-- The receive can read the packet. -/
def Consumer.accepts : Consumer → Packet → Bool
  | .raw, p => p.readable
  | _, _ => true

/-- The frame that `pump_channel` queues for a message. -/
def queuedFrame (rx : List UInt8) : Option (List UInt8) :=
  if rx.length < rndisHeaderSize then none
  else if u32At rx 0 = RndisMessageType.packet.asU32 then (extractEthFrame rxFrameMax rx).join
  else none

def isKeepalive (msg : List UInt8) : Bool :=
  match parseRndisResponse msg with
  | some (some (.keepAlive _)) => true
  | _ => false

/-- The message of the packet, as a receive with this buffer sees it. -/
def messageOf (recvBuf : ℕ → UInt8) (p : Packet) (outLen : ℕ) : List UInt8 :=
  parseXferPagePacket recvBuf (p.body.take rawBufLen) outLen

/-- The receive answers a keepalive: the packet carries one and section 0 is free. -/
def answersKeepalive (k : Consumer) (v : View) (p : Packet) : Bool :=
  p.desc.packetType == vmPktDataUsingXferPages && v.sectionFree &&
    match k with
    | .raw => false
    | .poll => isKeepalive (messageOf v.recvBuf p respBufLen)
    | .pump => v.pendingRx.isNone && isKeepalive (messageOf v.recvBuf p rxFrameMax)

theorem vmPktComp_ne_xferPages : vmPktComp ≠ vmPktDataUsingXferPages := by decide

/-- What removing the packet `p` does to the view `v`. -/
inductive Take (p : Packet) (v : View) : Consumer → View → Prop
  | raw : Take p v .raw (v.add [.removed p.desc])
  | poll (e : Event) (ht : p.desc.packetType = vmPktDataUsingXferPages) (he : e.acks p.desc) :
      Take p v .poll (v.add [.removed p.desc, e])
  | pump (e : Event) (ht : p.desc.packetType = vmPktDataUsingXferPages) (hp : v.pendingRx = none)
      (he : e.acks p.desc) :
      Take p v .pump ({ v with pendingRx := queuedFrame (messageOf v.recvBuf p rxFrameMax) }.add
        [.removed p.desc, e])
  /-- `pump_channel` finds the slot occupied. -/
  | drop (ht : p.desc.packetType = vmPktDataUsingXferPages) (hp : v.pendingRx ≠ none) :
      Take p v .pump (v.add [.removed p.desc])
  | completion (k : Consumer) (hk : k ≠ .raw) (ht : p.desc.packetType = vmPktComp) :
      Take p v k ({ v with
        sectionFree := v.sectionFree || isTxCompletion p.desc (p.body.take rawBufLen) }.add
        [.removed p.desc])
  | other (k : Consumer) (hk : k ≠ .raw) (ht : p.desc.packetType ≠ vmPktDataUsingXferPages)
      (ht' : p.desc.packetType ≠ vmPktComp) : Take p v k (v.add [.removed p.desc])

/-- The rings hold what the history says. -/
structure Base (d : NetvscDevice) : Prop where
  recv : Repr d.recv ((unread d.log).map Posted.packet)
  count : removedCount d.log ≤ (puts d.log).length
  send : ∃ out, Repr d.send out

section

variable {K K' F F' : Prop}

theorem Micro.mono {v w : View} (hK : K → K') (hF : F → F') (h : Micro K F v w) :
    Micro K' F' v w := by
  cases h with
  | nvsp transactionId payload h => exact .nvsp transactionId payload h
  | full => exact .full
  | use sender bytes e hfree he hf => exact .use sender bytes e hfree he (hf.imp id hF)
  | reply bytes e hk hfree he => exact .reply bytes e (hK hk) hfree he
  | deliver frame h => exact .deliver frame h

theorem moves_mono (hK : K → K') (hF : F → F') {v w : View}
    (h : ReflTransGen (Micro K F) v w) : ReflTransGen (Micro K' F') v w :=
  ReflTransGen.mono (fun _ _ => Micro.mono hK hF) _ _ h

/-! ### What the moves log -/

theorem offRing_of_handsOver {e : Event} (h : e.handsOver) : e.offRing := by
  rcases h with ⟨x, payload, rfl, -⟩ | rfl <;> exact ⟨rfl, rfl⟩

theorem offRing_pair {sender : Sender} {bytes : List UInt8} {e : Event} (he : e.handsOver) :
    ∀ e' ∈ [Event.wrote sender bytes, e], e'.offRing := by
  intro e' he'
  rcases List.mem_pair.mp he' with rfl | rfl
  · exact ⟨rfl, rfl⟩
  · exact offRing_of_handsOver he

theorem offRing_of_acks {desc : VmPacketDescriptor} {e : Event} (h : e.acks desc) : e.offRing := by
  rcases h with rfl | rfl <;> exact ⟨rfl, rfl⟩

/-- The transaction id of a completion that the guest sent. -/
def Event.comp? : Event → Option UInt64
  | .sent packetType transactionId _ => if packetType = vmPktComp then some transactionId else none
  | _ => none

theorem Micro.log {v w : View} (h : Micro K F v w) :
    ∃ new, w.log = v.log ++ new ∧ ∀ e ∈ new, e.offRing ∧ e.comp? = none := by
  have hover : ∀ {e : Event}, e.handsOver → e.offRing ∧ e.comp? = none := by
    intro e he
    refine ⟨offRing_of_handsOver he, ?_⟩
    rcases he with ⟨x, payload, rfl, -⟩ | rfl <;> rfl
  cases h with
  | nvsp transactionId payload h =>
    exact ⟨_, rfl, by simp [Event.comp?, vmPktDataInband, vmPktComp]⟩
  | full => exact ⟨_, rfl, by simp [Event.comp?]⟩
  | use sender bytes e hfree he hf =>
    exact ⟨_, rfl, by simpa [Event.comp?] using hover he⟩
  | reply bytes e hk hfree he =>
    exact ⟨_, rfl, by simpa [Event.comp?] using hover he⟩
  | deliver frame h =>
    exact ⟨_, rfl, by simp [Event.comp?]⟩

/-- The moves that remove nothing complete nothing either. -/
theorem moves_log {v w : View} (h : ReflTransGen (Micro K F) v w) :
    ∃ new, w.log = v.log ++ new ∧ ∀ e ∈ new, e.offRing ∧ e.comp? = none := by
  induction h with
  | refl => exact ⟨[], by simp, by simp⟩
  | tail _ hstep ih =>
    obtain ⟨new, hlog, hnew⟩ := ih
    obtain ⟨new', hlog', hnew'⟩ := hstep.log
    refine ⟨new ++ new', by rw [hlog', hlog, List.append_assoc], fun e he => ?_⟩
    rcases List.mem_append.mp he with he | he
    · exact hnew e he
    · exact hnew' e he

/-- A transfer-page packet is completed right after its removal, unless
`recv_with_timeout` removed it or `pump_channel` found the slot occupied. -/
theorem Take.log {p : Packet} {v w : View} {k : Consumer} (h : Take p v k w) :
    (p.desc.packetType = vmPktDataUsingXferPages ∧
        ∃ e, e.acks p.desc ∧ w.log = v.log ++ [.removed p.desc, e]) ∨
      (w.log = v.log ++ [.removed p.desc] ∧
        (p.desc.packetType = vmPktDataUsingXferPages →
          k = .raw ∨ k = .pump ∧ v.pendingRx ≠ none)) := by
  cases h with
  | raw => exact .inr ⟨rfl, fun _ => .inl rfl⟩
  | poll e ht he => exact .inl ⟨ht, e, he, rfl⟩
  | pump e ht hp he => exact .inl ⟨ht, e, he, rfl⟩
  | drop ht hp => exact .inr ⟨rfl, fun _ => .inr ⟨rfl, hp⟩⟩
  | completion k hk ht => exact .inr ⟨rfl, fun h => absurd (ht.symm.trans h) vmPktComp_ne_xferPages⟩
  | other k hk ht ht' => exact .inr ⟨rfl, fun h => absurd h ht⟩

/-- The moves that remove nothing leave the receive ring alone. -/
theorem moves_ring {v w : View} (h : ReflTransGen (Micro K F) v w) :
    puts w.log = puts v.log ∧ removedCount w.log = removedCount v.log := by
  obtain ⟨new, hlog, hnew⟩ := moves_log h
  have hoff : ∀ e ∈ new, e.offRing := fun e he => (hnew e he).1
  rw [hlog, puts_append, removedCount_append, puts_offRing hoff, removedCount_offRing hoff,
    List.append_nil]
  exact ⟨rfl, rfl⟩

theorem Take.ring {p : Packet} {v w : View} {k : Consumer} (h : Take p v k w) :
    puts w.log = puts v.log ∧ removedCount w.log = removedCount v.log + 1 := by
  rcases h.log with ⟨-, e, he, hlog⟩ | ⟨hlog, -⟩
  · have hoff : ∀ e' ∈ [e], e'.offRing := by simpa using offRing_of_acks he
    have hsplit : v.log ++ [.removed p.desc, e] = v.log ++ [.removed p.desc] ++ [e] := by simp
    rw [hlog, hsplit, puts_append, removedCount_append, puts_offRing hoff,
      removedCount_offRing hoff, List.append_nil, puts_append, removedCount_append]
    exact ⟨List.append_nil _, rfl⟩
  · rw [hlog, puts_append, removedCount_append]
    exact ⟨List.append_nil _, rfl⟩

/-- The next packet is the first unread one. -/
theorem View.next_eq_some {v : View} {p : Packet} (h : v.next = some p) :
    ∃ x rest, unread v.log = x :: rest ∧ x.packet = p := by
  rw [View.next] at h
  rcases hx : unread v.log with _ | ⟨x, rest⟩
  · rw [hx] at h
    exact absurd h (by simp)
  · rw [hx] at h
    exact ⟨x, rest, rfl, Option.some_inj.mp h⟩

theorem Take.unread_eq {p : Packet} {v w : View} {k : Consumer} (h : Take p v k w) :
    unread w.log = (unread v.log).tail := by
  rw [Netvsc.unread, h.ring.1, h.ring.2, Netvsc.unread, List.tail_drop]

theorem moves_unread {v w : View} (h : ReflTransGen (Micro K F) v w) :
    unread w.log = unread v.log := by
  rw [unread, (moves_ring h).1, (moves_ring h).2, unread]

end

end Netvsc
