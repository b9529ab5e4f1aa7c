/-
Exclusive use of section 0 of the send buffer.

A message in section 0 belongs to the host from its SEND_RNDIS_PKT until the guest
receives the completion of that packet.  The host sends one completion per packet, at
any later time; packets are numbered in the order in which they are sent, and a
completion carries the number of its packet.

* `Exclusive` — whenever section 0 is written or handed over, every earlier packet
  has been completed;
* `exclusive_of_noReply` — it holds in every run in which no keepalive is answered:
  the reply goes through section 0 without marking it as used;
* `section_overwritten` — a keepalive during `init` is answered, and the next request
  overwrites the reply.
-/
import Embclox.NetvscSteps

open Bytes Effect Ring Nvsp Relation Run

namespace Netvsc

/-! ### Packets in flight -/

/-- The number of packets sent that refer to section 0. -/
def sends (log : List Event) : ℕ := log.countP Event.isSection

/-- The numbers of the packets whose completion the guest has received. -/
def received (log : List Event) : List ℕ :=
  ((puts log).take (removedCount log)).filterMap Posted.tag

/-- The event writes section 0 or hands it to the host. -/
def Event.touchesSection : Event → Bool
  | .wrote _ _ => true
  | e => e.isSection

/-- Section 0 is not touched while a packet that refers to it is in flight. -/
def Exclusive (log : List Event) : Prop :=
  ∀ pre e post, log = pre ++ e :: post → e.touchesSection = true →
    ∀ k < sends pre, k ∈ received pre

theorem sends_append (log new : List Event) : sends (log ++ new) = sends log + sends new :=
  List.countP_append

/-- Only puts and removals change what has been received. -/
theorem received_offRing {log new : List Event} (h : ∀ e ∈ new, e.offRing) :
    received (log ++ new) = received log := by
  rw [received, puts_append, removedCount_append, puts_offRing h, removedCount_offRing h,
    List.append_nil, Nat.add_zero, received]

theorem received_put {log : List Event} {p : Packet} {tag : Option ℕ}
    {frame : Option (List UInt8)} (h : removedCount log ≤ (puts log).length) :
    received (log ++ [.put p tag frame]) = received log := by
  rw [received, puts_append, removedCount_append]
  exact congrArg (List.filterMap Posted.tag) (List.take_append_of_le_length h)

theorem Exclusive.snoc {log : List Event} {e : Event} (h : Exclusive log)
    (he : e.touchesSection = true → ∀ k < sends log, k ∈ received log) :
    Exclusive (log ++ [e]) := by
  intro pre e' post hlog htouch
  rcases List.eq_nil_or_concat post with rfl | ⟨post', last, rfl⟩
  · -- the new event itself
    obtain ⟨rfl, hlast⟩ := List.append_inj' hlog rfl
    obtain rfl := List.singleton_inj.mp hlast
    exact he htouch
  · have hsplit : log ++ [e] = (pre ++ e' :: post') ++ [last] := by simpa using hlog
    exact h pre e' post' (List.append_inj' hsplit rfl).1 htouch

theorem Exclusive.append {log new : List Event} (h : Exclusive log)
    (hnew : ∀ e ∈ new, e.touchesSection = false) : Exclusive (log ++ new) := by
  induction new using List.reverseRecOn with
  | nil => rwa [List.append_nil]
  | append_singleton new e ih =>
    rw [← List.append_assoc]
    refine (ih fun e' he' => hnew e' (List.mem_append_left _ he')).snoc fun htouch => ?_
    exact absurd htouch (Bool.eq_false_iff.mp (hnew e (by simp)))

/-! ### The host -/

/-- A packet that carries a SEND_RNDIS_PKT_COMPLETE. -/
def isTxCompletionPacket (p : Packet) : Bool :=
  p.desc.packetType == vmPktComp && isTxCompletion p.desc p.body

/-- The host completes only packets that were sent, each at most once. -/
def TxHost (s : Sys) : Act → Prop
  | .put p _ tag =>
      (isTxCompletionPacket p = true → tag ≠ none) ∧
        ∀ k, tag = some k → isTxCompletionPacket p = true ∧ k < sends s.dev.log ∧
          ∀ x ∈ puts s.dev.log, x.tag ≠ some k
  | _ => True

/-- The next receive answers a keepalive. -/
def answersNext (s : Sys) : Bool :=
  match s.ctl.consumer, s.dev.view.next with
  | some k, some p => answersKeepalive k s.dev.view p
  | _, _ => false

abbrev NoReply : Sys → Act → Prop := Avoids answersNext

instance (s : Sys) : (a : Act) → Decidable (TxHost s a)
  | .put p _ tag => inferInstanceAs (Decidable
      ((isTxCompletionPacket p = true → tag ≠ none) ∧
        ∀ k ∈ tag, isTxCompletionPacket p = true ∧ k < sends s.dev.log ∧
          ∀ x ∈ puts s.dev.log, x.tag ≠ some k))
  | .guest _ | .call _ | .take => .isTrue trivial

/-! ### The invariant -/

structure TxInv (v : View) : Prop where
  excl : Exclusive v.log
  /-- A free section is not in flight. -/
  free : v.sectionFree = true → ∀ k < sends v.log, k ∈ received v.log
  /-- Only the last packet is in flight. -/
  last : ∀ k < sends v.log, k ∉ received v.log → k + 1 = sends v.log
  tags_lt : ∀ x ∈ puts v.log, ∀ k, x.tag = some k → k < sends v.log
  tags_nodup : ((puts v.log).filterMap Posted.tag).Nodup
  tagged : ∀ x ∈ puts v.log, isTxCompletionPacket x.packet = true → x.tag ≠ none

section

variable {K F : Prop} {v w : View}

/-- Events that are neither on the ring nor in section 0. -/
theorem TxInv.add (h : TxInv v) {new : List Event} (hoff : ∀ e ∈ new, e.offRing)
    (hsec : ∀ e ∈ new, e.touchesSection = false) : TxInv (v.add new) := by
  have hsends : sends (v.log ++ new) = sends v.log := by
    have hzero : sends new = 0 := by
      refine List.countP_eq_zero.mpr fun e he => ?_
      have hfalse := hsec e he
      cases e with
      | wrote => exact absurd hfalse (by simp [Event.touchesSection])
      | _ => exact Bool.eq_false_iff.mp hfalse
    rw [sends_append, hzero, Nat.add_zero]
  have hputs : puts (v.log ++ new) = puts v.log := by
    rw [puts_append, puts_offRing hoff, List.append_nil]
  have hrec : received (v.log ++ new) = received v.log := received_offRing hoff
  refine ⟨h.excl.append hsec, ?_, ?_, ?_, ?_, ?_⟩ <;>
    simp only [View.add, hsends, hputs, hrec]
  · exact h.free
  · exact h.last
  · exact h.tags_lt
  · exact h.tags_nodup
  · exact h.tagged

/-- A message written to the free section and handed over. -/
theorem TxInv.use (h : TxInv v) (hfree : v.sectionFree = true) (sender : Sender)
    (bytes : List UInt8) {e : Event} (he : e.handsOver) :
    TxInv ({ v with sectionFree := false }.add [.wrote sender bytes, e]) := by
  have hdone := h.free hfree
  have hoff : ∀ e' ∈ [Event.wrote sender bytes, e], e'.offRing := offRing_pair he
  have hputs : puts (v.log ++ [.wrote sender bytes, e]) = puts v.log := by
    rw [puts_append, puts_offRing hoff, List.append_nil]
  have hrec : received (v.log ++ [.wrote sender bytes, e]) = received v.log := received_offRing hoff
  -- at most one packet more: none if the ring was full
  have hsends : sends v.log ≤ sends (v.log ++ [.wrote sender bytes, e]) ∧
      sends (v.log ++ [.wrote sender bytes, e]) ≤ sends v.log + 1 := by
    rw [sends_append]
    have hle : sends [.wrote sender bytes, e] ≤ 1 := by
      have hskip : sends [.wrote sender bytes, e] = sends [e] :=
        List.countP_cons_of_neg (by simp [Event.isSection])
      rw [hskip]
      exact List.countP_le_length
    omega
  -- neither the write nor the message finds a packet in flight
  have hexcl : Exclusive (v.log ++ [.wrote sender bytes, e]) := by
    have hwrote : Exclusive (v.log ++ [.wrote sender bytes]) := h.excl.snoc fun _ => hdone
    have hsame : sends (v.log ++ [.wrote sender bytes]) = sends v.log := by
      rw [sends_append]
      rfl
    have hrec1 : received (v.log ++ [.wrote sender bytes]) = received v.log :=
      received_offRing (by simp)
    have := hwrote.snoc (e := e) fun _ => by rw [hsame, hrec1]; exact hdone
    simpa using this
  refine ⟨hexcl, ?_, ?_, ?_, ?_, ?_⟩ <;> simp only [View.add, hputs, hrec]
  · exact fun hf => absurd hf (by simp)
  · -- all packets before this one are completed
    intro k hk hnot
    by_contra hne
    exact hnot (hdone k (by omega))
  · intro x hx k hxk
    have := h.tags_lt x hx k hxk
    omega
  · exact h.tags_nodup
  · exact h.tagged

theorem TxInv.micro (h : TxInv v) (hm : Micro K F v w) (hK : ¬ K) : TxInv w := by
  cases hm with
  | nvsp transactionId payload hp =>
    exact h.add (by simp) (by simpa [Event.touchesSection, Event.isSection] using hp)
  | full => exact h.add (by simp) (by simp [Event.touchesSection, Event.isSection])
  | use sender bytes e hfree he hf => exact h.use hfree sender bytes he
  | reply bytes e hk hfree he => exact absurd hk hK
  | deliver frame hp =>
    have hv : TxInv { v with pendingRx := none } :=
      ⟨h.excl, h.free, h.last, h.tags_lt, h.tags_nodup, h.tagged⟩
    exact hv.add (by simp) (by simp [Event.touchesSection, Event.isSection])

theorem TxInv.moves (h : TxInv v) (hm : ReflTransGen (Micro K F) v w) (hK : ¬ K) : TxInv w := by
  induction hm with
  | refl => exact h
  | tail _ hstep ih => exact ih.micro hstep hK

/-! ### Removals -/

variable {p : Packet} {k : Consumer} {x : Posted} {rest : List Posted}

theorem Take.sends_eq (h : Take p v k w) : sends w.log = sends v.log := by
  rcases h.log with ⟨-, e, he, hlog⟩ | ⟨hlog, -⟩
  · have hzero : sends [.removed p.desc, e] = 0 := by
      rcases he with rfl | rfl <;> rfl
    rw [hlog, sends_append, hzero, Nat.add_zero]
  · rw [hlog, sends_append]
    rfl

/-- A removal receives the completion that the packet carries, if any. -/
theorem Take.received_eq (h : Take p v k w) (hx : unread v.log = x :: rest) :
    received w.log = received v.log ++ x.tag.toList := by
  have hget : (puts v.log)[removedCount v.log]? = some x := by
    rw [← List.head?_drop, show (puts v.log).drop (removedCount v.log) = x :: rest from hx]
    rfl
  rw [received, h.ring.1, h.ring.2, List.take_add_one, hget, List.filterMap_append, received]
  cases hx' : x.tag <;> simp [hx']

/-- The completion of an unread packet has not been received. -/
theorem TxInv.unread_not_received (h : TxInv v) (hx : unread v.log = x :: rest) {n : ℕ}
    (hn : x.tag = some n) : n ∉ received v.log := by
  have hnodup := h.tags_nodup
  -- the removed packets come before it in the list without duplicates
  rw [← List.take_append_drop (removedCount v.log) (puts v.log), List.filterMap_append,
    show (puts v.log).drop (removedCount v.log) = x :: rest from hx,
    List.filterMap_cons_some hn, List.nodup_append] at hnodup
  intro hmem
  exact hnodup.2.2 n hmem n List.mem_cons_self rfl

theorem mem_puts_of_unread (hx : unread v.log = x :: rest) : x ∈ puts v.log := by
  refine List.mem_of_mem_drop (i := removedCount v.log) ?_
  rw [show (puts v.log).drop (removedCount v.log) = x :: rest from hx]
  exact List.mem_cons_self

/-- A completion that the guest recognises in the first 512 bytes is one. -/
theorem isTxCompletion_of_take {desc : VmPacketDescriptor} {body : List UInt8}
    (h : isTxCompletion desc (body.take rawBufLen) = true) : isTxCompletion desc body = true := by
  unfold isTxCompletion at *
  cases hoff : nvspOffset desc with
  | none => rw [hoff] at h; exact absurd h (by simp)
  | some o =>
    rw [hoff] at h
    simp only [Bool.and_eq_true, decide_eq_true_eq, List.length_take] at h ⊢
    rw [u32At_take (by omega)] at h
    exact ⟨by omega, h.2⟩

/-- No removal touches section 0. -/
theorem Take.exclusive {p : Packet} (h : Take p v k w) (hv : Exclusive v.log) :
    Exclusive w.log := by
  rcases h.log with ⟨-, e, he, hlog⟩ | ⟨hlog, -⟩
  · rw [hlog]
    refine hv.append fun e' he' => ?_
    rcases List.mem_pair.mp he' with rfl | rfl
    · rfl
    · rcases he with rfl | rfl <;> rfl
  · rw [hlog]
    exact hv.append (by simp [Event.touchesSection, Event.isSection])

theorem Take.mem_received (h : Take x.packet v k w) (hx : unread v.log = x :: rest) {n : ℕ}
    (hn : n ∈ received v.log) : n ∈ received w.log := by
  rw [h.received_eq hx]
  exact List.mem_append_left _ hn

/-- The flag is set by the completion of the packet in flight. -/
theorem TxInv.free_of_take (hv : TxInv v) (h : Take x.packet v k w) (hx : unread v.log = x :: rest)
    (hw : w.sectionFree = true) : ∀ n < sends v.log, n ∈ received w.log := by
  intro n hn
  by_cases hvf : v.sectionFree = true
  · exact h.mem_received hx (hv.free hvf n hn)
  · have hcomp : x.packet.desc.packetType = vmPktComp ∧
        isTxCompletion x.packet.desc (x.packet.body.take rawBufLen) = true := by
      cases h with
      | completion k hk ht =>
        refine ⟨ht, ?_⟩
        simpa [View.add, Bool.eq_false_iff.mpr hvf] using hw
      | _ => exact absurd hw hvf
    have htag := hv.tagged x (mem_puts_of_unread hx) (by
      rw [isTxCompletionPacket, hcomp.1, isTxCompletion_of_take hcomp.2]
      rfl)
    obtain ⟨m, hm⟩ := Option.ne_none_iff_exists'.mp htag
    have hlt := hv.tags_lt x (mem_puts_of_unread hx) m hm
    have hlast := hv.last m hlt (hv.unread_not_received hx hm)
    -- a packet that is still in flight is the last one, which this completes
    by_cases hnr : n ∈ received v.log
    · exact h.mem_received hx hnr
    · have hn' := hv.last n hn hnr
      obtain rfl : n = m := by omega
      rw [h.received_eq hx, hm]
      exact List.mem_append_right _ (by simp)

theorem Take.txInv (h : Take x.packet v k w) (hx : unread v.log = x :: rest) (hv : TxInv v) :
    TxInv w := by
  refine ⟨h.exclusive hv.excl, ?_, ?_, ?_, ?_, ?_⟩ <;> simp only [h.sends_eq, h.ring.1]
  · exact hv.free_of_take h hx
  · exact fun n hn hnr => hv.last n hn fun hr => hnr (h.mem_received hx hr)
  · exact hv.tags_lt
  · exact hv.tags_nodup
  · exact hv.tagged

end

/-! ### Runs -/

theorem TxInv.put {v : View} {p : Packet} {tag : Option ℕ} {frame : Option (List UInt8)}
    (h : TxInv v) (hcount : removedCount v.log ≤ (puts v.log).length)
    (htag : isTxCompletionPacket p = true → tag ≠ none)
    (hfresh : ∀ k, tag = some k → k < sends v.log ∧ ∀ x ∈ puts v.log, x.tag ≠ some k)
    (mem : ℕ → UInt8) : TxInv ({ v with recvBuf := mem }.add [.put p tag frame]) := by
  have hputs : puts (v.log ++ [.put p tag frame]) = puts v.log ++ [⟨p, tag, frame⟩] :=
    puts_append _ _
  have hsends : sends (v.log ++ [.put p tag frame]) = sends v.log := sends_append _ _
  have hrec : received (v.log ++ [.put p tag frame]) = received v.log := received_put hcount
  refine ⟨h.excl.append (by simp [Event.touchesSection, Event.isSection]), ?_, ?_, ?_, ?_, ?_⟩ <;>
    simp only [View.add, hsends, hputs, hrec]
  · exact h.free
  · exact h.last
  · intro x hx k hxk
    rcases List.mem_append.mp hx with hx | hx
    · exact h.tags_lt x hx k hxk
    · obtain rfl := List.mem_singleton.mp hx
      exact (hfresh k hxk).1
  · rw [List.filterMap_append]
    cases tag with
    | none => simpa using h.tags_nodup
    | some k =>
      refine List.nodup_append.mpr ⟨h.tags_nodup, by simp, ?_⟩
      rintro n hn m hm rfl
      obtain rfl : n = k := by simpa using hm
      obtain ⟨x, hx, hxn⟩ := List.mem_filterMap.mp hn
      exact (hfresh n rfl).2 x hx hxn
  · intro x hx hcomp
    rcases List.mem_append.mp hx with hx | hx
    · exact h.tagged x hx hcomp
    · obtain rfl := List.mem_singleton.mp hx
      exact htag hcomp

theorem txInv_step {s u : Sys} {a : Act} (hb : Base s.dev) (hs : TxInv s.dev.view)
    (hhost : TxHost s a) (hc : NoReply s a) (h : step s a = some u) : TxInv u.dev.view := by
  cases a with
  | guest env =>
    rcases guest_moves hb h with ⟨-, -, hw⟩ | ⟨k, p, w, hk, hp, -, ht, -, hw⟩
    · exact hs.moves hw id
    · obtain ⟨x, rest, hx, rfl⟩ := View.next_eq_some hp
      have hno : answersKeepalive k s.dev.view x.packet = false := by
        simpa only [Avoids, answersNext, hk, hp] using hc
      exact (ht.txInv hx hs).moves hw (by rw [hno]; decide)
  | call c => exact hs.moves (call_moves hb h).2.2 id
  | put p mem tag =>
    obtain ⟨-, -, hv⟩ := put_moves hb h
    rw [hv]
    exact hs.put hb.count hhost.1 (fun k hk => (hhost.2 k hk).2) mem
  | take =>
    obtain ⟨-, -, hv⟩ := take_moves hb h
    rw [hv]
    exact hs

theorem txInv_opened (ram : Ram) : TxInv (openedDevice ram).view where
  excl := fun pre e post h => absurd h (by simp [openedDevice, NetvscDevice.view])
  free := fun _ k hk => absurd hk (Nat.not_lt_zero k)
  last := fun k hk => absurd hk (Nat.not_lt_zero k)
  tags_lt := fun x hx => absurd hx (by simp [openedDevice, NetvscDevice.view, puts])
  tags_nodup := List.nodup_nil
  tagged := fun x hx => absurd hx (by simp [openedDevice, NetvscDevice.view, puts])

/-- **Exclusive use of section 0.**  From the opened channel on, in every run in which
no receive answers a keepalive, section 0 is never touched while a packet that
refers to it is in flight. -/
theorem exclusive_of_noReply {ram : Ram} {l : List Act} {s : Sys}
    (h : Exec step (fun s a => TxHost s a ∧ NoReply s a) (openedSys ram) l s) :
    Exclusive s.dev.log := by
  have hinv : Base s.dev ∧ TxInv s.dev.view := by
    refine h.invariant (I := fun s => Base s.dev ∧ TxInv s.dev.view)
      ⟨base_openedDevice ram, txInv_opened ram⟩ ?_
    intro s u a hi hg hstep
    exact ⟨base_of_step hi.1 hstep, txInv_step hi.1 hi.2 hg.1 hg.2 hstep⟩
  exact hinv.2.excl

/-- `init`, and a frame sent and completed. -/
def initAndSend : List Act :=
  initPhase ++ [.call (.transmitWith 3 id), completeTx 4, .call .hasTxSpace, receives, receives,
    .call (.transmitWith 5 id)]

theorem exclusive_of_noReply_init_and_send :
    ∃ s, Exec step (fun s a => TxHost s a ∧ NoReply s a) (openedSys { }) initAndSend s ∧
      sends s.dev.log = 6 ∧ received s.dev.log = [0, 1, 2, 3, 4] ∧ Exclusive s.dev.log := by
  obtain ⟨s, hs, hsends, hrec⟩ : ∃ s, Exec step (fun s a => TxHost s a ∧ NoReply s a)
      (openedSys { }) initAndSend s ∧ sends s.dev.log = 6 ∧
        received s.dev.log = [0, 1, 2, 3, 4] :=
    Exec.exists_of_run (by decide +kernel)
  exact ⟨s, hs, hsends, hrec, exclusive_of_noReply hs⟩

/-- A keepalive comes after the completion of RNDIS_INIT and before its response. -/
def keepaliveDuringInit : List Act :=
  nvspPhase ++
    [completeTx 0, answerRndis 6 (rndisMessage .keepAlive (le32 5)), receives, receives,
      answerRndis 7 initCmplt, receives, receives, receives]

/-- An event that touches section 0 while a packet is in flight. -/
theorem not_exclusive_at {log : List Event} {n k : ℕ}
    (he : (log[n]?).any Event.touchesSection = true) (hk : k < sends (log.take n))
    (hr : k ∉ received (log.take n)) : ¬ Exclusive log := by
  intro hexcl
  rcases hn : log[n]? with _ | e
  · rw [hn] at he
    exact absurd he (by simp)
  · rw [hn] at he
    obtain ⟨hlt, hget⟩ := List.getElem?_eq_some_iff.mp hn
    refine hr (hexcl (log.take n) e (log.drop (n + 1)) ?_ he k hk)
    rw [← hget, List.getElem_cons_drop, List.take_append_drop]

/-- The query of the MAC address is written over the reply to the keepalive, which the
host has not completed. -/
theorem section_overwritten :
    ∃ s, Exec step TxHost (openedSys { }) keepaliveDuringInit s ∧ sends s.dev.log = 3 ∧
      received s.dev.log = [0] ∧ ¬ Exclusive s.dev.log := by
  obtain ⟨s, hs, hsends, hrec, he, hk, hr⟩ : ∃ s, Exec step TxHost (openedSys { })
      keepaliveDuringInit s ∧ sends s.dev.log = 3 ∧ received s.dev.log = [0] ∧
        (s.dev.log[23]?).any Event.touchesSection = true ∧ 1 < sends (s.dev.log.take 23) ∧
        1 ∉ received (s.dev.log.take 23) :=
    Exec.exists_of_run (by decide +kernel)
  exact ⟨s, hs, hsends, hrec, not_exclusive_at he hk hr⟩

end Netvsc
