/-
The SINT2 interrupt handler and the channel wakers.

`vmbus_isr` walks the 32 words of the SIEFP SINT2 slot.  It reads a word, writes 0
over it and wakes one channel waker for every bit of the value read; the host sets
bits of the same words at any time.

* `notLost_of_noRace` — no signal is lost in a run in which the host sets no new
  bit of a word between the handler's read and its write of that word;
* `signal_lost_between_read_and_clear` — a bit set in between disappears;
* `isrSteps_eq_vmbusIsr` — undisturbed, the steps of the handler compute `vmbusIsr`;
* `wakes_iff_last_registered` — a task whose bit is set is woken exactly if no later
  registration shares its slot of the table modulo `CHANNEL_WAKER_SLOTS`.
-/
import Embclox.Bits
import Embclox.Exec
import Embclox.History
import Mathlib.Logic.Function.Basic

open Run History

namespace Isr

def channelWakerSlots : ℕ := 64

/-- 64-bit words in the SINT2 slot of the SIEFP page. -/
def siefpWords : ℕ := 32

/-- What the handler reads and writes: whether the two page addresses are
published, the message type in the SINT2 slot of the SIMP page, and the words of
the SINT2 slot of the SIEFP page. -/
structure Pages where
  simp : Bool
  messageType : UInt32
  siefp : Bool
  flags : ℕ → BitVec 64

/-- A call of `wake`, on `SIMP_WAKER` or on `channel_waker(relid)`. -/
inductive Wake
  | simp
  | channel (relid : ℕ)
  deriving DecidableEq

/-- The bit of channel `relid` is set in the page. -/
def BitSet (flags : ℕ → BitVec 64) (relid : ℕ) : Prop :=
  relid / 64 < siefpWords ∧ (flags (relid / 64)).getLsbD (relid % 64) = true

/-- The SIMP part of the handler: peek at the message type. -/
def simpEdge (p : Pages) : List Wake := if p.simp && p.messageType != 0 then [.simp] else []

/-- The loop over the bits of the value read from word `wordIdx`. -/
def walkBits (wordIdx : ℕ) (w : BitVec 64) : List Wake :=
  if _h : w = 0#64 then []
  else .channel (wordIdx * 64 + w.ctz.toNat) :: walkBits wordIdx (w &&& (w - 1#64))
termination_by w.toNat
decreasing_by exact Bits.and_sub_one_lt _h

/-- The loop over the words. -/
def scanWords (flags : ℕ → BitVec 64) : List ℕ → (ℕ → BitVec 64) × List Wake
  | [] => (flags, [])
  | wordIdx :: words =>
      let w := flags wordIdx
      if w = 0#64 then scanWords flags words
      else
        let (flags', wakes) := scanWords (Function.update flags wordIdx 0#64) words
        (flags', walkBits wordIdx w ++ wakes)

/-- `vmbus_isr`: the pages it leaves and the wakers it calls, in order. -/
def vmbusIsr (p : Pages) : Pages × List Wake :=
  if p.siefp then
    let (flags, wakes) := scanWords p.flags (List.range siefpWords)
    ({ p with flags := flags }, simpEdge p ++ wakes)
  else (p, simpEdge p)

/-! ### The handler step by step -/

/-- Where the handler stands between two accesses to the pages. -/
inductive Pc
  | idle
  /-- The SIMP part is done. -/
  | siefp
  /-- About to read word `wordIdx`. -/
  | scan (wordIdx : ℕ)
  /-- Has read `w`, not 0; about to clear the word. -/
  | read (wordIdx : ℕ) (w : BitVec 64)
  /-- Has cleared the word; the bits of `w` are still to be woken. -/
  | walk (wordIdx : ℕ) (w : BitVec 64)

/-- One step of the handler; in `idle` the interrupt is taken. -/
def isrStep (p : Pages) : Pc → Pages × Pc × List Wake
  | .idle => (p, .siefp, simpEdge p)
  | .siefp => (p, if p.siefp then .scan 0 else .idle, [])
  | .scan wordIdx =>
      if wordIdx < siefpWords then
        let w := p.flags wordIdx
        (p, if w = 0#64 then .scan (wordIdx + 1) else .read wordIdx w, [])
      else (p, .idle, [])
  | .read wordIdx w =>
      ({ p with flags := Function.update p.flags wordIdx 0#64 }, .walk wordIdx w, [])
  | .walk wordIdx w =>
      if w = 0#64 then (p, .scan (wordIdx + 1), [])
      else (p, .walk wordIdx (w &&& (w - 1#64)), [.channel (wordIdx * 64 + w.ctz.toNat)])

inductive Event
  /-- The host has signalled this channel. -/
  | set (relid : ℕ)
  | wake (call : Wake)
  deriving DecidableEq

structure Sys where
  pages : Pages
  pc : Pc
  log : List Event

inductive Act
  /-- The next step of the handler, or the interrupt that starts it. -/
  | isr
  /-- The host sets the bit of a channel, atomically. -/
  | set (relid : ℕ)
  /-- The host, or an acknowledgement, writes the message type of the SIMP slot. -/
  | message (messageType : UInt32)
  | publishSiefp
  | publishSimp

/-- The host's atomic set-bit. -/
def setBit (flags : ℕ → BitVec 64) (relid : ℕ) : ℕ → BitVec 64 :=
  Function.update flags (relid / 64) (flags (relid / 64) ||| BitVec.twoPow 64 (relid % 64))

def step (s : Sys) : Act → Option Sys
  | .isr =>
      let (pages, pc, wakes) := isrStep s.pages s.pc
      some ⟨pages, pc, s.log ++ wakes.map .wake⟩
  | .set relid =>
      if relid / 64 < siefpWords then
        some { s with
          pages := { s.pages with flags := setBit s.pages.flags relid }
          log := s.log ++ [.set relid] }
      else none
  | .message t => some { s with pages := { s.pages with messageType := t } }
  | .publishSiefp => some { s with pages := { s.pages with siefp := true } }
  | .publishSimp => some { s with pages := { s.pages with simp := true } }

/-- The handler is not running and nothing has happened yet. -/
def init (p : Pages) : Sys := ⟨p, .idle, []⟩

/-- The handler is not in the middle of a word. -/
def BetweenWords (s : Sys) : Prop := ∀ wordIdx w, s.pc ≠ .read wordIdx w ∧ s.pc ≠ .walk wordIdx w

/-- No signal is lost: every bit the host has set is still set, or its channel
waker was called since. -/
def NotLost (s : Sys) : Prop :=
  ∀ i relid, s.log[i]? = some (.set relid) →
    BitSet s.pages.flags relid ∨ Between (· = .wake (.channel relid)) s.log i s.log.length

/-- The step does not set a new bit of a word that the handler has read and not yet
cleared. -/
def NoRace (s : Sys) : Act → Prop
  | .set relid => ∀ wordIdx w, s.pc = .read wordIdx w → relid / 64 = wordIdx →
      w.getLsbD (relid % 64) = true
  | .isr | .message _ | .publishSiefp | .publishSimp => True

/-! ### The invariant -/

/-- The handler holds the bit of this channel. -/
def Held (relid : ℕ) : Pc → Prop
  | .read wordIdx w | .walk wordIdx w => relid / 64 = wordIdx ∧ w.getLsbD (relid % 64) = true
  | .idle | .siefp | .scan _ => False

structure Inv (s : Sys) : Prop where
  /-- Nothing was added to the word the handler is about to clear. -/
  same : ∀ wordIdx w, s.pc = .read wordIdx w → s.pages.flags wordIdx = w
  served : ∀ i relid, s.log[i]? = some (.set relid) →
    BitSet s.pages.flags relid ∨ Held relid s.pc ∨
      Between (· = .wake (.channel relid)) s.log i s.log.length

theorem Inv.notLost {s : Sys} (hi : Inv s) (hb : BetweenWords s) : NotLost s := by
  intro i relid hset
  rcases hi.served i relid hset with h | h | h
  · exact .inl h
  · -- outside a word the handler holds nothing
    cases hpc : s.pc with
    | read wordIdx w => exact absurd hpc (hb wordIdx w).1
    | walk wordIdx w => exact absurd hpc (hb wordIdx w).2
    | idle | siefp | scan _ => simp [hpc, Held] at h
  · exact .inr h

theorem init_inv (p : Pages) : Inv (init p) :=
  ⟨fun _ _ h => absurd h (by simp [init]), fun _ _ h => absurd h (by simp [init])⟩

theorem bitSet_setBit (flags : ℕ → BitVec 64) (relid r : ℕ) :
    BitSet (setBit flags relid) r ↔ BitSet flags r ∨ r = relid ∧ relid / 64 < siefpWords := by
  rw [BitSet, BitSet, setBit]
  by_cases hword : r / 64 = relid / 64
  · have hbit : r % 64 = relid % 64 ↔ r = relid := by omega
    rw [hword, Function.update_self, BitVec.getLsbD_or, BitVec.getLsbD_twoPow]
    have hlt : relid % 64 < 64 := Nat.mod_lt _ (by decide)
    simp only [hlt, decide_true, Bool.true_and, Bool.or_eq_true, decide_eq_true_eq]
    rw [eq_comm (a := relid % 64), hbit]
    tauto
  · have hne : r ≠ relid := fun h => hword (by rw [h])
    simp [Function.update_of_ne hword, hne]

/-- A signal that is in the page or in the handler's hands before a step of the
handler is so after it, or the step calls its waker. -/
theorem isrStep_keeps {p : Pages} {pc : Pc} (relid : ℕ)
    (hread : ∀ w, pc = .read (relid / 64) w → BitSet p.flags relid →
      w.getLsbD (relid % 64) = true)
    (h : BitSet p.flags relid ∨ Held relid pc) :
    BitSet (isrStep p pc).1.flags relid ∨ Held relid (isrStep p pc).2.1 ∨
      .channel relid ∈ (isrStep p pc).2.2 := by
  cases pc with
  | idle | siefp => exact .inl (h.resolve_right id)
  | scan wordIdx =>
    have hbit := h.resolve_right id
    rw [isrStep]
    split_ifs <;> exact .inl hbit
  | read wordIdx w =>
    by_cases hword : relid / 64 = wordIdx
    · refine .inr (.inl ⟨hword, ?_⟩)
      rcases h with h | h
      · exact hread w (by rw [hword]) h
      · exact h.2
    · have hbit := h.resolve_right fun hheld => hword hheld.1
      refine .inl ⟨hbit.1, ?_⟩
      simpa [isrStep, Function.update_of_ne hword] using hbit.2
  | walk wordIdx w =>
    by_cases hw : w = 0#64
    · have hbit := h.resolve_right (by simp [Held, hw])
      rw [isrStep, if_pos hw]
      exact .inl hbit
    · rw [isrStep, if_neg hw]
      rcases h with h | ⟨hword, hbit⟩
      · exact .inl h
      · -- the lowest bit is woken, the others stay in hand
        by_cases hlow : relid % 64 = w.ctz.toNat
        · have hrelid : relid = wordIdx * 64 + w.ctz.toNat := by omega
          exact .inr (.inr (by simp [hrelid]))
        · refine .inr (.inl ⟨hword, ?_⟩)
          rw [Bits.getLsbD_and_sub_one]
          simp [hbit, hlow]

theorem isr_inv {s : Sys} (hi : Inv s) :
    Inv ⟨(isrStep s.pages s.pc).1, (isrStep s.pages s.pc).2.1,
      s.log ++ (isrStep s.pages s.pc).2.2.map .wake⟩ := by
  refine ⟨fun wordIdx w hpc => ?_, fun i relid hset => ?_⟩
  · -- the handler is about to clear a word only right after reading it
    cases hs : s.pc with
    | scan j =>
      simp only [hs, isrStep] at hpc ⊢
      split_ifs at hpc ⊢ with hlt hw
      obtain ⟨rfl, rfl⟩ := Pc.read.inj hpc
      rfl
    | idle => simp [hs, isrStep] at hpc
    | siefp =>
      simp only [hs, isrStep] at hpc
      split_ifs at hpc
    | read j v => simp [hs, isrStep] at hpc
    | walk j v =>
      simp only [hs, isrStep] at hpc
      split_ifs at hpc
  · replace hset := getElem?_of_append hset (by simp)
    have hlt : i < s.log.length := (List.getElem?_eq_some_iff.mp hset).1
    -- everything in the word was read
    have hread : ∀ w, s.pc = .read (relid / 64) w → BitSet s.pages.flags relid →
        w.getLsbD (relid % 64) = true := by
      intro w hpc hbit
      rw [← hi.same _ w hpc]
      exact hbit.2
    have hkeep := isrStep_keeps relid hread
    rcases hi.served i relid hset with h | h | h
    · rcases hkeep (.inl h) with h | h | h
      · exact .inl h
      · exact .inr (.inl h)
      · exact .inr (.inr (between_of_mem hlt (List.mem_map_of_mem h) rfl))
    · rcases hkeep (.inr h) with h | h | h
      · exact .inl h
      · exact .inr (.inl h)
      · exact .inr (.inr (between_of_mem hlt (List.mem_map_of_mem h) rfl))
    · exact .inr (.inr h.extend)

theorem set_inv {s : Sys} {relid : ℕ} (hi : Inv s) (hlt : relid / 64 < siefpWords)
    (hrace : NoRace s (.set relid)) :
    Inv { s with
      pages := { s.pages with flags := setBit s.pages.flags relid }
      log := s.log ++ [.set relid] } := by
  refine ⟨fun wordIdx w hpc => ?_, fun i r hset => ?_⟩
  · have hsame := hi.same wordIdx w hpc
    by_cases hword : relid / 64 = wordIdx
    · -- the bit was already in the value read
      have hbit := hrace wordIdx w hpc hword
      subst hword
      show setBit s.pages.flags relid (relid / 64) = w
      rw [setBit, Function.update_self, hsame]
      apply BitVec.eq_of_getLsbD_eq
      intro b hb
      rw [BitVec.getLsbD_or, BitVec.getLsbD_twoPow]
      by_cases hb' : relid % 64 = b
      · simp [← hb', hbit]
      · simp [hb']
    · show setBit s.pages.flags relid wordIdx = w
      rw [setBit, Function.update_of_ne (Ne.symm hword), hsame]
  · show BitSet (setBit s.pages.flags relid) r ∨ _
    rw [bitSet_setBit]
    by_cases hr : r = relid
    · exact .inl (.inr ⟨hr, hlt⟩)
    · replace hset := getElem?_of_append hset (by simp [hr])
      rcases hi.served i r hset with h | h | h
      · exact .inl (.inl h)
      · exact .inr (.inl h)
      · exact .inr (.inr h.extend)

theorem step_inv {s u : Sys} {a : Act} (hi : Inv s) (hrace : NoRace s a)
    (h : step s a = some u) : Inv u := by
  cases a with
  | isr =>
    obtain rfl := Option.some_inj.mp h
    exact isr_inv hi
  | set relid =>
    rw [step] at h
    split_ifs at h with hlt
    obtain rfl := Option.some_inj.mp h
    exact set_inv hi hlt hrace
  | message t | publishSiefp | publishSimp =>
    obtain rfl := Option.some_inj.mp h
    exact ⟨hi.same, hi.served⟩

/-! ### Signals along a run -/

/-- **No signal is lost in a run without the race.**  If the host never sets a new
bit of a word that the handler has read and not yet cleared, then in every state
in which the handler is not in the middle of a word, each bit the host has set is
still set or its channel waker was called since. -/
theorem notLost_of_noRace (p : Pages) {l : List Act} {s : Sys}
    (h : Exec step NoRace (init p) l s) (hb : BetweenWords s) : NotLost s :=
  (h.invariant (init_inv p) step_inv).notLost hb

/-- Both addresses are published and nothing is signalled. -/
def quietPages : Pages := ⟨true, 0, true, fun _ => 0#64⟩

instance (s : Sys) (a : Act) : Decidable (NoRace s a) := by
  cases a with
  | set relid =>
    cases hpc : s.pc with
    | read wordIdx w =>
      exact decidable_of_iff (relid / 64 = wordIdx → w.getLsbD (relid % 64) = true)
        (by simp [NoRace, hpc])
    | _ => exact .isTrue (by simp [NoRace, hpc])
  | isr | message _ | publishSiefp | publishSimp => exact .isTrue trivial

instance (s : Sys) : Decidable (BetweenWords s) := by
  cases hpc : s.pc with
  | read wordIdx w => exact .isFalse fun h => (h wordIdx w).1 hpc
  | walk wordIdx w => exact .isFalse fun h => (h wordIdx w).2 hpc
  | _ => exact .isTrue (by simp [BetweenWords, hpc])

/-- Two channels of the first word are signalled, the second while the handler wakes
the first. -/
theorem notLost_of_noRace_two_channels :
    ∃ s, Exec step NoRace (init quietPages)
        [.set 1, .isr, .isr, .isr, .isr, .set 3, .isr, .isr] s ∧ BetweenWords s ∧ NotLost s := by
  obtain ⟨s, hs, hb⟩ : ∃ s, Exec step NoRace (init quietPages)
      [.set 1, .isr, .isr, .isr, .isr, .set 3, .isr, .isr] s ∧ BetweenWords s :=
    Exec.exists_of_run (by decide +kernel)
  exact ⟨s, hs, hb, notLost_of_noRace quietPages hs hb⟩

/-- Channel 3 is signalled after the handler has read the word with the bit of
channel 1 and before it clears the word: the bit is gone and nobody was woken. -/
theorem signal_lost_between_read_and_clear :
    ∃ s, Exec step (fun _ _ => True) (init quietPages)
        [.set 1, .isr, .isr, .isr, .set 3, .isr, .isr, .isr] s ∧
      BetweenWords s ∧ ¬ NotLost s := by
  obtain ⟨s, hs, hb, hlog, hbit⟩ : ∃ s, Exec step (fun _ _ => True) (init quietPages)
      [.set 1, .isr, .isr, .isr, .set 3, .isr, .isr, .isr] s ∧ BetweenWords s ∧
        s.log = [.set 1, .set 3, .wake (.channel 1)] ∧ (s.pages.flags 0).getLsbD 3 = false :=
    Exec.exists_of_run (by decide +kernel)
  refine ⟨s, hs, hb, fun hn => ?_⟩
  rcases hn 1 3 (by rw [hlog]; rfl) with h | ⟨k, e, hk1, hk3, hke, he⟩
  · exact absurd (hbit.symm.trans h.2) (by simp)
  · rw [hlog] at hk3 hke
    obtain rfl : k = 2 := by simp only [List.length_cons, List.length_nil] at hk3; omega
    simp [he] at hke

/-! ### One undisturbed run of the handler -/

theorem mem_walkBits (relid wordIdx : ℕ) (w : BitVec 64) :
    .channel relid ∈ walkBits wordIdx w ↔
      relid / 64 = wordIdx ∧ w.getLsbD (relid % 64) = true := by
  induction w using walkBits.induct with
  | case1 => simp [walkBits]
  | case2 w hw ih =>
    rw [walkBits, dif_neg hw, List.mem_cons, ih, Bits.getLsbD_and_sub_one, Wake.channel.injEq]
    have hlow := BitVec.getLsbD_true_ctz_of_ne_zero hw
    have hlt : w.ctz.toNat < 64 := BitVec.lt_of_getLsbD hlow
    constructor
    · rintro (h | ⟨hword, hbit⟩)
      · -- the lowest bit
        have hmod : relid % 64 = w.ctz.toNat := by omega
        exact ⟨by omega, by rw [hmod, hlow]⟩
      · simp only [Bool.and_eq_true] at hbit
        exact ⟨hword, hbit.1⟩
    · rintro ⟨hword, hbit⟩
      by_cases hmod : relid % 64 = w.ctz.toNat
      · exact .inl (by omega)
      · exact .inr ⟨hword, by simp [hbit, hmod]⟩

theorem mem_scanWords (relid : ℕ) (words : List ℕ) :
    ∀ flags : ℕ → BitVec 64, .channel relid ∈ (scanWords flags words).2 ↔
      relid / 64 ∈ words ∧ (flags (relid / 64)).getLsbD (relid % 64) = true := by
  induction words with
  | nil => simp [scanWords]
  | cons wordIdx words ih =>
    intro flags
    by_cases hw : flags wordIdx = 0#64
    · simp only [scanWords, if_pos hw, ih, List.mem_cons]
      constructor
      · exact fun h => ⟨.inr h.1, h.2⟩
      · rintro ⟨h | h, hbit⟩
        · rw [h, hw] at hbit
          simp at hbit
        · exact ⟨h, hbit⟩
    · simp only [scanWords, if_neg hw, List.mem_append, mem_walkBits, ih, List.mem_cons]
      by_cases hword : relid / 64 = wordIdx
      · simp [hword]
      · simp [hword]

/-- The handler calls exactly the channel wakers whose bits are set. -/
theorem mem_vmbusIsr {p : Pages} (hpub : p.siefp = true) (relid : ℕ) :
    .channel relid ∈ (vmbusIsr p).2 ↔ BitSet p.flags relid := by
  have hedge : .channel relid ∉ simpEdge p := by
    rw [simpEdge]
    split_ifs <;> simp
  simp only [vmbusIsr, if_pos hpub, List.mem_append, hedge, false_or, mem_scanWords,
    List.mem_range, BitSet]

/-- Some number of steps of the handler, with nothing in between. -/
def IsrSteps (s t : Sys) : Prop :=
  ∃ n, Exec step (fun _ _ => True) s (List.replicate n .isr) t

theorem IsrSteps.head {s t u : Sys} (hs : step s .isr = some t) (h : IsrSteps t u) :
    IsrSteps s u := by
  obtain ⟨n, hn⟩ := h
  exact ⟨n + 1, Exec.cons trivial hs hn⟩

theorem IsrSteps.trans {s t u : Sys} (h : IsrSteps s t) (h' : IsrSteps t u) : IsrSteps s u := by
  obtain ⟨n, hn⟩ := h
  obtain ⟨m, hm⟩ := h'
  exact ⟨n + m, by rw [List.replicate_add]; exact hn.trans hm⟩

theorem walk_isrSteps (p : Pages) (wordIdx : ℕ) (w : BitVec 64) :
    ∀ log : List Event, IsrSteps ⟨p, .walk wordIdx w, log⟩
      ⟨p, .scan (wordIdx + 1), log ++ (walkBits wordIdx w).map .wake⟩ := by
  induction w using walkBits.induct with
  | case1 =>
    intro log
    refine .head (t := ⟨p, .scan (wordIdx + 1), log⟩) (by simp [step, isrStep]) ⟨0, ?_⟩
    rw [walkBits, dif_pos rfl]
    simpa using Exec.nil
  | case2 w hw ih =>
    intro log
    refine .head (t := ⟨p, .walk wordIdx (w &&& (w - 1#64)),
      log ++ [.wake (.channel (wordIdx * 64 + w.ctz.toNat))]⟩) (by simp [step, isrStep, hw]) ?_
    rw [walkBits, dif_neg hw, List.map_cons, List.append_cons log _ (List.map _ _)]
    exact ih _

theorem scan_isrSteps {n wordIdx : ℕ} (hn : wordIdx + n = siefpWords) :
    ∀ (p : Pages) (log : List Event), IsrSteps ⟨p, .scan wordIdx, log⟩
      ⟨{ p with flags := (scanWords p.flags (List.range' wordIdx n)).1 }, .idle,
        log ++ (scanWords p.flags (List.range' wordIdx n)).2.map .wake⟩ := by
  induction n generalizing wordIdx with
  | zero =>
    intro p log
    refine ⟨1, Exec.cons (t := ⟨p, .idle, log⟩) trivial ?_ ?_⟩
    · simp [step, isrStep, show ¬ wordIdx < siefpWords by omega]
    · simpa [scanWords] using Exec.nil
  | succ n ih =>
    intro p log
    have hlt : wordIdx < siefpWords := by omega
    rw [List.range'_succ]
    by_cases hw : p.flags wordIdx = 0#64
    · simp only [scanWords, if_pos hw]
      refine .head (t := ⟨p, .scan (wordIdx + 1), log⟩) (by simp [step, isrStep, hlt, hw]) ?_
      exact ih (by omega) p log
    · simp only [scanWords, if_neg hw, List.map_append]
      -- read, clear, walk, and on to the next word
      refine .head (t := ⟨p, .read wordIdx (p.flags wordIdx), log⟩)
        (by simp [step, isrStep, hlt, hw]) ?_
      refine .head (t := ⟨{ p with flags := Function.update p.flags wordIdx 0#64 },
        .walk wordIdx (p.flags wordIdx), log⟩) (by simp [step, isrStep]) ?_
      rw [← List.append_assoc]
      exact (walk_isrSteps _ _ _ log).trans (ih (by omega) _ _)

/-- **Undisturbed, the steps of the handler compute `vmbusIsr`.** -/
theorem isrSteps_eq_vmbusIsr (p : Pages) (log : List Event) :
    IsrSteps ⟨p, .idle, log⟩ ⟨(vmbusIsr p).1, .idle, log ++ (vmbusIsr p).2.map .wake⟩ := by
  refine .head (t := ⟨p, .siefp, log ++ (simpEdge p).map .wake⟩) (by simp [step, isrStep]) ?_
  by_cases hpub : p.siefp = true
  · refine .head (t := ⟨p, .scan 0, log ++ (simpEdge p).map .wake⟩)
      (by simp [step, isrStep, hpub]) ?_
    simp only [vmbusIsr, if_pos hpub, List.range_eq_range', List.map_append]
    rw [← List.append_assoc]
    exact scan_isrSteps (by simp) p _
  · simp only [vmbusIsr, if_neg hpub]
    exact ⟨1, Exec.cons (t := ⟨p, .idle, log ++ (simpEdge p).map .wake⟩) trivial
      (by simp [step, isrStep, hpub]) .nil⟩

/-! ### The table of channel wakers -/

section

variable {W : Type} (willWake : W → W → Bool)

/-- `AtomicWaker::register`: the cell keeps a waker for the same task and replaces
any other. -/
def register (cell : Option W) (w : W) : Option W :=
  match cell with
  | some w' => if willWake w' w then some w' else some w
  | none => some w

/-- The slot `channel_waker` returns for a channel. -/
def channelWaker (relid : ℕ) : ℕ := relid % channelWakerSlots

/-- The table after these registrations of wakers for channels, in order. -/
def wakerTable (regs : List (ℕ × W)) : ℕ → Option W :=
  regs.foldl (fun table reg => Function.update table (channelWaker reg.1)
    (register willWake (table (channelWaker reg.1)) reg.2)) fun _ => none

/-- The wakers that these calls of `wake` reach. -/
def woken (table : ℕ → Option W) (calls : List Wake) : List W :=
  calls.flatMap fun
    | .simp => []
    | .channel relid => (table (channelWaker relid)).toList

/-- A waker for the task of `w` is among these. -/
def IsWoken (wakers : List W) (w : W) : Prop := ∃ w' ∈ wakers, willWake w' w = true

variable {willWake}

/-- With one waker per task, a slot holds the waker that was registered there last. -/
theorem wakerTable_eq {regs : List (ℕ × W)}
    (hdist : regs.Pairwise fun a b => willWake a.2 b.2 = false) (c : ℕ) :
    wakerTable willWake regs c =
      ((regs.filter fun reg => channelWaker reg.1 == c).getLast?).map Prod.snd := by
  induction regs using List.reverseRecOn with
  | nil => rfl
  | append_singleton regs reg ih =>
    rw [List.pairwise_append] at hdist
    have hold := ih hdist.1
    rw [wakerTable, List.foldl_concat, ← wakerTable, List.filter_append]
    by_cases hc : channelWaker reg.1 = c
    · subst hc
      rw [Function.update_self, hold]
      have hone : [reg].filter (fun r => channelWaker r.1 == channelWaker reg.1) = [reg] := by simp
      rw [hone, List.getLast?_concat]
      cases hlast : (regs.filter fun r => channelWaker r.1 == channelWaker reg.1).getLast? with
      | none => rfl
      | some r =>
        -- the earlier registrant is another task, so it is replaced
        have hmem := (List.mem_filter.mp (List.mem_of_getLast? hlast)).1
        simp [register, hdist.2.2 r hmem reg (by simp)]
    · rw [Function.update_of_ne (Ne.symm hc), hold]
      simp [hc]

theorem mem_woken {table : ℕ → Option W} {calls : List Wake} {w : W} :
    w ∈ woken table calls ↔
      ∃ relid, .channel relid ∈ calls ∧ table (channelWaker relid) = some w := by
  rw [woken, List.mem_flatMap]
  constructor
  · rintro ⟨call, hcall, hw⟩
    cases call with
    | simp => simp at hw
    | channel relid => exact ⟨relid, hcall, Option.mem_toList.mp hw⟩
  · rintro ⟨relid, hcall, hw⟩
    exact ⟨.channel relid, hcall, Option.mem_toList.mpr hw⟩

/-- A task whose bit is set is woken exactly if no later registration took its
slot. -/
theorem isWoken_iff_last (hrefl : ∀ w, willWake w w = true)
    (hsymm : ∀ w w', willWake w w' = willWake w' w) (before after : List (ℕ × W)) {r : ℕ} {w : W}
    (hdist : (before ++ (r, w) :: after).Pairwise fun a b => willWake a.2 b.2 = false)
    {p : Pages} (hpub : p.siefp = true) (hbit : BitSet p.flags r) :
    IsWoken willWake (woken (wakerTable willWake (before ++ (r, w) :: after)) (vmbusIsr p).2) w ↔
      ∀ reg ∈ after, channelWaker reg.1 ≠ channelWaker r := by
  have hparts := List.pairwise_append.mp hdist
  have hafter : ∀ reg ∈ after, willWake w reg.2 = false := (List.pairwise_cons.mp hparts.2.1).1
  constructor
  · rintro ⟨w', hw', hwake⟩ reg hreg hclash
    obtain ⟨relid, -, htable⟩ := mem_woken.mp hw'
    rw [wakerTable_eq hdist, Option.map_eq_some_iff] at htable
    obtain ⟨last, hlast, rfl⟩ := htable
    -- only its own registration can wake this task
    have hown : last = (r, w) := by
      have hmem := (List.mem_filter.mp (List.mem_of_getLast? hlast)).1
      rcases List.mem_append.mp hmem with h | h
      · exact absurd (hwake.symm.trans (hparts.2.2 last h (r, w) (by simp))) (by simp)
      · rcases List.mem_cons.mp h with h | h
        · exact h
        · rw [hsymm, hafter last h] at hwake
          exact absurd hwake (by simp)
    have hslot : channelWaker r = channelWaker relid := by
      have := (List.mem_filter.mp (List.mem_of_getLast? hlast)).2
      rw [hown] at this
      exact beq_iff_eq.mp this
    -- but a later registration in the slot is the last one there
    rw [List.filter_append, List.filter_cons_of_pos (by simp [hslot])] at hlast
    have hne : after.filter (fun reg => channelWaker reg.1 == channelWaker relid) ≠ [] :=
      List.ne_nil_of_mem (List.mem_filter.mpr ⟨hreg, by simp [hclash, hslot]⟩)
    rw [List.getLast?_append_of_ne_nil _ (by simp), List.getLast?_cons_of_ne_nil hne] at hlast
    have hmem := (List.mem_filter.mp (List.mem_of_getLast? hlast)).1
    rw [hown] at hmem
    exact absurd ((hrefl w).symm.trans (hafter _ hmem)) (by simp)
  · intro hlast
    refine ⟨w, mem_woken.mpr ⟨r, (mem_vmbusIsr hpub r).mpr hbit, ?_⟩, hrefl w⟩
    have hnil : after.filter (fun reg => channelWaker reg.1 == channelWaker r) = [] := by
      rw [List.filter_eq_nil_iff]
      exact fun reg hreg => by simp [hlast reg hreg]
    rw [wakerTable_eq hdist, List.filter_append, List.filter_cons_of_pos (by simp), hnil,
      List.getLast?_concat]
    rfl

/-- **The table wakes every signalled task exactly while no slot is taken over.**
For tasks with pairwise different wakers, registered in any order for any channels,
and any content of the page: one run of the handler wakes every registered task
whose bit is set, if and only if no channel whose bit is set is followed, in the
order of registration, by a channel that shares its slot. -/
theorem wakes_iff_last_registered (hrefl : ∀ w, willWake w w = true)
    (hsymm : ∀ w w', willWake w w' = willWake w' w) (regs : List (ℕ × W))
    (hdist : regs.Pairwise fun a b => willWake a.2 b.2 = false) {p : Pages}
    (hpub : p.siefp = true) :
    (∀ reg ∈ regs, BitSet p.flags reg.1 →
        IsWoken willWake (woken (wakerTable willWake regs) (vmbusIsr p).2) reg.2) ↔
      regs.Pairwise fun a b => BitSet p.flags a.1 → channelWaker b.1 ≠ channelWaker a.1 := by
  constructor
  · intro hall
    rw [List.pairwise_iff_getElem]
    intro i j hi hj hij hbit
    have hsplit : regs = regs.take i ++ regs[i] :: regs.drop (i + 1) := by
      rw [← List.drop_eq_getElem_cons hi, List.take_append_drop]
    have hw : IsWoken willWake (woken (wakerTable willWake
        (regs.take i ++ regs[i] :: regs.drop (i + 1))) (vmbusIsr p).2) regs[i].2 := by
      rw [← hsplit]
      exact hall regs[i] (List.getElem_mem hi) hbit
    have hmem : regs[j] ∈ regs.drop (i + 1) := by
      rw [List.mem_iff_getElem]
      refine ⟨j - (i + 1), by rw [List.length_drop]; omega, ?_⟩
      simp [show i + 1 + (j - (i + 1)) = j by omega]
    rw [hsplit] at hdist
    exact (isWoken_iff_last hrefl hsymm _ _ hdist hpub hbit).mp hw _ hmem
  · intro hpair reg hreg hbit
    obtain ⟨before, after, rfl⟩ := List.append_of_mem hreg
    refine (isWoken_iff_last hrefl hsymm _ _ hdist hpub hbit).mpr fun reg' hreg' => ?_
    exact (List.pairwise_cons.mp (List.pairwise_append.mp hpair).2.1).1 reg' hreg' hbit

/-- Two channels in different slots: both are woken. -/
theorem wakes_iff_last_registered_two_slots :
    (BitSet (fun _ => 6#64) 1 ∧ BitSet (fun _ => 6#64) 2) ∧
      IsWoken (· == ·) (woken (wakerTable (· == ·) [(1, 10), (2, 20)])
        (vmbusIsr ⟨true, 0, true, fun _ => 6#64⟩).2) 10 ∧
      IsWoken (· == ·) (woken (wakerTable (· == ·) [(1, 10), (2, 20)])
        (vmbusIsr ⟨true, 0, true, fun _ => 6#64⟩).2) 20 := by
  have hslots : [(1, 10), (2, 20)].Pairwise fun a b =>
      BitSet (fun _ => 6#64) a.1 → channelWaker b.1 ≠ channelWaker a.1 := by
    simp [channelWaker, channelWakerSlots]
  have hbits : BitSet (fun _ => 6#64) 1 ∧ BitSet (fun _ => 6#64) 2 := by
    simp only [BitSet]
    decide
  have hwoken := (wakes_iff_last_registered (fun w => beq_self_eq_true w)
    (fun _ _ => Bool.beq_comm) [(1, 10), (2, 20)] (by decide)
    (p := ⟨true, 0, true, fun _ => 6#64⟩) rfl).mpr hslots
  exact ⟨hbits, hwoken (1, 10) (by simp) hbits.1, hwoken (2, 20) (by simp) hbits.2⟩

/-- Channels 1 and 65 share a slot: the task of channel 1 registered first, and the
signal for channel 1 wakes only the task of channel 65. -/
theorem wake_missed_after_takeover :
    BitSet (fun j => if j = 0 then 2#64 else 0#64) 1 ∧
      ¬ IsWoken (· == ·) (woken (wakerTable (· == ·) [(1, 10), (65, 20)])
        (vmbusIsr ⟨true, 0, true, fun j => if j = 0 then 2#64 else 0#64⟩).2) 10 := by
  have hbit : BitSet (fun j => if j = 0 then 2#64 else 0#64) 1 := ⟨by decide, by decide⟩
  refine ⟨hbit, fun h => ?_⟩
  have := (isWoken_iff_last (r := 1) (w := 10)
    (p := ⟨true, 0, true, fun j => if j = 0 then 2#64 else 0#64⟩)
    (fun w => beq_self_eq_true w) (fun _ _ => Bool.beq_comm) [] [(65, 20)] (by decide) rfl
    hbit).mp h
  exact this (65, 20) (by simp) rfl

end

end Isr
