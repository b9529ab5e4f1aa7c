/-
What one undisturbed run of the interrupt handler does with the event flags.

* `walkBits_eq` — the inner loop wakes the channels of the set bits of a word, in
  increasing order;
* `scanWords_eq` — the outer loop leaves every word it goes over zero;
* `siefpScan_exact` — a run of the handler ends, the 32 words are zero, and the channel
  wakers called are those of the set bits of the 2048, each once and in increasing order.
-/
import Embclox.Isr

open Bits

namespace Isr

theorem walkBits_eq (wordIdx : ℕ) (w : BitVec 64) :
    walkBits wordIdx w = (setBits w).map fun bit => .channel (wordIdx * 64 + bit) := by
  induction w using walkBits.induct with
  | case1 =>
    rw [walkBits, dif_pos rfl, setBits_zero]
    rfl
  | case2 w hw ih => rw [walkBits, dif_neg hw, ih, setBits_eq_cons hw, List.map_cons]

/-- The words of the list are cleared, the others stay; each word is walked as it was at
the beginning, since no word is visited twice. -/
theorem scanWords_eq {words : List ℕ} (hnodup : words.Nodup) :
    ∀ flags : ℕ → BitVec 64, scanWords flags words =
      (fun i => if i ∈ words then 0#64 else flags i,
        words.flatMap fun wordIdx => walkBits wordIdx (flags wordIdx)) := by
  induction words with
  | nil =>
    intro flags
    simp [scanWords]
  | cons wordIdx words ih =>
    intro flags
    obtain ⟨hnotMem, hnodup⟩ := List.nodup_cons.mp hnodup
    by_cases hw : flags wordIdx = 0#64
    · simp only [scanWords, if_pos hw, ih hnodup, List.flatMap_cons]
      refine Prod.ext ?_ ?_
      · funext i
        rcases eq_or_ne i wordIdx with rfl | hne
        · simp [hw]
        · simp [hne]
      · rw [hw, walkBits, dif_pos rfl]
        rfl
    · simp only [scanWords, if_neg hw, ih hnodup, List.flatMap_cons]
      refine Prod.ext ?_ ?_
      · funext i
        rcases eq_or_ne i wordIdx with rfl | hne
        · simp
        · simp [hne]
      · -- what was cleared is not visited again
        refine congrArg (walkBits wordIdx (flags wordIdx) ++ ·) ?_
        refine List.flatMap_congr fun i hi => ?_
        rw [Function.update_of_ne]
        rintro rfl
        exact hnotMem hi

/-- The positions of the set bits of the slot, in increasing order. -/
def signalled (flags : ℕ → BitVec 64) : List ℕ :=
  (List.range (siefpWords * 64)).filter fun relid => (flags (relid / 64)).getLsbD (relid % 64)

/-- The bits of the slot are those of its words, one after the other. -/
theorem flatMap_walkBits (flags : ℕ → BitVec 64) :
    ((List.range siefpWords).flatMap fun wordIdx => walkBits wordIdx (flags wordIdx)) =
      (signalled flags).map .channel := by
  rw [signalled, range_mul, List.filter_flatMap, List.map_flatMap]
  refine List.flatMap_congr fun wordIdx _ => ?_
  rw [walkBits_eq, setBits, List.filter_map, List.map_map]
  congr 1
  refine List.filter_congr fun bit hbit => ?_
  have hlt := List.mem_range.mp hbit
  have hdiv : (wordIdx * 64 + bit) / 64 = wordIdx := by omega
  have hmod : (wordIdx * 64 + bit) % 64 = bit := by omega
  simp only [Function.comp_apply, hdiv, hmod]

theorem vmbusIsr_eq {p : Pages} (hpub : p.siefp = true) :
    vmbusIsr p =
      ({ p with flags := fun i => if i < siefpWords then 0#64 else p.flags i },
        simpEdge p ++ (signalled p.flags).map .channel) := by
  rw [vmbusIsr, if_pos hpub, scanWords_eq List.nodup_range, flatMap_walkBits]
  simp only [List.mem_range]

/-- **The scan of the event flags is exact.**  A run of the handler with no write of the
host in between comes to its end; then the words of the slot are zero and nothing else
has changed, and after the wake for a message, if there is one, the handler has called the
channel wakers of exactly the set bits, each once and in increasing order. -/
theorem siefpScan_exact (p : Pages) (log : List Event) (hpub : p.siefp = true) :
    ∃ t, IsrSteps ⟨p, .idle, log⟩ t ∧ t.pc = .idle ∧
      (∀ wordIdx < siefpWords, t.pages.flags wordIdx = 0#64) ∧
      (∀ wordIdx, siefpWords ≤ wordIdx → t.pages.flags wordIdx = p.flags wordIdx) ∧
      t.log = log ++ (simpEdge p ++ (signalled p.flags).map Wake.channel).map .wake := by
  have hsteps := isrSteps_eq_vmbusIsr p log
  rw [vmbusIsr_eq hpub] at hsteps
  refine ⟨_, hsteps, rfl, ?_, ?_, rfl⟩
  · intro wordIdx hlt
    exact if_pos hlt
  · intro wordIdx hle
    exact if_neg (Nat.not_lt.mpr hle)

/-- A message, two channels of the first word and the last channel. -/
def busyPages : Pages :=
  ⟨true, 1, true, fun i => if i = 0 then 10#64 else if i = 31 then BitVec.twoPow 64 63 else 0#64⟩

theorem siefpScan_exact_busy : busyPages.siefp = true ∧
    ∃ t, IsrSteps ⟨busyPages, .idle, []⟩ t ∧ t.pc = .idle ∧
      t.log = [.wake .simp, .wake (.channel 1), .wake (.channel 3), .wake (.channel 2047)] := by
  refine ⟨rfl, ?_⟩
  obtain ⟨t, hsteps, hpc, -, -, hlog⟩ := siefpScan_exact busyPages [] rfl
  refine ⟨t, hsteps, hpc, ?_⟩
  rw [hlog]
  decide +kernel

end Isr
