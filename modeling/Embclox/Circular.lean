/-
Circular memory: positions, windows and streams of records modulo a size.

A circular buffer of `N` cells is a memory `m : ℕ → α` of which the cells below
`N` count, and every position is taken modulo `N`.

* `dist N s i` — how far the cell `i` lies after the position `s`, going up and
  around; `dist_add` and `add_dist` say that it inverts `(s + ·) % N`;
* `InWindow N s t i` — the cell `i` lies between the positions `s` and `t`; the
  window grows at its end (`inWindow_push`) and shrinks at its start
  (`inWindow_pop`);
* `window N m s n` — the `n` cells from position `s` on; windows split
  (`window_add`) and depend on no other cell (`window_congr`);
* `store N m s xs` — write `xs` from position `s` on; consecutive stores are one
  store (`store_store`), a store is read back (`window_store`) and leaves the
  window before it alone (`window_store_before`);
* `Stored enc gap N m s q` — the records `q` lie one after the other from
  position `s` on, each followed by `gap` cells that hold anything.  Appending a
  record is one store (`Stored.snoc`), dropping the oldest one moves the start
  (`Stored.tail`).
-/
import Mathlib.Data.List.Basic
import Mathlib.Tactic.Common

namespace Circular

variable {α ρ : Type*} {N : ℕ}

theorem add_mod_eq (hN : 0 < N) {s d : ℕ} (hd : d ≤ N) :
    (s + d) % N = if s % N + d < N then s % N + d else s % N + d - N := by
  have hs : s % N < N := Nat.mod_lt s hN
  rw [Nat.add_mod]
  rcases Nat.lt_or_eq_of_le hd with hlt | rfl
  · rw [Nat.mod_eq_of_lt hlt]
    split
    · rename_i h
      exact Nat.mod_eq_of_lt h
    · rw [Nat.mod_eq_sub_mod (by omega), Nat.mod_eq_of_lt (by omega)]
  · rw [Nat.mod_self, Nat.add_zero, Nat.mod_mod, if_neg (by omega), Nat.add_sub_cancel]

/-- How far the cell `i` lies after the position `s`. -/
def dist (N s i : ℕ) : ℕ := if s % N ≤ i then i - s % N else i + N - s % N

theorem dist_lt {s i : ℕ} (hi : i < N) : dist N s i < N := by
  have hs : s % N < N := Nat.mod_lt s (by omega)
  unfold dist
  split <;> omega

theorem add_dist {s i : ℕ} (hi : i < N) : (s + dist N s i) % N = i := by
  have hN : 0 < N := by omega
  have hs : s % N < N := Nat.mod_lt s hN
  rw [add_mod_eq hN (Nat.le_of_lt (dist_lt hi))]
  unfold dist
  split <;> split <;> omega

theorem dist_add (hN : 0 < N) {s d : ℕ} (hd : d < N) : dist N s ((s + d) % N) = d := by
  have hs : s % N < N := Nat.mod_lt s hN
  rw [add_mod_eq hN (Nat.le_of_lt hd)]
  unfold dist
  split <;> split <;> omega

theorem dist_self (hN : 0 < N) (s : ℕ) : dist N s (s % N) = 0 := dist_add (d := 0) hN hN

theorem dist_self_of_lt {s : ℕ} (hs : s < N) : dist N s s = 0 := by
  simpa [Nat.mod_eq_of_lt hs] using dist_self (N := N) (Nat.zero_lt_of_lt hs) s

theorem dist_mod (s i : ℕ) : dist N (s % N) i = dist N s i := by
  unfold dist
  rw [Nat.mod_mod]

/-- Moving the origin up by `a` brings a cell that lies at least `a` further up
nearer by `a`, and sends the others around. -/
theorem dist_add_left {s a i : ℕ} (ha : a ≤ N) (hi : i < N) :
    dist N (s + a) i = if a ≤ dist N s i then dist N s i - a else dist N s i + N - a := by
  have hN : 0 < N := by omega
  have hs : s % N < N := Nat.mod_lt s hN
  unfold dist
  rw [add_mod_eq hN ha]
  split <;> split <;> split <;> split <;> omega

theorem dist_inj {s i j : ℕ} (hi : i < N) (hj : j < N) (h : dist N s i = dist N s j) :
    i = j := by
  rw [← add_dist (s := s) hi, h, add_dist hj]

/-- The cell after `t` lies one further up, unless that brings it back to `s`. -/
theorem dist_succ {s t : ℕ} (ht : t < N) (hne : (t + 1) % N ≠ s % N) :
    dist N s ((t + 1) % N) = dist N s t + 1 := by
  have hN : 0 < N := by omega
  have hstep : (t + 1) % N = (s + (dist N s t + 1)) % N := by
    rw [← Nat.add_assoc, ← Nat.mod_add_mod (s + dist N s t), add_dist ht]
  have hlt : dist N s t < N := dist_lt ht
  by_cases hfull : dist N s t + 1 = N
  · rw [hstep, hfull, Nat.add_mod_right] at hne
    exact absurd rfl hne
  · rw [hstep, dist_add hN (by omega)]

/-! ### The cells between two positions -/

/-- The cell `i` lies in the window from `s` up to, but not including, `t`. -/
def InWindow (N s t i : ℕ) : Prop := i < N ∧ dist N s i < dist N s t

theorem not_inWindow_end (s t : ℕ) : ¬ InWindow N s t t := fun h => Nat.lt_irrefl _ h.2

/-- A window whose ends agree is empty. -/
theorem not_inWindow_self {s i : ℕ} (hs : s < N) : ¬ InWindow N s s i := by
  intro h
  have h0 := dist_self_of_lt hs
  exact absurd h.2 (by omega)

/-- Moving the end up by one adds the old end, unless the window closes. -/
theorem inWindow_push {s t i : ℕ} (ht : t < N) (hne : (t + 1) % N ≠ s % N) :
    InWindow N s ((t + 1) % N) i ↔ InWindow N s t i ∨ i = t := by
  unfold InWindow
  rw [dist_succ ht hne]
  constructor
  · rintro ⟨hi, hlt⟩
    rcases Nat.lt_or_eq_of_le (Nat.lt_succ_iff.mp hlt) with h | h
    · exact .inl ⟨hi, h⟩
    · exact .inr (dist_inj hi ht h)
  · rintro (⟨hi, hlt⟩ | rfl)
    · exact ⟨hi, by omega⟩
    · exact ⟨ht, by omega⟩

/-- Moving the start up by one removes the old start from a window that is not
empty. -/
theorem inWindow_pop {s t i : ℕ} (hs : s < N) (ht : t < N) (hne : s ≠ t) :
    InWindow N ((s + 1) % N) t i ↔ InWindow N s t i ∧ i ≠ s := by
  have h0 := dist_self_of_lt hs
  have htpos : dist N s t ≠ 0 := fun h => hne (dist_inj hs ht (h0.trans h.symm))
  have hzero : i < N → (dist N s i = 0 ↔ i = s) := fun hi =>
    ⟨fun h => dist_inj hi hs (h.trans h0.symm), fun h => h ▸ h0⟩
  unfold InWindow
  by_cases hi : i < N
  · have hlt := dist_lt (s := s) ht
    rw [dist_mod, dist_mod, dist_add_left (by omega) hi, dist_add_left (by omega) ht,
      if_pos (show 1 ≤ dist N s t by omega)]
    by_cases his : i = s
    · subst his
      rw [if_neg (by omega)]
      simp only [hi, true_and, ne_eq, not_true_eq_false, and_false, iff_false]
      omega
    · have := (hzero hi).not.mpr his
      rw [if_pos (by omega)]
      simp only [hi, true_and, ne_eq, his, not_false_eq_true, and_true]
      omega
  · simp [hi]

/-! ### Windows of cells -/

/-- The `n` cells from position `s` on. -/
def window (N : ℕ) (m : ℕ → α) (s n : ℕ) : List α :=
  (List.range n).map fun k => m ((s + k) % N)

@[simp] theorem length_window (m : ℕ → α) (s n : ℕ) : (window N m s n).length = n := by
  simp [window]

theorem getElem_window {m : ℕ → α} {s n k : ℕ} (hk : k < (window N m s n).length) :
    (window N m s n)[k] = m ((s + k) % N) := by
  simp [window]

theorem window_add (m : ℕ → α) (s a b : ℕ) :
    window N m s (a + b) = window N m s a ++ window N m (s + a) b := by
  simp [window, List.range_add, Nat.add_assoc]

theorem window_mod (m : ℕ → α) (s n : ℕ) : window N m (s % N) n = window N m s n := by
  simp [window]

theorem window_congr {m m' : ℕ → α} {s n : ℕ}
    (h : ∀ k < n, m ((s + k) % N) = m' ((s + k) % N)) : window N m s n = window N m' s n := by
  unfold window
  exact List.map_congr_left fun k hk => h k (List.mem_range.mp hk)

theorem take_window (m : ℕ → α) (s : ℕ) {k n : ℕ} (h : k ≤ n) :
    (window N m s n).take k = window N m s k := by
  obtain ⟨b, rfl⟩ := Nat.exists_eq_add_of_le h
  rw [window_add, List.take_left' (length_window m s k)]

/-! ### Stores -/

/-- Write `xs` from position `s` on. -/
def store (N : ℕ) (m : ℕ → α) (s : ℕ) (xs : List α) : ℕ → α :=
  fun i => if i < N then (xs[dist N s i]?).getD (m i) else m i

theorem store_nil (m : ℕ → α) (s : ℕ) : store N m s [] = m := by
  funext i
  simp [store]

/-- A cell that lies `xs.length` or more after `s` is not written. -/
theorem store_of_le {m : ℕ → α} {s i : ℕ} {xs : List α} (h : xs.length ≤ dist N s i) :
    store N m s xs i = m i := by
  unfold store
  split
  · rw [List.getElem?_eq_none h, Option.getD_none]
  · rfl

theorem store_at {m : ℕ → α} {s k : ℕ} {xs : List α} (hlen : xs.length ≤ N)
    (hk : k < xs.length) : store N m s xs ((s + k) % N) = xs[k] := by
  have hN : 0 < N := by omega
  unfold store
  rw [if_pos (Nat.mod_lt _ hN), dist_add hN (by omega), List.getElem?_eq_getElem hk,
    Option.getD_some]

theorem window_store {m : ℕ → α} {s : ℕ} {xs : List α} (hlen : xs.length ≤ N) :
    window N (store N m s xs) s xs.length = xs := by
  apply List.ext_getElem
  · simp
  · intro k h1 h2
    rw [getElem_window]
    exact store_at hlen h2

/-- A part of what was written. -/
theorem window_store_mid {m : ℕ → α} {s : ℕ} {xs ys zs : List α}
    (hlen : (xs ++ (ys ++ zs)).length ≤ N) :
    window N (store N m s (xs ++ (ys ++ zs))) (s + xs.length) ys.length = ys := by
  have hall := window_store (m := m) (s := s) hlen
  rw [List.length_append, window_add] at hall
  have hrest := (List.append_inj hall (length_window ..)).2
  rw [List.length_append] at hrest
  rw [← take_window _ _ (Nat.le_add_right ys.length zs.length), hrest, List.take_left]

/-- A store leaves the window that ends where it begins alone, as long as the
two together go around at most once. -/
theorem window_store_before {m : ℕ → α} {s n : ℕ} {xs : List α} (hlen : n + xs.length ≤ N) :
    window N (store N m (s + n) xs) s n = window N m s n := by
  refine window_congr fun k hk => ?_
  have hN : 0 < N := by omega
  have hlt : (s + k) % N < N := Nat.mod_lt _ hN
  apply store_of_le
  rw [dist_add_left (by omega) hlt, dist_add hN (by omega), if_neg (by omega)]
  omega

/-- Two stores, one after the other, are one store. -/
theorem store_store {m : ℕ → α} {s : ℕ} {xs ys : List α} (hlen : xs.length + ys.length ≤ N) :
    store N (store N m s xs) (s + xs.length) ys = store N m s (xs ++ ys) := by
  funext i
  unfold store
  by_cases hi : i < N
  · have hd : dist N s i < N := dist_lt hi
    simp only [if_pos hi]
    rw [dist_add_left (by omega) hi]
    by_cases hx : xs.length ≤ dist N s i
    · rw [if_pos hx, List.getElem?_append_right hx, List.getElem?_eq_none hx, Option.getD_none]
    · rw [if_neg hx, List.getElem?_append_left (by omega), List.getElem?_eq_none (by omega),
        Option.getD_none]
  · simp only [if_neg hi]

theorem store_mod (m : ℕ → α) (s : ℕ) (xs : List α) : store N m (s % N) xs = store N m s xs := by
  funext i
  simp only [store, dist_mod]

/-! ### Streams of records -/

/-- The cells the records `q` take up, each with the `gap` after it. -/
def span (enc : ρ → List α) (gap : ℕ) : List ρ → ℕ
  | [] => 0
  | p :: q => (enc p).length + gap + span enc gap q

@[simp] theorem span_nil (enc : ρ → List α) (gap : ℕ) : span enc gap [] = 0 := rfl

@[simp] theorem span_cons (enc : ρ → List α) (gap : ℕ) (p : ρ) (q : List ρ) :
    span enc gap (p :: q) = (enc p).length + gap + span enc gap q := rfl

@[simp] theorem span_append (enc : ρ → List α) (gap : ℕ) (q q' : List ρ) :
    span enc gap (q ++ q') = span enc gap q + span enc gap q' := by
  induction q with
  | nil => rw [List.nil_append, span_nil, Nat.zero_add]
  | cons p q ih => rw [List.cons_append, span_cons, span_cons, ih, Nat.add_assoc _ (span enc gap q)]

/-- The records `q` lie one after the other from position `s` on. -/
def Stored (enc : ρ → List α) (gap N : ℕ) (m : ℕ → α) : ℕ → List ρ → Prop
  | _, [] => True
  | s, p :: q => window N m s (enc p).length = enc p ∧
      Stored enc gap N m (s + ((enc p).length + gap)) q

variable {enc : ρ → List α} {gap : ℕ} {m : ℕ → α}

theorem Stored.tail {s : ℕ} {p : ρ} {q : List ρ} (h : Stored enc gap N m s (p :: q)) :
    Stored enc gap N m (s + ((enc p).length + gap)) q := h.2

theorem stored_mod : ∀ {q : List ρ} {s : ℕ},
    Stored enc gap N m (s % N) q ↔ Stored enc gap N m s q
  | [], _ => Iff.rfl
  | p :: q, s => by
    simp only [Stored, window_mod]
    rw [← stored_mod (q := q) (s := s % N + _), Nat.mod_add_mod, stored_mod]

theorem stored_append {q q' : List ρ} : ∀ {s : ℕ},
    Stored enc gap N m s (q ++ q') ↔
      Stored enc gap N m s q ∧ Stored enc gap N m (s + span enc gap q) q' := by
  induction q with
  | nil => simp [Stored]
  | cons p q ih =>
    intro s
    rw [List.cons_append, Stored, Stored, ih, and_assoc, span_cons, Nat.add_assoc]

/-- Records depend on no cell outside their span. -/
theorem Stored.congr {m' : ℕ → α} : ∀ {q : List ρ} {s : ℕ}, Stored enc gap N m s q →
    window N m' s (span enc gap q) = window N m s (span enc gap q) → Stored enc gap N m' s q
  | [], _, _, _ => trivial
  | p :: q, s, h, hw => by
    rw [span_cons, window_add m', window_add m] at hw
    obtain ⟨hp, hq⟩ := List.append_inj hw (by simp)
    rw [window_add m', window_add m] at hp
    refine ⟨?_, Stored.congr h.2 hq⟩
    rw [(List.append_inj hp (by simp)).1]
    exact h.1

/-- **Appending a record** is one store right after the span of the others; the
`gap` cells that follow it come from `tr`. -/
theorem Stored.snoc {s : ℕ} {q : List ρ} {p : ρ} {tr : List α} (h : Stored enc gap N m s q)
    (htr : tr.length = gap) (hlen : span enc gap (q ++ [p]) ≤ N) :
    Stored enc gap N (store N m (s + span enc gap q) (enc p ++ tr)) s (q ++ [p]) := by
  simp only [span_append, span_cons, span_nil, Nat.add_zero] at hlen
  have hsize : span enc gap q + (enc p ++ tr).length ≤ N := by
    rw [List.length_append]
    omega
  rw [stored_append]
  refine ⟨h.congr (window_store_before hsize), ?_, trivial⟩
  have hfit : (enc p ++ tr).length ≤ N := by omega
  have hall := window_store (m := m) (s := s + span enc gap q) hfit
  rw [List.length_append, window_add] at hall
  exact (List.append_inj hall (by simp)).1

end Circular
