/-
Rings of slots with free-running counters.

Two parties pass numbered items through a ring of `N` slots: item `k` goes through
the slot `k % N`.  One counter says how many items have been put in and another how
many have been taken out, so that the full and the empty ring differ although their
cursors agree.

* `Held N a b i` — the slot `i` holds one of the items `a`, …, `b - 1`;
* `held_push`, `held_pop` — what the next item in and the oldest item out change;
* `Chan` — a ring as a channel: its full slots hold the items that were put and not
  yet taken, and the items are taken in the order in which they were put;
* `Chan.push`, `Chan.pop` — filling the slot of the next item, if it is free, and
  freeing that of the oldest, if it is full, keep the ring a channel.
-/
import Embclox.History
import Mathlib.Data.Nat.Basic

namespace Slots

variable {N a b i : ℕ}

/-- The slot `i` holds one of the items from `a` up to, but not including, `b`. -/
def Held (N a b i : ℕ) : Prop := ∃ k < b, a ≤ k ∧ k % N = i

instance : Decidable (Held N a b i) := inferInstanceAs (Decidable (∃ k < b, a ≤ k ∧ k % N = i))

/-- Items that are less than a ring apart have different slots. -/
theorem mod_inj {j k : ℕ} (hj : a ≤ j) (hj' : j < a + N) (hk : a ≤ k) (hk' : k < a + N)
    (h : j % N = k % N) : j = k := by
  -- the difference of the two is a multiple of `N` and below `N`
  have hdiff : ∀ {x y : ℕ}, a ≤ x → y < a + N → x % N = y % N → y - x = 0 := by
    intro x y hx hy hxy
    have hmod := Nat.sub_mod_eq_zero_of_mod_eq hxy.symm
    rwa [Nat.mod_eq_of_lt (by omega)] at hmod
  have hjk := hdiff hj hk' h
  have hkj := hdiff hk hj' h.symm
  omega

theorem Held.lt (h : Held N a b i) (hN : 0 < N) : i < N := by
  obtain ⟨k, -, -, rfl⟩ := h
  exact Nat.mod_lt k hN

theorem not_held_self : ¬ Held N a a i := by
  rintro ⟨k, hlt, hle, -⟩
  omega

/-- The next item goes into its slot. -/
theorem held_push (hab : a ≤ b) : Held N a (b + 1) i ↔ Held N a b i ∨ i = b % N := by
  constructor
  · rintro ⟨k, hlt, hle, rfl⟩
    rcases Nat.lt_or_eq_of_le (Nat.lt_succ_iff.mp hlt) with h | rfl
    · exact .inl ⟨k, h, hle, rfl⟩
    · exact .inr rfl
  · rintro (⟨k, hlt, hle, rfl⟩ | rfl)
    · exact ⟨k, by omega, hle, rfl⟩
    · exact ⟨b, by omega, hab, rfl⟩

/-- The oldest item leaves its slot. -/
theorem held_pop (hb : b ≤ a + N) : Held N (a + 1) b i ↔ Held N a b i ∧ i ≠ a % N := by
  constructor
  · rintro ⟨k, hlt, hle, rfl⟩
    refine ⟨⟨k, hlt, by omega, rfl⟩, fun h => ?_⟩
    have := mod_inj (a := a) (by omega) (by omega) (Nat.le_refl a) (by omega) h
    omega
  · rintro ⟨⟨k, hlt, hle, rfl⟩, hne⟩
    refine ⟨k, hlt, ?_, rfl⟩
    rcases Nat.lt_or_eq_of_le hle with h | rfl
    · exact h
    · exact absurd rfl hne

/-- The slot of the next item is taken exactly when the ring is full. -/
theorem held_next_iff (hN : 0 < N) (hb : b ≤ a + N) : Held N a b (b % N) ↔ b = a + N := by
  constructor
  · rintro ⟨k, hlt, hle, hk⟩
    by_contra hne
    have := mod_inj (a := a) hle (by omega) (by omega) (by omega) hk
    omega
  · rintro rfl
    exact ⟨a, by omega, Nat.le_refl a, (Nat.add_mod_right a N).symm⟩

/-- The slot of the oldest item is taken exactly when there is one. -/
theorem held_first_iff : Held N a b (a % N) ↔ a < b := by
  constructor
  · rintro ⟨k, hlt, hle, -⟩
    omega
  · exact fun hlt => ⟨a, hlt, Nat.le_refl a, rfl⟩

/-- A full ring has no free slot. -/
theorem held_of_full (hi : i < N) : Held N a (a + N) i := by
  induction a with
  | zero => exact ⟨i, by omega, Nat.zero_le i, Nat.mod_eq_of_lt hi⟩
  | succ a ih =>
    obtain ⟨k, hlt, hle, hk⟩ := ih
    -- the slot of the item that left is that of the item that came
    rcases Nat.lt_or_eq_of_le hle with h | rfl
    · exact ⟨k, by omega, h, hk⟩
    · exact ⟨a + N, by omega, by omega, by rw [Nat.add_mod_right, hk]⟩

/-! ### Channels -/

section

variable {α : Type*} {full full' : ℕ → Prop} {slot slot' : ℕ → α} {put taken : List α}

/-- The items of `put` pass through the slots, and those of `taken` have left. -/
structure Chan (N : ℕ) (full : ℕ → Prop) (slot : ℕ → α) (put taken : List α) : Prop where
  order : taken <+: put
  room : put.length ≤ taken.length + N
  full_iff : ∀ i < N, full i ↔ Held N taken.length put.length i
  stored : ∀ k x, taken.length ≤ k → put[k]? = some x → slot (k % N) = x

theorem Chan.of_empty (h : ∀ i < N, ¬ full i) : Chan N full slot [] [] := by
  refine ⟨List.prefix_rfl, Nat.zero_le _, fun i hi => ?_, fun k x _ hk => ?_⟩
  · exact iff_of_false (h i hi) not_held_self
  · exact absurd hk (by simp)

/-- The slot of the next item is full exactly when all are. -/
theorem Chan.full_next_iff (h : Chan N full slot put taken) (hN : 0 < N) :
    full (put.length % N) ↔ put.length = taken.length + N := by
  rw [h.full_iff _ (Nat.mod_lt _ hN), held_next_iff hN h.room]

theorem Chan.full_next_iff_forall (h : Chan N full slot put taken) (hN : 0 < N) :
    full (put.length % N) ↔ ∀ i < N, full i := by
  refine ⟨fun hfull i hi => ?_, fun hall => hall _ (Nat.mod_lt _ hN)⟩
  rw [h.full_iff i hi, (h.full_next_iff hN).mp hfull]
  exact held_of_full hi

/-- The slot of the oldest item is full exactly when there is one. -/
theorem Chan.full_first_iff (h : Chan N full slot put taken) (hN : 0 < N) :
    full (taken.length % N) ↔ taken ≠ put := by
  rw [h.full_iff _ (Nat.mod_lt _ hN), held_first_iff]
  constructor
  · rintro hlt rfl
    omega
  · intro hne
    exact Nat.lt_of_le_of_ne h.order.length_le fun hlen => hne (h.order.eq_of_length hlen)

/-- The next item goes into its slot, which was free. -/
theorem Chan.push (h : Chan N full slot put taken) (hN : 0 < N)
    (hfree : ¬ full (put.length % N)) (hnew : full' (put.length % N))
    (hsame : ∀ i < N, i ≠ put.length % N → (full' i ↔ full i) ∧ (full i → slot' i = slot i)) :
    Chan N full' slot' (put ++ [slot' (put.length % N)]) taken := by
  have hroom : put.length < taken.length + N :=
    Nat.lt_of_le_of_ne h.room fun hlen => hfree ((h.full_next_iff hN).mpr hlen)
  refine ⟨h.order.trans (List.prefix_append _ _), ?_, ?_, ?_⟩
  · rw [List.length_append, List.length_singleton]
    exact hroom
  · intro i hi
    rw [List.length_append, List.length_singleton, held_push h.order.length_le]
    by_cases heq : i = put.length % N
    · exact iff_of_true (heq ▸ hnew) (.inr heq)
    · rw [(hsame i hi heq).1, h.full_iff i hi, or_iff_left heq]
  · intro k x hk hget
    -- the item is the new one, or it lies in another slot
    rcases History.getElem?_concat hget with hold | ⟨rfl, rfl⟩
    · have hlt := (List.getElem?_eq_some_iff.mp hold).1
      have hfull : full (k % N) := (h.full_iff _ (Nat.mod_lt _ hN)).mpr ⟨k, hlt, hk, rfl⟩
      have hne : k % N ≠ put.length % N := fun heq => hfree (heq ▸ hfull)
      rw [(hsame _ (Nat.mod_lt _ hN) hne).2 hfull]
      exact h.stored k x hk hold
    · rfl

/-- The oldest item leaves its slot. -/
theorem Chan.pop (h : Chan N full slot put taken) (hN : 0 < N)
    (hfull : full (taken.length % N)) (hfreed : ¬ full' (taken.length % N))
    (hsame : ∀ i < N, i ≠ taken.length % N → (full' i ↔ full i) ∧ (full i → slot' i = slot i)) :
    Chan N full' slot' put (taken ++ [slot (taken.length % N)]) := by
  have hlt : taken.length < put.length := by
    rwa [h.full_iff _ (Nat.mod_lt _ hN), held_first_iff] at hfull
  have hget := List.getElem?_eq_getElem hlt
  have hroom := h.room
  refine ⟨?_, ?_, ?_, ?_⟩
  · rw [h.stored _ _ (Nat.le_refl _) hget]
    exact History.concat_prefix h.order hget
  · rw [List.length_append, List.length_singleton]
    omega
  · intro i hi
    rw [List.length_append, List.length_singleton, held_pop h.room]
    by_cases heq : i = taken.length % N
    · exact iff_of_false (heq ▸ hfreed) fun hand => hand.2 heq
    · rw [(hsame i hi heq).1, h.full_iff i hi, and_iff_left heq]
  · intro k x hk hk'
    rw [List.length_append, List.length_singleton] at hk
    have hklt := (List.getElem?_eq_some_iff.mp hk').1
    have hne : k % N ≠ taken.length % N := by
      intro heq
      have := mod_inj (a := taken.length) (by omega) (by omega) (Nat.le_refl _) (by omega) heq
      omega
    have hk'' : full (k % N) :=
      (h.full_iff _ (Nat.mod_lt _ hN)).mpr ⟨k, hklt, by omega, rfl⟩
    rw [(hsame _ (Nat.mod_lt _ hN) hne).2 hk'']
    exact h.stored k x (by omega) hk'

end

end Slots
