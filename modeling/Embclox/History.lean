/-
Histories: lists of events to which a run only appends.

`Between p log i j` says that an event with property `p` lies strictly between the
events `i` and `j`.  What has been seen between two events stays seen
(`Between.append`), and a new event lies after every old one (`between_of_mem`).
-/
import Mathlib.Data.List.Basic
import Mathlib.Tactic.Common

namespace History

variable {ε : Type*} {p : ε → Prop} {log new : List ε} {i j : ℕ}

/-- An event with property `p` lies strictly between the events `i` and `j`. -/
def Between (p : ε → Prop) (log : List ε) (i j : ℕ) : Prop :=
  ∃ k e, i < k ∧ k < j ∧ log[k]? = some e ∧ p e

theorem getElem?_append_of_some {e : ε} (h : log[i]? = some e) :
    (log ++ new)[i]? = some e := by
  rw [List.getElem?_append_left (List.getElem?_eq_some_iff.mp h).1, h]

/-- An event of the longer history that is none of the new ones is an old one. -/
theorem getElem?_of_append {e : ε} (h : (log ++ new)[i]? = some e) (hnew : e ∉ new) :
    log[i]? = some e := by
  by_cases hlt : i < log.length
  · rwa [List.getElem?_append_left hlt] at h
  · rw [List.getElem?_append_right (by omega)] at h
    exact absurd (List.mem_of_getElem? h) hnew

/-- An entry of a history with one more entry is an old one or the new one. -/
theorem getElem?_concat {e e' : ε} (h : (log ++ [e])[i]? = some e') :
    log[i]? = some e' ∨ (i = log.length ∧ e = e') := by
  rcases Nat.lt_or_ge i log.length with hlt | hge
  · rw [List.getElem?_append_left hlt] at h
    exact .inl h
  · rw [List.getElem?_append_right hge] at h
    obtain ⟨hlt, heq⟩ := List.getElem?_eq_some_iff.mp h
    rw [List.length_singleton] at hlt
    exact .inr ⟨by omega, by rwa [List.getElem_singleton] at heq⟩

/-- A history that was followed so far is followed one entry further. -/
theorem concat_prefix {e : ε} (h : new <+: log) (hget : log[new.length]? = some e) :
    new ++ [e] <+: log := by
  obtain ⟨rest, rfl⟩ := h
  rw [List.getElem?_append_right (Nat.le_refl _), Nat.sub_self] at hget
  cases rest with
  | nil => exact absurd hget (by simp)
  | cons x rest =>
    obtain rfl := Option.some.inj hget
    exact ⟨rest, by rw [List.append_assoc, List.singleton_append]⟩

theorem Between.append (h : Between p log i j) : Between p (log ++ new) i j := by
  obtain ⟨k, e, hik, hkj, hk, hp⟩ := h
  exact ⟨k, e, hik, hkj, getElem?_append_of_some hk, hp⟩

theorem Between.mono {j' : ℕ} (hj : j ≤ j') (h : Between p log i j) : Between p log i j' := by
  obtain ⟨k, e, hik, hkj, hk⟩ := h
  exact ⟨k, e, hik, by omega, hk⟩

/-- What was seen before the new events is seen before the end. -/
theorem Between.extend (h : Between p log i log.length) :
    Between p (log ++ new) i (log ++ new).length :=
  h.append.mono (by simp)

/-- A new event lies after every old one. -/
theorem between_of_mem {e : ε} (hi : i < log.length) (hmem : e ∈ new) (hp : p e) :
    Between p (log ++ new) i (log ++ new).length := by
  obtain ⟨k, hk⟩ := List.mem_iff_getElem?.mp hmem
  have hlt : k < new.length := (List.getElem?_eq_some_iff.mp hk).1
  refine ⟨log.length + k, e, by omega, by rw [List.length_append]; omega, ?_, hp⟩
  rw [List.getElem?_append_right (by omega), Nat.add_sub_cancel_left, hk]

end History
