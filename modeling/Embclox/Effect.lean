/-
Programs with a state, errors and panics.

A program over the state `σ` ends with a value, with an error that its caller sees
(`?` passes it on), or in a panic that nobody catches; the state it leaves is kept
in all three cases.  `attempt` turns an error into a value, as a caller that
inspects or ignores a `Result` does.

* `Does I R E p` — the program keeps the invariant `I` and changes the state only as
  `R` allows if it returns a value, and as `E` allows if it does not; the rules
  follow the way programs are put together;
* `Returns Q p` — every value the program returns meets `Q`;
* `Leaves f p` — the program does not change the part `f` of its state;
* `Safe p` — the program never panics;
* `SafeOn I p`, `ReturnsOn I p` — where `I` holds, it does not panic, or it returns a
  value, and keeps `I`.
-/
import Mathlib.Tactic.Common

namespace Effect

universe u

/-- How a program ends. -/
inductive Outcome (ε α : Type u)
  | ok (a : α)
  | err (e : ε)
  | panic

def Outcome.isOk {ε α : Type u} : Outcome ε α → Bool
  | .ok _ => true
  | .err _ | .panic => false

theorem Outcome.exists_of_isOk {ε α : Type u} {o : Outcome ε α} (h : o.isOk = true) :
    ∃ a, o = .ok a := by
  cases o with
  | ok a => exact ⟨a, rfl⟩
  | err e => cases h
  | panic => cases h

/-- A program over the state `σ` with errors in `ε`. -/
def Prog (σ ε α : Type u) : Type u := σ → Outcome ε α × σ

variable {σ ε α β : Type u}

namespace Prog

def bind (p : Prog σ ε α) (f : α → Prog σ ε β) : Prog σ ε β := fun s =>
  match p s with
  | (.ok a, t) => f a t
  | (.err e, t) => (.err e, t)
  | (.panic, t) => (.panic, t)

instance : Monad (Prog σ ε) where
  pure a := fun s => (.ok a, s)
  bind := bind

/-- End with an error. -/
def fail (e : ε) : Prog σ ε α := fun s => (.err e, s)

def panic : Prog σ ε α := fun s => (.panic, s)

def get : Prog σ ε σ := fun s => (.ok s, s)

def modify (f : σ → σ) : Prog σ ε PUnit := fun s => (.ok ⟨⟩, f s)

/-- Run a program and turn its error into a value. -/
def attempt (p : Prog σ ε α) : Prog σ ε (Except ε α) := fun s =>
  match p s with
  | (.ok a, t) => (.ok (.ok a), t)
  | (.err e, t) => (.ok (.error e), t)
  | (.panic, t) => (.panic, t)

/-- An error is a panic. -/
def expect (p : Prog σ ε α) : Prog σ ε α := fun s =>
  match p s with
  | (.ok a, t) => (.ok a, t)
  | (.err _, t) => (.panic, t)
  | (.panic, t) => (.panic, t)

/-- A computation without state in which `none` is a panic. -/
def ofOption (o : Option α) : Prog σ ε α := fun s =>
  match o with
  | some a => (.ok a, s)
  | none => (.panic, s)

@[simp] theorem pure_apply (a : α) (s : σ) : (pure a : Prog σ ε α) s = (.ok a, s) := rfl

@[simp] theorem fail_apply (e : ε) (s : σ) : (fail e : Prog σ ε α) s = (.err e, s) := rfl

@[simp] theorem panic_apply (s : σ) : (panic : Prog σ ε α) s = (.panic, s) := rfl

@[simp] theorem get_apply (s : σ) : (get : Prog σ ε σ) s = (.ok s, s) := rfl

theorem bind_apply (p : Prog σ ε α) (f : α → Prog σ ε β) (s : σ) :
    (p >>= f) s = match p s with
      | (.ok a, t) => f a t
      | (.err e, t) => (.err e, t)
      | (.panic, t) => (.panic, t) := rfl

theorem get_bind (f : σ → Prog σ ε α) (s : σ) : (get >>= f) s = f s s := rfl

/-! ### What a program may do to its state -/

/-- A relation for programs that return and one for programs that do not: nothing,
and one change after the other, are allowed. -/
structure Closed (R E : σ → σ → Prop) : Prop where
  refl : ∀ s, R s s
  trans : ∀ {s t u}, R s t → R t u → R s u
  fails : ∀ {s t u}, R s t → E t u → E s u
  weaken : ∀ {s t}, R s t → E s t

/-- What the program does from the state `s`. -/
def DoesAt (I : σ → Prop) (R E : σ → σ → Prop) (p : Prog σ ε α) (s : σ) : Prop :=
  I (p s).2 ∧ match (p s).1 with
    | .ok _ => R s (p s).2
    | _ => E s (p s).2

def Does (I : σ → Prop) (R E : σ → σ → Prop) (p : Prog σ ε α) : Prop :=
  ∀ s, I s → DoesAt I R E p s

section

variable {I : σ → Prop} {R E R' E' : σ → σ → Prop} {p : Prog σ ε α} {s : σ}

theorem DoesAt.mono (h : DoesAt I R E p s) (hR : ∀ {t}, R s t → R' s t)
    (hE : ∀ {t}, E s t → E' s t) : DoesAt I R' E' p s := by
  refine ⟨h.1, ?_⟩
  have h2 := h.2
  split at h2
  · exact hR h2
  · exact hE h2

/-- Where both relations are the same, the outcome does not matter. -/
theorem DoesAt.rel (h : DoesAt I R R p s) : R s (p s).2 := by
  have h2 := h.2
  split at h2 <;> exact h2

theorem Does.mono (h : Does I R E p) (hR : ∀ {s t}, R s t → R' s t)
    (hE : ∀ {s t}, E s t → E' s t) : Does I R' E' p :=
  fun s hs => (h s hs).mono hR hE

theorem Does.pure (c : Closed R E) (a : α) : Does I R E (Pure.pure a : Prog σ ε α) :=
  fun s hs => ⟨hs, c.refl s⟩

theorem Does.fail (c : Closed R E) (e : ε) : Does I R E (fail e : Prog σ ε α) :=
  fun s hs => ⟨hs, c.weaken (c.refl s)⟩

theorem Does.panic (c : Closed R E) : Does I R E (panic : Prog σ ε α) :=
  fun s hs => ⟨hs, c.weaken (c.refl s)⟩

theorem Does.ofOption (c : Closed R E) (o : Option α) : Does I R E (ofOption o : Prog σ ε α) := by
  cases o with
  | none => exact Does.panic c
  | some a => exact Does.pure c a

theorem Does.modify {f : σ → σ} (h : ∀ s, I s → I (f s) ∧ R s (f s)) :
    Does I R E (modify f : Prog σ ε PUnit) :=
  fun s hs => h s hs

/-- A program that looks at the state first. -/
theorem Does.get_bind {f : σ → Prog σ ε α} (h : ∀ s, I s → DoesAt I R E (f s) s) :
    Does I R E (get >>= f) :=
  fun s hs => h s hs

theorem DoesAt.bind (c : Closed R E) {f : α → Prog σ ε β} (hp : DoesAt I R E p s)
    (hf : ∀ a, Does I R E (f a)) : DoesAt I R E (p >>= f) s := by
  unfold DoesAt at hp ⊢
  rw [bind_apply]
  rcases hps : p s with ⟨_ | _ | _, t⟩ <;> rw [hps] at hp
  · -- the second program runs from where the first one ended
    obtain ⟨hI, hft⟩ := hf _ t hp.1
    refine ⟨hI, ?_⟩
    dsimp only at hft hp ⊢
    split at hft
    · rename_i h
      rw [h]
      exact c.trans hp.2 hft
    · exact c.fails hp.2 hft
  · exact hp
  · exact hp

theorem Does.bind (c : Closed R E) {f : α → Prog σ ε β} (hp : Does I R E p)
    (hf : ∀ a, Does I R E (f a)) : Does I R E (p >>= f) :=
  fun s hs => (hp s hs).bind c hf

/-- A caller that goes on after an error has done what the failed program did. -/
theorem DoesAt.attempt (c : Closed R E) (h : DoesAt I R R p s) : DoesAt I R E (attempt p) s := by
  unfold DoesAt Prog.attempt at *
  rcases hp : p s with ⟨_ | _ | _, t⟩ <;> rw [hp] at h
  · exact h
  · exact h
  · exact ⟨h.1, c.weaken h.2⟩

theorem Does.attempt (c : Closed R E) (h : Does I R R p) : Does I R E (attempt p) :=
  fun s hs => (h s hs).attempt c

theorem DoesAt.some_bind {a : α} {f : α → Prog σ ε β} (h : DoesAt I R E (f a) s) :
    DoesAt I R E (ofOption (some a) >>= f) s := h

end

/-- Every value the program returns meets `Q`. -/
def Returns (Q : α → Prop) (p : Prog σ ε α) : Prop := ∀ s a, (p s).1 = .ok a → Q a

section

variable {Q : α → Prop}

theorem Returns.pure {a : α} (h : Q a) : Returns Q (Pure.pure a : Prog σ ε α) := by
  intro s b hb
  obtain rfl := Outcome.ok.inj hb
  exact h

theorem Returns.fail (e : ε) : Returns Q (fail e : Prog σ ε α) :=
  fun _ _ h => absurd h (by simp)

theorem Returns.panic : Returns Q (panic : Prog σ ε α) :=
  fun _ _ h => absurd h (by simp)

theorem Returns.bind {p : Prog σ ε β} {f : β → Prog σ ε α} (h : ∀ b, Returns Q (f b)) :
    Returns Q (p >>= f) := by
  intro s a ha
  rw [bind_apply] at ha
  rcases hp : p s with ⟨_ | _ | _, t⟩ <;> rw [hp] at ha
  · exact h _ t a ha
  · exact absurd ha (by simp)
  · exact absurd ha (by simp)

end

/-- The program does not change the part `f` of its state, however it ends. -/
def Leaves {γ : Type*} (f : σ → γ) (p : Prog σ ε α) : Prop := ∀ s, f (p s).2 = f s

section

variable {γ : Type*} {f : σ → γ}

theorem Leaves.pure (a : α) : Leaves f (Pure.pure a : Prog σ ε α) := fun _ => rfl

theorem Leaves.fail (e : ε) : Leaves f (fail e : Prog σ ε α) := fun _ => rfl

theorem Leaves.panic : Leaves f (panic : Prog σ ε α) := fun _ => rfl

theorem Leaves.get : Leaves f (get : Prog σ ε σ) := fun _ => rfl

theorem Leaves.modify {g : σ → σ} (h : ∀ s, f (g s) = f s) :
    Leaves f (modify g : Prog σ ε PUnit) := h

theorem Leaves.ofOption (o : Option α) : Leaves f (ofOption o : Prog σ ε α) := by
  cases o with
  | none => exact Leaves.panic
  | some a => exact Leaves.pure a

theorem Leaves.bind {p : Prog σ ε α} {g : α → Prog σ ε β} (hp : Leaves f p)
    (hg : ∀ a, Leaves f (g a)) : Leaves f (p >>= g) := by
  intro s
  rw [bind_apply]
  have h := hp s
  rcases hps : p s with ⟨_ | _ | _, t⟩ <;> rw [hps] at h
  · exact (hg _ t).trans h
  · exact h
  · exact h

theorem Leaves.attempt {p : Prog σ ε α} (h : Leaves f p) : Leaves f (attempt p) := by
  intro s
  unfold Prog.attempt
  have hs := h s
  rcases hp : p s with ⟨_ | _ | _, t⟩ <;> rw [hp] at hs <;> exact hs

/-- Of a larger part, every smaller one is left alone too. -/
theorem Leaves.comp {δ : Type*} {p : Prog σ ε α} (h : Leaves f p) (g : γ → δ) :
    Leaves (fun s => g (f s)) p :=
  fun s => congrArg g (h s)

end

/-! ### Programs without panics -/

/-- The program never panics. -/
def Safe (p : Prog σ ε α) : Prop := ∀ s, (p s).1 ≠ .panic

theorem Safe.pure (a : α) : Safe (Pure.pure a : Prog σ ε α) := by
  intro s h
  cases h

theorem Safe.fail (e : ε) : Safe (fail e : Prog σ ε α) := by
  intro s h
  cases h

theorem Safe.get : Safe (get : Prog σ ε σ) := by
  intro s h
  cases h

theorem Safe.modify (f : σ → σ) : Safe (modify f : Prog σ ε PUnit) := by
  intro s h
  cases h

theorem Safe.bind {p : Prog σ ε α} {g : α → Prog σ ε β} (hp : Safe p) (hg : ∀ a, Safe (g a)) :
    Safe (p >>= g) := by
  intro s
  rw [bind_apply]
  have h := hp s
  rcases hps : p s with ⟨a | e | _, t⟩
  · exact hg a t
  · intro h'
    cases h'
  · rw [hps] at h
    exact absurd rfl h

/-- From a state of `I` the program does not panic and ends in one. -/
def SafeOn (I : σ → Prop) (p : Prog σ ε α) : Prop := ∀ s, I s → (p s).1 ≠ .panic ∧ I (p s).2

/-- From a state of `I` the program returns a value and ends in one. -/
def ReturnsOn (I : σ → Prop) (p : Prog σ ε α) : Prop :=
  ∀ s, I s → (∃ a, (p s).1 = .ok a) ∧ I (p s).2

section

variable {I : σ → Prop}

theorem SafeOn.fail (e : ε) : SafeOn I (fail e : Prog σ ε α) :=
  fun _ hs => ⟨by simp, hs⟩

theorem SafeOn.get_bind {f : σ → Prog σ ε α} (h : ∀ s, I s → SafeOn I (f s)) :
    SafeOn I (Prog.get >>= f) :=
  fun s hs => h s hs s hs

theorem ReturnsOn.pure (a : α) : ReturnsOn I (Pure.pure a : Prog σ ε α) :=
  fun _ hs => ⟨⟨a, rfl⟩, hs⟩

theorem ReturnsOn.modify {f : σ → σ} (h : ∀ s, I s → I (f s)) :
    ReturnsOn I (modify f : Prog σ ε PUnit) :=
  fun s hs => ⟨⟨⟨⟩, rfl⟩, h s hs⟩

theorem ReturnsOn.get_bind {f : σ → Prog σ ε α} (h : ∀ s, I s → ReturnsOn I (f s)) :
    ReturnsOn I (Prog.get >>= f) :=
  fun s hs => h s hs s hs

theorem ReturnsOn.bind {p : Prog σ ε α} {g : α → Prog σ ε β} (hp : ReturnsOn I p)
    (hg : ∀ a, ReturnsOn I (g a)) : ReturnsOn I (p >>= g) := by
  intro s hs
  obtain ⟨⟨a, ha⟩, ht⟩ := hp s hs
  rw [bind_apply, show p s = (.ok a, (p s).2) from Prod.ext ha rfl]
  exact hg a _ ht

theorem ReturnsOn.bind_safe {p : Prog σ ε α} {g : α → Prog σ ε β} (hp : ReturnsOn I p)
    (hg : ∀ a, SafeOn I (g a)) : SafeOn I (p >>= g) := by
  intro s hs
  obtain ⟨⟨a, ha⟩, ht⟩ := hp s hs
  rw [bind_apply, show p s = (.ok a, (p s).2) from Prod.ext ha rfl]
  exact hg a _ ht

/-- A caller that inspects the error of a program without panics gets a value. -/
theorem SafeOn.attempt {p : Prog σ ε α} (h : SafeOn I p) : ReturnsOn I (attempt p) := by
  intro s hs
  have hp := h s hs
  unfold Prog.attempt
  rcases hps : p s with ⟨a | e | _, t⟩ <;> rw [hps] at hp
  · exact ⟨⟨_, rfl⟩, hp.2⟩
  · exact ⟨⟨_, rfl⟩, hp.2⟩
  · exact absurd rfl hp.1

end

end Prog

end Effect
