import Mathlib.Tactic.Common

/-!
# Effectful code with exceptions

An `Act` acts on a state and returns or raises; what it did before it raised stays done. The rules
are those of an invariant that every statement keeps, whether it returns or raises, and of a code
that is known to have returned.
-/

set_option autoImplicit false

namespace ClawEngine.Core

/-- Code on a state `σ` that raises `ε` or returns `A`. -/
def Act (σ ε A : Type) : Type := σ → Except ε A × σ

namespace Act

variable {σ ε ε' A B : Type}

/-- `return a`. -/
def ret (a : A) : Act σ ε A := fun s => (.ok a, s)

/-- `raise e`. -/
def raise (e : ε) : Act σ ε A := fun s => (.error e, s)

/-- A value read off the state. -/
def read (f : σ → A) : Act σ ε A := fun s => (.ok (f s), s)

/-- A value read off the state, or an exception. -/
def readE (f : σ → Except ε A) : Act σ ε A := fun s => (f s, s)

/-- One statement after another. -/
def bind (x : Act σ ε A) (f : A → Act σ ε B) : Act σ ε B := fun s =>
  match x s with
  | (.error e, s') => (.error e, s')
  | (.ok a, s') => f a s'

instance : Monad (Act σ ε) where
  pure := ret
  bind := bind

theorem bind_bind {D : Type} (x : Act σ ε A) (f : A → Act σ ε B) (g : B → Act σ ε D) :
    (x >>= f) >>= g = x >>= fun a => f a >>= g := by
  funext s
  show Act.bind (Act.bind x f) g s = Act.bind x (fun a => Act.bind (f a) g) s
  unfold Act.bind
  generalize x s = out
  obtain ⟨answer, s'⟩ := out
  cases answer <;> rfl

/-- The same code with its exceptions under another name. -/
def mapError (f : ε → ε') (x : Act σ ε A) : Act σ ε' A := fun s =>
  match x s with
  | (.error e, s') => (.error (f e), s')
  | (.ok a, s') => (.ok a, s')

/-- `try: x` with every exception caught: what it raised or returned. -/
def attempt (x : Act σ ε A) : Act σ ε' (Except ε A) := fun s => (.ok (x s).1, (x s).2)

/-! ## Invariants -/

/-- The code keeps `I`, whether it returns or raises. -/
def Keeps (I : σ → Prop) (x : Act σ ε A) : Prop := ∀ s, I s → I (x s).2

variable {I : σ → Prop}

theorem keeps_pure (a : A) : Keeps I (pure a : Act σ ε A) := fun _ h => h

theorem keeps_raise (e : ε) : Keeps I (raise e : Act σ ε A) := fun _ h => h

theorem keeps_read (f : σ → A) : Keeps I (read f : Act σ ε A) := fun _ h => h

theorem keeps_readE (f : σ → Except ε A) : Keeps I (readE f) := fun _ h => h

/-- What the code kept holds where it ended. -/
theorem Keeps.of_eq {x : Act σ ε A} (hx : Keeps I x) {s s' : σ} {answer : Except ε A} (hs : I s)
    (h : x s = (answer, s')) : I s' := by
  have hleft := hx s hs
  rwa [h] at hleft

theorem Keeps.bind {x : Act σ ε A} {f : A → Act σ ε B} (hx : Keeps I x)
    (hf : ∀ a, Keeps I (f a)) : Keeps I (x >>= f) := by
  intro s hs
  have hleft := hx s hs
  show I (Act.bind x f s).2
  unfold Act.bind
  generalize x s = out at hleft
  obtain ⟨answer, s'⟩ := out
  cases answer with
  | error e => exact hleft
  | ok a => exact hf a s' hleft

/-- The same, with what is known of the value that was returned. -/
theorem Keeps.bind_of {x : Act σ ε A} {f : A → Act σ ε B} {P : A → Prop} (hx : Keeps I x)
    (hpost : ∀ s a s', I s → x s = (.ok a, s') → P a) (hf : ∀ a, P a → Keeps I (f a)) :
    Keeps I (x >>= f) := by
  intro s hs
  have hleft := hx s hs
  have hvalue := hpost s
  show I (Act.bind x f s).2
  unfold Act.bind
  generalize x s = out at hleft hvalue
  obtain ⟨answer, s'⟩ := out
  cases answer with
  | error e => exact hleft
  | ok a => exact hf a (hvalue a s' hs rfl) s' hleft

/-- What follows may keep less: it ends with `J` where the first statement kept `I`. -/
theorem Keeps.bind_ends {J : σ → Prop} {x : Act σ ε A} {f : A → Act σ ε B} (hx : Keeps I x)
    (hIJ : ∀ s, I s → J s) (hf : ∀ a s, I s → J (f a s).2) (s : σ) (hs : I s) :
    J ((x >>= f) s).2 := by
  have hleft := hx s hs
  show J (Act.bind x f s).2
  unfold Act.bind
  generalize x s = out at hleft
  obtain ⟨answer, s'⟩ := out
  cases answer with
  | error e => exact hIJ _ hleft
  | ok a => exact hf a s' hleft

/-- Where one run of a sequence ends: what holds where the first statement ended, the second
keeps. -/
theorem bind_ends_at {x : Act σ ε A} {f : A → Act σ ε B} {s : σ} (hx : I (x s).2)
    (hf : ∀ a s', x s = (.ok a, s') → I s' → I (f a s').2) : I ((x >>= f) s).2 := by
  show I (Act.bind x f s).2
  unfold Act.bind
  generalize x s = out at hx hf
  obtain ⟨answer, s'⟩ := out
  cases answer with
  | error e => exact hx
  | ok a => exact hf a s' rfl hx

theorem mapError_left (f : ε → ε') (x : Act σ ε A) (s : σ) : (x.mapError f s).2 = (x s).2 := by
  unfold Act.mapError
  generalize x s = out
  obtain ⟨answer, s'⟩ := out
  cases answer <;> rfl

theorem Keeps.mapError {x : Act σ ε A} (f : ε → ε') (hx : Keeps I x) :
    Keeps I (x.mapError f) := by
  intro s hs
  have hleft := hx s hs
  unfold Act.mapError
  generalize x s = out at hleft
  obtain ⟨answer, s'⟩ := out
  cases answer with
  | error e => exact hleft
  | ok a => exact hleft

theorem Keeps.attempt {x : Act σ ε A} (hx : Keeps I x) :
    Keeps I (x.attempt : Act σ ε' (Except ε A)) := fun s hs => hx s hs

/-! ## Code that returned -/

theorem bind_eq_ok {x : Act σ ε A} {f : A → Act σ ε B} {s s'' : σ} {b : B} :
    (x >>= f) s = (.ok b, s'') ↔ ∃ a s', x s = (.ok a, s') ∧ f a s' = (.ok b, s'') := by
  show Act.bind x f s = _ ↔ _
  unfold Act.bind
  generalize x s = out
  obtain ⟨answer, s'⟩ := out
  cases answer with
  | error e =>
    constructor
    · intro h
      cases h
    · rintro ⟨a, s₁, h, -⟩
      cases h
  | ok a =>
    constructor
    · intro h
      exact ⟨a, s', rfl, h⟩
    · rintro ⟨_, _, h, hf⟩
      cases h
      exact hf

theorem bind_of_ok {x : Act σ ε A} {f : A → Act σ ε B} {s s' : σ} {a : A}
    (h : x s = (.ok a, s')) : (x >>= f) s = f a s' := by
  show Act.bind x f s = _
  simp only [Act.bind, h]

theorem bind_of_error {x : Act σ ε A} {f : A → Act σ ε B} {s s' : σ} {e : ε}
    (h : x s = (.error e, s')) : (x >>= f) s = (.error e, s') := by
  show Act.bind x f s = _
  simp only [Act.bind, h]

theorem bind_eq_error {x : Act σ ε A} {f : A → Act σ ε B} {s s'' : σ} {e : ε} :
    (x >>= f) s = (.error e, s'') ↔
      x s = (.error e, s'') ∨ ∃ a s', x s = (.ok a, s') ∧ f a s' = (.error e, s'') := by
  show Act.bind x f s = _ ↔ _
  unfold Act.bind
  generalize x s = out
  obtain ⟨answer, s'⟩ := out
  cases answer with
  | error e' =>
    constructor
    · intro h
      cases h
      exact .inl rfl
    · rintro (h | ⟨a, s₁, h, -⟩) <;> cases h
      rfl
  | ok a =>
    constructor
    · intro h
      exact .inr ⟨a, s', rfl, h⟩
    · rintro (h | ⟨_, _, h, hf⟩) <;> cases h
      exact hf

/-- Where a sequence raised, its first statement did, or the second from what the first kept. -/
theorem Keeps.bind_raised {x : Act σ ε A} {f : A → Act σ ε B} {s s'' : σ} {e : ε}
    (hx : Keeps I x) (hs : I s) (h : (x >>= f) s = (.error e, s'')) :
    I s'' ∨ ∃ a s', I s' ∧ f a s' = (.error e, s'') := by
  rcases bind_eq_error.mp h with h | ⟨a, s', hreturn, h⟩
  · exact .inl (hx.of_eq hs h)
  · exact .inr ⟨a, s', hx.of_eq hs hreturn, h⟩

theorem read_bind (f : σ → A) (g : A → Act σ ε B) (s : σ) : (read f >>= g) s = g (f s) s := rfl

theorem read_eq_ok {f : σ → A} {s s' : σ} {a : A} :
    (read f : Act σ ε A) s = (.ok a, s') ↔ f s = a ∧ s = s' := by
  rw [read, Prod.mk.injEq, Except.ok.injEq]

theorem attempt_eq_ok {x : Act σ ε A} {s s' : σ} {answer : Except ε A} :
    (x.attempt : Act σ ε' (Except ε A)) s = (.ok answer, s') ↔ x s = (answer, s') := by
  rw [attempt, Prod.mk.injEq, Except.ok.injEq, ← Prod.mk.injEq]

theorem readE_eq_ok {f : σ → Except ε A} {s s' : σ} {a : A} :
    readE f s = (.ok a, s') ↔ f s = .ok a ∧ s = s' := by
  rw [readE, Prod.mk.injEq]

theorem readE_ok_bind (a : A) (g : A → Act σ ε B) (s : σ) :
    (readE (fun _ => .ok a) >>= g) s = g a s := rfl

theorem mapError_bind (f : ε → ε') (x : Act σ ε A) (g : A → Act σ ε B) :
    (x >>= g).mapError f = x.mapError f >>= fun a => (g a).mapError f := by
  funext s
  show mapError f (bind x g) s = bind (mapError f x) (fun a => mapError f (g a)) s
  simp only [mapError, bind]
  generalize x s = out
  obtain ⟨answer, s'⟩ := out
  cases answer <;> rfl

theorem mapError_eq_ok {x : Act σ ε A} {f : ε → ε'} {s s' : σ} {a : A} :
    x.mapError f s = (.ok a, s') ↔ x s = (.ok a, s') := by
  unfold mapError
  generalize x s = out
  obtain ⟨answer, s''⟩ := out
  cases answer with
  | error e => simp only [Prod.mk.injEq, reduceCtorEq, false_and]
  | ok a => simp only [Prod.mk.injEq, Except.ok.injEq]

/-- What raises under `mapError` raised before it. -/
theorem mapError_eq_error {x : Act σ ε A} {f : ε → ε'} {s s' : σ} {e' : ε'}
    (h : x.mapError f s = (.error e', s')) : ∃ e, x s = (.error e, s') := by
  have hends := mapError_left f x s
  rw [h] at hends
  cases hrun : x s with
  | mk answer s'' =>
    rw [hrun] at hends
    cases hends
    cases answer with
    | error e => exact ⟨e, rfl⟩
    | ok a => cases (mapError_eq_ok.mpr hrun).symm.trans h

/-- The code returns. -/
def Returns (x : Act σ ε A) (s : σ) : Prop := ∃ a s', x s = (.ok a, s')

theorem returns_pure (a : A) (s : σ) : Returns (pure a : Act σ ε A) s := ⟨a, s, rfl⟩

theorem not_returns_raise (e : ε) (s : σ) : ¬ Returns (raise e : Act σ ε A) s := by
  rintro ⟨a, s', h⟩
  cases h

theorem returns_bind {x : Act σ ε A} {f : A → Act σ ε B} {s : σ} :
    Returns (x >>= f) s ↔ ∃ a s', x s = (.ok a, s') ∧ Returns (f a) s' := by
  constructor
  · rintro ⟨b, s'', h⟩
    obtain ⟨a, s', hx, hf⟩ := bind_eq_ok.mp h
    exact ⟨a, s', hx, b, s'', hf⟩
  · rintro ⟨a, s', hx, b, s'', hf⟩
    exact ⟨b, s'', bind_eq_ok.mpr ⟨a, s', hx, hf⟩⟩

theorem returns_mapError {x : Act σ ε A} {f : ε → ε'} {s : σ} :
    Returns (x.mapError f) s ↔ Returns x s := by
  constructor
  · rintro ⟨a, s', h⟩
    exact ⟨a, s', mapError_eq_ok.mp h⟩
  · rintro ⟨a, s', h⟩
    exact ⟨a, s', mapError_eq_ok.mpr h⟩

/-! ## Exceptions -/

/-- Every exception that the code raises has `P`. -/
def Raises (P : ε → Prop) (x : Act σ ε A) : Prop := ∀ s e s', x s = (.error e, s') → P e

section Exceptions

variable {P : ε → Prop}

theorem raises_pure (a : A) : Raises P (pure a : Act σ ε A) := fun _ _ _ h => by cases h

theorem raises_raise {e : ε} (h : P e) : Raises P (raise e : Act σ ε A) := by
  intro s e' s' hraise
  cases hraise
  exact h

theorem raises_read (f : σ → A) : Raises P (read f : Act σ ε A) := fun _ _ _ h => by cases h

theorem raises_attempt (x : Act σ ε' A) : Raises P (x.attempt : Act σ ε (Except ε' A)) :=
  fun _ _ _ h => by cases h

theorem Raises.bind {x : Act σ ε A} {f : A → Act σ ε B} (hx : Raises P x)
    (hf : ∀ a, Raises P (f a)) : Raises P (x >>= f) := by
  intro s e s' h
  rcases bind_eq_error.mp h with h | ⟨a, s₁, -, h⟩
  · exact hx s e s' h
  · exact hf a s₁ e s' h

/-- What is caught was raised. -/
theorem Raises.attempt_bind {x : Act σ ε' A} {Q : ε' → Prop} {f : Except ε' A → Act σ ε B}
    (hx : Raises Q x) (hf : ∀ answer, (∀ e, answer = .error e → Q e) → Raises P (f answer)) :
    Raises P (x.attempt >>= f) := by
  intro s e s' h
  refine hf (x s).1 (fun e' he' => ?_) (x s).2 e s' h
  exact hx s e' (x s).2 (Prod.ext he' rfl)

theorem raises_mapError {x : Act σ ε' A} {f : ε' → ε} (h : ∀ e, P (f e)) :
    Raises P (x.mapError f) := by
  intro s e s' hraise
  unfold mapError at hraise
  generalize x s = out at hraise
  obtain ⟨answer, s''⟩ := out
  cases answer with
  | error e' =>
    cases hraise
    exact h e'
  | ok a => cases hraise

end Exceptions

end Act

end ClawEngine.Core
