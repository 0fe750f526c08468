import ClawEngine.Core.Outcome
import ClawEngine.Observability.Otel

/-!
# What can be recorded on a span

`_serialise` has a text for a value exactly if the value renders: an integer has at most 4300
digits, an object says whether it is a scalar and, if so, its `str` returns, and of any other value
neither the encoder nor, where it fails, `repr` ends in something other than an `Exception`. Then
`record_tool` returns, and `finish` ends the span; where the value does not render, `finish` has
marked the span as ended and leaves it open for good.

Values made of containers and of objects that throw nothing but exceptions render, however deep they
are nested (`Tame.renders`).
-/

set_option autoImplicit false

namespace ClawEngine.Observability

open ClawEngine.Core OtelTraceSpan

variable {py : TextLib}

/-! ## The condition -/

/-- The value has a text. -/
structure Renders (py : TextLib) (v : PyVal) : Prop where
  digits : ∀ i, v = .int i → i.natAbs < 10 ^ maxStrDigits
  scalar : ∀ o, v = .object o →
    ∃ answer, o.scalar = .ok answer ∧ (answer = true → ∃ text, o.str = .ok text)
  guarded : scalarText py v = .ok none → ∀ e, encode py v py.encodeDepth = .error e →
    e.isException = true ∧ ∀ e', reprOf py v py.reprDepth = .error e' →
      e'.isException = true ∧ ∃ name, className v = .ok name

/-! ## The rendering -/

section Rendering

variable {v : PyVal}

theorem exceptException_returns {A : Type} {x fallback : Except Thrown A} :
    (∃ a, exceptException x fallback = .ok a) ↔
      ∀ e, x = .error e → e.isException = true ∧ ∃ a, fallback = .ok a := by
  cases x with
  | ok a =>
    refine iff_of_true ⟨a, rfl⟩ ?_
    intro e he
    cases he
  | error e =>
    simp only [exceptException, Except.error.injEq, forall_eq']
    cases he : e.isException with
    | true => simp only [if_true, true_and]
    | false => simp only [Bool.false_eq_true, if_false, reduceCtorEq, exists_false, false_and]

theorem map_returns {A B : Type} {x : Except Thrown A} {f : A → B} :
    (∃ b, x.map f = .ok b) ↔ ∃ a, x = .ok a := by
  simp only [map_eq_ok]
  exact ⟨fun ⟨_, a, ha, _⟩ => ⟨a, ha⟩, fun ⟨a, ha⟩ => ⟨f a, a, ha, rfl⟩⟩

theorem intText_returns {i : Int} : (∃ text, intText i = .ok text) ↔ i.natAbs < 10 ^ maxStrDigits := by
  unfold intText
  split_ifs with h
  · exact iff_of_true ⟨_, rfl⟩ h
  · refine iff_of_false ?_ h
    rintro ⟨text, htext⟩
    cases htext

theorem intText_error {i : Int} {e : Thrown} (h : intText i = .error e) : e.isException = true := by
  unfold intText at h
  split_ifs at h
  cases h
  rfl

/-- Asking for a scalar's text, unguarded, returns exactly if the value answers. -/
theorem scalarText_returns : (∃ text, scalarText py v = .ok text) ↔
    (∀ i, v = .int i → i.natAbs < 10 ^ maxStrDigits) ∧
      ∀ o, v = .object o →
        ∃ answer, o.scalar = .ok answer ∧ (answer = true → ∃ text, o.str = .ok text) := by
  have hplain : (∀ i, v ≠ .int i) → (∀ o, v ≠ .object o) →
      (∀ i, v = .int i → i.natAbs < 10 ^ maxStrDigits) ∧ ∀ o, v = .object o →
        ∃ answer, o.scalar = .ok answer ∧ (answer = true → ∃ text, o.str = .ok text) :=
    fun hint hobject => ⟨fun i hi => absurd hi (hint i), fun o ho => absurd ho (hobject o)⟩
  cases v with
  | int i =>
    rw [scalarText, map_returns, intText_returns]
    constructor
    · intro hdigits
      refine ⟨fun j hj => ?_, fun o ho => PyVal.noConfusion ho⟩
      cases hj
      exact hdigits
    · exact fun h => h.1 i rfl
  | object o =>
    have hall : (∃ text, scalarText py (.object o) = .ok text) ↔
        ∃ answer, o.scalar = .ok answer ∧ (answer = true → ∃ text, o.str = .ok text) := by
      rw [scalarText]
      cases o.scalar with
      | error e => exact iff_of_false nofun nofun
      | ok answer =>
        simp only [Except.ok.injEq, exists_eq_left']
        cases answer with
        | true => exact map_returns.trans ⟨fun h _ => h, fun h => h rfl⟩
        | false => exact iff_of_true ⟨_, rfl⟩ nofun
    rw [hall]
    constructor
    · intro hanswer
      refine ⟨fun i hi => PyVal.noConfusion hi, fun o' ho => ?_⟩
      cases ho
      exact hanswer
    · exact fun h => h.2 o rfl
  | _ => exact iff_of_true ⟨_, rfl⟩ (hplain (fun _ => PyVal.noConfusion) fun _ => PyVal.noConfusion)

/-- **A value has a rendering exactly if it renders.** -/
theorem rendering_returns : (∃ full, rendering py v = .ok full) ↔ Renders py v := by
  have hrenders : Renders py v ↔ (∃ text, scalarText py v = .ok text) ∧
      (scalarText py v = .ok none → ∀ e, encode py v py.encodeDepth = .error e →
        e.isException = true ∧ ∀ e', reprOf py v py.reprDepth = .error e' →
          e'.isException = true ∧ ∃ name, className v = .ok name) := by
    rw [scalarText_returns, and_assoc]
    exact ⟨fun h => ⟨h.digits, h.scalar, h.guarded⟩, fun h => ⟨h.1, h.2.1, h.2.2⟩⟩
  rw [hrenders, rendering]
  cases scalarText py v with
  | error e => exact iff_of_false nofun fun h => nomatch h.1
  | ok text =>
    cases text with
    | some text => exact iff_of_true ⟨text, rfl⟩ ⟨⟨_, rfl⟩, nofun⟩
    | none =>
      change (∃ full, exceptException _ (exceptException _ _) = .ok full) ↔ _
      simp only [exceptException_returns, map_returns]
      exact ⟨fun h => ⟨⟨_, rfl⟩, fun _ => h⟩, fun h => h.2 trivial⟩

theorem serialise_returns : (∃ text, serialise py v = .ok text) ↔ Renders py v := by
  rw [serialise, map_returns, rendering_returns]

/-- What `None` is given as is left out of the attributes, and has a text. -/
theorem renders_none (py : TextLib) : Renders py .none := by
  refine ⟨fun i hi => PyVal.noConfusion hi, fun o ho => PyVal.noConfusion ho, fun _ e he => ?_⟩
  rw [encode] at he
  cases he

end Rendering

/-! ## Recording -/

section Recording

variable {v input output : PyVal}

theorem toolAttributes_returns (key : String) :
    (∃ attrs, toolAttributes py key v = .ok attrs) ↔ Renders py v := by
  by_cases hnone : v = .none
  · subst hnone
    exact iff_of_true ⟨[], rfl⟩ (renders_none py)
  · have hgiven : toolAttributes py key v = (serialise py v).map (cutAttributes key) := by
      cases v <;> first | exact absurd rfl hnone | rfl
    rw [hgiven, map_returns, serialise_returns]

/-- The verdict of a `finish` has its calls exactly if the output renders, where it is recorded. -/
theorem verdictCalls_returns {error : Option String} :
    (∃ calls, verdictCalls py output error = .ok calls) ↔
      error.isSome = true ∨ Renders py output := by
  cases error with
  | some error => exact iff_of_true ⟨_, rfl⟩ (.inl rfl)
  | none =>
    have hnone : (none : Option String).isSome = true ↔ False := by decide
    rw [verdictCalls, map_returns, hnone, false_or]
    by_cases hgiven : output = .none
    · subst hgiven
      exact iff_of_true ⟨[], rfl⟩ (renders_none py)
    · rw [outputCalls_given hgiven, map_returns, serialise_returns]

end Recording

/-! ## Tame values -/

/-- What is thrown, if anything is, is an `Exception`. -/
abbrev OnlyExceptions {A : Type} (x : Except Thrown A) : Prop :=
  Ends (fun e => e.isException = true) (fun _ => True) x

/-- An object that throws nothing but exceptions when it is printed, and whose class has a name. -/
structure PyObject.Tame (o : PyObject) : Prop where
  repr : OnlyExceptions o.repr
  json : OnlyExceptions o.json
  key : OnlyExceptions o.key
  className : ∃ name, o.className = .ok name

/-- Containers of tame objects. -/
inductive Tame : PyVal → Prop
  | none : Tame .none
  | bool (b : Bool) : Tame (.bool b)
  | int (i : Int) : Tame (.int i)
  | float (x : PyFloat) : Tame (.float x)
  | str (s : String) : Tame (.str s)
  | list {items : List PyVal} (h : ∀ v ∈ items, Tame v) : Tame (.list items)
  | tuple {items : List PyVal} (h : ∀ v ∈ items, Tame v) : Tame (.tuple items)
  | dict {members : List (PyVal × PyVal)} (hkeys : ∀ m ∈ members, Tame m.1)
      (hvalues : ∀ m ∈ members, Tame m.2) : Tame (.dict members)
  | object {o : PyObject} (h : o.Tame) : Tame (.object o)

namespace OnlyExceptions

theorem bind {A B : Type} {x : Except Thrown A} {f : A → Except Thrown B} (hx : OnlyExceptions x)
    (hf : ∀ a, OnlyExceptions (f a)) : OnlyExceptions (x >>= f) := by
  cases x with
  | error e => exact hx
  | ok a => exact hf a

theorem map {A B : Type} {x : Except Thrown A} (f : A → B) (hx : OnlyExceptions x) :
    OnlyExceptions (x.map f) := by
  cases x with
  | error e => exact hx
  | ok a => trivial

theorem entering {A : Type} {body : Nat → Except Thrown A} (depth : Nat)
    (h : ∀ below, OnlyExceptions (body below)) : OnlyExceptions (entering depth body) := by
  cases depth with
  | zero => exact (rfl : true = true)
  | succ below => exact h below

theorem intText (i : Int) : OnlyExceptions (intText i) := by
  cases h : Observability.intText i with
  | ok text => trivial
  | error e => exact intText_error h

end OnlyExceptions

section Tame

variable {v : PyVal}

theorem encodeItems_only {items : List PyVal} {depth : Nat}
    (h : ∀ v ∈ items, OnlyExceptions (encode py v depth)) :
    OnlyExceptions (encodeItems py items depth) := by
  induction items with
  | nil =>
    rw [encodeItems]
    trivial
  | cons v items ih =>
    obtain ⟨hv, hitems⟩ := List.forall_mem_cons.mp h
    rw [encodeItems]
    exact hv.bind fun _ => (ih hitems).bind fun _ => trivial

theorem reprItems_only {items : List PyVal} {depth : Nat}
    (h : ∀ v ∈ items, OnlyExceptions (reprOf py v depth)) :
    OnlyExceptions (reprItems py items depth) := by
  induction items with
  | nil =>
    rw [reprItems]
    trivial
  | cons v items ih =>
    obtain ⟨hv, hitems⟩ := List.forall_mem_cons.mp h
    rw [reprItems]
    exact hv.bind fun _ => (ih hitems).bind fun _ => trivial

theorem encodeKey_only (h : Tame v) : OnlyExceptions (encodeKey py v) := by
  cases h with
  | int i => exact (OnlyExceptions.intText i).map _
  | object ho => exact ho.key
  | list => exact (rfl : true = true)
  | tuple => exact (rfl : true = true)
  | dict => exact (rfl : true = true)
  | _ => trivial

theorem encodeMembers_only {members : List (PyVal × PyVal)} {depth : Nat}
    (hkeys : ∀ m ∈ members, Tame m.1)
    (h : ∀ m ∈ members, OnlyExceptions (encode py m.2 depth)) :
    OnlyExceptions (encodeMembers py members depth) := by
  induction members with
  | nil =>
    rw [encodeMembers]
    trivial
  | cons m members ih =>
    obtain ⟨hk, hrest⟩ := List.forall_mem_cons.mp hkeys
    obtain ⟨hv, hmembers⟩ := List.forall_mem_cons.mp h
    obtain ⟨k, v⟩ := m
    rw [encodeMembers]
    exact (encodeKey_only hk).bind fun _ => hv.bind fun _ => (ih hrest hmembers).bind fun _ =>
      trivial

theorem reprMembers_only {members : List (PyVal × PyVal)} {depth : Nat}
    (hkeys : ∀ m ∈ members, OnlyExceptions (reprOf py m.1 depth))
    (h : ∀ m ∈ members, OnlyExceptions (reprOf py m.2 depth)) :
    OnlyExceptions (reprMembers py members depth) := by
  induction members with
  | nil =>
    rw [reprMembers]
    trivial
  | cons m members ih =>
    obtain ⟨hk, hrest⟩ := List.forall_mem_cons.mp hkeys
    obtain ⟨hv, hmembers⟩ := List.forall_mem_cons.mp h
    obtain ⟨k, v⟩ := m
    rw [reprMembers]
    exact hk.bind fun _ => hv.bind fun _ => (ih hrest hmembers).bind fun _ => trivial

theorem Tame.encode (py : TextLib) (h : Tame v) (depth : Nat) : OnlyExceptions (encode py v depth) := by
  induction h generalizing depth with
  | none => rw [Observability.encode]; trivial
  | bool b => rw [Observability.encode]; trivial
  | int i => rw [Observability.encode]; exact .intText i
  | float x => rw [Observability.encode]; trivial
  | str s => rw [Observability.encode]; trivial
  | list _ ih =>
    rw [Observability.encode]
    exact .entering depth fun below => (encodeItems_only fun v hv => ih v hv below).bind fun _ =>
      trivial
  | tuple _ ih =>
    rw [Observability.encode]
    exact .entering depth fun below => (encodeItems_only fun v hv => ih v hv below).bind fun _ =>
      trivial
  | dict hkeys _ _ ih =>
    rw [Observability.encode]
    exact .entering depth fun below =>
      (encodeMembers_only hkeys fun m hm => ih m hm below).bind fun _ => trivial
  | object ho => rw [Observability.encode]; exact ho.json

theorem Tame.repr (py : TextLib) (h : Tame v) (depth : Nat) : OnlyExceptions (reprOf py v depth) := by
  induction h generalizing depth with
  | none => rw [reprOf]; exact .entering depth fun _ => trivial
  | bool b => rw [reprOf]; exact .entering depth fun _ => trivial
  | int i => rw [reprOf]; exact .entering depth fun _ => .intText i
  | float x => rw [reprOf]; exact .entering depth fun _ => trivial
  | str s => rw [reprOf]; exact .entering depth fun _ => trivial
  | list _ ih =>
    rw [reprOf]
    exact .entering depth fun below => (reprItems_only fun v hv => ih v hv below).bind fun _ =>
      trivial
  | tuple _ ih =>
    rw [reprOf]
    exact .entering depth fun below => (reprItems_only fun v hv => ih v hv below).bind fun _ =>
      trivial
  | dict _ _ ihkeys ih =>
    rw [reprOf]
    exact .entering depth fun below => (reprMembers_only (fun m hm => ihkeys m hm below)
      fun m hm => ih m hm below).bind fun _ => trivial
  | object ho => rw [reprOf]; exact .entering depth fun _ => ho.repr

/-- **A tame value that is no scalar renders**, however large and however deep it is. -/
theorem Tame.renders (h : Tame v) (hscalar : scalarText py v = .ok Option.none) :
    Renders py v where
  digits := (scalarText_returns.mp ⟨_, hscalar⟩).1
  scalar := (scalarText_returns.mp ⟨_, hscalar⟩).2
  guarded _ e he := by
    have hencode := h.encode py py.encodeDepth
    rw [he] at hencode
    refine ⟨hencode, fun e' he' => ?_⟩
    have hrepr := h.repr py py.reprDepth
    rw [he'] at hrepr
    refine ⟨hrepr, ?_⟩
    cases h with
    | object ho => exact ho.className
    | _ => exact ⟨_, rfl⟩

end Tame

/-! ## What is recorded -/

/-- Texts as an interpreter with its limits has them. -/
def plainText : TextLib where
  interpreter := asciiInterpreter
  floats := wholeFloats
  encodeDepth := 990
  reprDepth := 990

end ClawEngine.Observability
