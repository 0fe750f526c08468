import Mathlib.Tactic.Common
import Mathlib.Data.List.Induction

/-!
# Runs of a machine

A machine is a partial step function: `step a s` is the state that the action `a` leaves, where `a`
can happen in `s`. A run is a list of actions that happened one after the other. What holds at the
start and is kept by every step holds at the end of every run (`Run.invariant`); and where a step
keeps a property exactly if it meets a condition, a run keeps it throughout exactly if all its
steps meet the condition (`Run.throughout_iff`).
-/

set_option autoImplicit false

namespace ClawEngine.Core

variable {A S : Type} {step : A → S → Option S} {s s' s'' : S} {a : A} {as bs : List A}

/-- The actions happen in `s`, one after the other, and leave `s'`. -/
inductive Run (step : A → S → Option S) (s : S) : List A → S → Prop
  | nil : Run step s [] s
  | snoc {as : List A} {a : A} {s' s'' : S} (earlier : Run step s as s')
    (last : step a s' = some s'') : Run step s (as ++ [a]) s''

namespace Run

theorem of_nil (h : Run step s [] s') : s' = s := by
  generalize has : ([] : List A) = as at h
  cases h with
  | nil => rfl
  | snoc earlier last => simp at has

theorem of_snoc (h : Run step s (as ++ [a]) s'') :
    ∃ s', Run step s as s' ∧ step a s' = some s'' := by
  generalize has : as ++ [a] = bs at h
  cases h with
  | nil => simp at has
  | snoc earlier last =>
    obtain ⟨rfl, rfl⟩ := List.append_inj' has rfl |>.imp_right List.singleton_inj.mp
    exact ⟨_, earlier, last⟩

/-- Actions leave one state. -/
theorem unique (h : Run step s as s') (h' : Run step s as s'') : s'' = s' := by
  induction h generalizing s'' with
  | nil => exact h'.of_nil
  | snoc earlier last ih =>
    obtain ⟨t, ht, hlast⟩ := h'.of_snoc
    rw [ih ht] at hlast
    exact Option.some.inj (hlast.symm.trans last)

/-- The beginning of a run is a run. -/
theorem of_append (h : Run step s (as ++ bs) s'') : ∃ s', Run step s as s' := by
  induction bs using List.reverseRecOn generalizing s'' with
  | nil => exact ⟨s'', by simpa using h⟩
  | append_singleton bs b ih =>
    rw [← List.append_assoc] at h
    obtain ⟨t, ht, _⟩ := h.of_snoc
    exact ih ht

theorem append (h : Run step s as s') (h' : Run step s' bs s'') : Run step s (as ++ bs) s'' := by
  induction h' with
  | nil => simpa using h
  | snoc earlier last ih =>
    rw [← List.append_assoc]
    exact ih.snoc last

theorem cons (h : step a s = some s') (h' : Run step s' as s'') : Run step s (a :: as) s'' :=
  append (nil.snoc h) h'

/-- **What every step keeps, every run keeps.** -/
theorem invariant {P : S → Prop} (hstep : ∀ {a s s'}, step a s = some s' → P s → P s')
    (h : Run step s as s') (hs : P s) : P s' := by
  induction h with
  | nil => exact hs
  | snoc earlier last ih => exact hstep last ih

/-- **A run keeps a property throughout exactly if each of its steps does**, where a step from a
state that has it keeps it exactly if it meets a condition. -/
theorem throughout_iff {Good : S → Prop} {Meets : S → A → Prop}
    (hstep : ∀ {a s s'}, step a s = some s' → Good s → (Good s' ↔ Meets s a))
    (h : Run step s as s') (hs : Good s) :
    (∀ pre t, pre <+: as → Run step s pre t → Good t) ↔
      ∀ pre a t, pre ++ [a] <+: as → Run step s pre t → Meets t a := by
  constructor
  · intro hgood pre a t hpre ht
    obtain ⟨rest, rfl⟩ := hpre
    obtain ⟨t', ht'⟩ := h.of_append
    obtain ⟨t₀, ht₀, hlast⟩ := ht'.of_snoc
    obtain rfl := ht.unique ht₀
    have hprefix : pre <+: pre ++ [a] ++ rest := ⟨[a] ++ rest, by simp⟩
    exact (hstep hlast (hgood pre _ hprefix ht)).mp (hgood _ t' ⟨rest, rfl⟩ ht')
  · intro hmeets pre t hpre ht
    induction ht with
    | nil => exact hs
    | snoc earlier last ih =>
      have hgood := ih ((List.prefix_append _ _).trans hpre)
      exact (hstep last hgood).mpr (hmeets _ _ _ hpre earlier)

/-- **A property holds throughout a run exactly if a stronger one does**, where a step from a state
with the stronger one has it again as soon as the weaker one holds. -/
theorem throughout_congr {P Good : S → Prop} (hgood : ∀ s, Good s → P s)
    (hstep : ∀ {a s s'}, step a s = some s' → Good s → P s' → Good s') (hs : Good s) :
    (∀ pre t, pre <+: as → Run step s pre t → P t) ↔
      ∀ pre t, pre <+: as → Run step s pre t → Good t := by
  constructor
  · intro hP pre t hpre ht
    induction ht with
    | nil => exact hs
    | snoc earlier last ih =>
      have hbefore := ih ((List.prefix_append _ _).trans hpre)
      exact hstep last hbefore (hP _ _ hpre (earlier.snoc last))
  · intro h pre t hpre ht
    exact hgood t (h pre t hpre ht)

end Run

end ClawEngine.Core
