import Mathlib.Tactic.Common

/-!
# Choosing an entry by its key or by a pattern

In a map whose keys are also patterns, the entry under the very key wins, and without
one any entry whose key fits may be taken. Where two keys are tried one after the other,
the second counts only if nothing is found for the first.
-/

namespace Stabber.PatternChoice

variable {κ β : Type} (look : κ → Option β) (fits : κ → κ → Prop)

/-- What may be chosen for a key. -/
inductive Chosen (k : κ) : Option β → Prop
  | exact {v : β} : look k = some v → Chosen k (some v)
  | fitting {v : β} (key : κ) : look k = none → fits key k → look key = some v →
      Chosen k (some v)
  | nothing : look k = none → (∀ key, fits key k → look key = none) → Chosen k none

/-- All the entries that fit have one value, unless there is an entry under the key. -/
def Determined (k : κ) : Prop :=
  look k = none → ∀ key key' v v', fits key k → fits key' k → look key = some v →
    look key' = some v' → v = v'

/-- What may be chosen for the first key or, failing that, for the second. -/
inductive ChosenOf (k k' : κ) : Option β → Prop
  | first {v : β} : Chosen look fits k (some v) → ChosenOf k k' (some v)
  | second {a : Option β} : Chosen look fits k none → Chosen look fits k' a → ChosenOf k k' a

variable {look fits} {k k' : κ}

theorem Chosen.look_none (h : Chosen look fits k none) : look k = none := by
  cases h with
  | nothing hnone _ => exact hnone

theorem Chosen.not_fitting (h : Chosen look fits k none) {key : κ} (hfits : fits key k) :
    look key = none := by
  cases h with
  | nothing _ hall => exact hall key hfits

theorem Chosen.of_look {v : β} (hv : look k = some v) {a : Option β} (h : Chosen look fits k a) :
    a = some v := by
  cases h with
  | exact hk => exact hk.symm.trans hv
  | fitting key hnone _ _ =>
      rw [hv] at hnone
      cases hnone
  | nothing hnone _ =>
      rw [hv] at hnone
      cases hnone

theorem Chosen.eq_none (h : Chosen look fits k none) {a : Option β} (ha : Chosen look fits k a) :
    a = none := by
  cases ha with
  | exact hk => rw [← hk, h.look_none]
  | fitting key _ hfits hkey => rw [← hkey, h.not_fitting hfits]
  | nothing _ _ => rfl

/-- The choice is the same in every case exactly if the entries that fit agree. -/
theorem chosen_unique_iff :
    (∀ a b, Chosen look fits k a → Chosen look fits k b → a = b) ↔ Determined look fits k := by
  constructor
  · intro h hnone key key' v v' hfits hfits' hv hv'
    have heq := h _ _ (.fitting key hnone hfits hv) (.fitting key' hnone hfits' hv')
    exact Option.some.inj heq
  · intro h a b ha hb
    cases ha with
    | exact hk => exact (hb.of_look hk).symm
    | fitting key hnone hfits hv =>
        cases hb with
        | exact hk =>
            rw [hnone] at hk
            cases hk
        | fitting key' _ hfits' hv' => rw [h hnone key key' _ _ hfits hfits' hv hv']
        | nothing _ hall =>
            rw [hall key hfits] at hv
            cases hv
    | nothing hnone hall => exact ((Chosen.nothing hnone hall).eq_none hb).symm

theorem chosenOf_unique_iff :
    (∀ a b, ChosenOf look fits k k' a → ChosenOf look fits k k' b → a = b) ↔
      Determined look fits k ∧ (Chosen look fits k none → Determined look fits k') := by
  constructor
  · intro h
    constructor
    · intro hnone key key' v v' hfits hfits' hv hv'
      have heq := h _ _ (.first (.fitting key hnone hfits hv))
        (.first (.fitting key' hnone hfits' hv'))
      exact Option.some.inj heq
    · intro hnothing
      rw [← chosen_unique_iff]
      intro a b ha hb
      exact h a b (.second hnothing ha) (.second hnothing hb)
  · intro h a b ha hb
    have hfirst := chosen_unique_iff.mpr h.1
    cases ha with
    | first hv =>
        cases hb with
        | first hw => exact hfirst _ _ hv hw
        | second hnothing _ => cases hnothing.eq_none hv
    | second hnothing ha' =>
        cases hb with
        | first hw => cases hnothing.eq_none hw
        | second _ hb' => exact chosen_unique_iff.mpr (h.2 hnothing) a b ha' hb'

/-! ## Exact keys before fitting ones -/

/-- An entry under one of the keys is preferred to all that merely fit, and the first
key to the second. -/
structure ExactFirst (look : κ → Option β) (k k' : κ) (a : Option β) : Prop where
  first : ∀ v, look k = some v → a = some v
  second : look k = none → ∀ v, look k' = some v → a = some v

/-- The second key loses to the entries that fit the first. -/
theorem exactFirst_iff :
    (∀ a, ChosenOf look fits k k' a → ExactFirst look k k' a) ↔
      (look k = none → ∀ v', look k' = some v' →
        ∀ key v, fits key k → look key = some v → v = v') := by
  constructor
  · intro h hnone v' hv' key v hfits hv
    have hsecond := (h _ (.first (.fitting key hnone hfits hv))).second hnone v' hv'
    exact Option.some.inj hsecond
  · intro h a ha
    constructor
    · intro v hv
      cases ha with
      | first hchosen => exact hchosen.of_look hv
      | second hnothing _ =>
          rw [hnothing.look_none] at hv
          cases hv
    · intro hnone v' hv'
      cases ha with
      | first hchosen =>
          cases hchosen with
          | exact hk =>
              rw [hnone] at hk
              cases hk
          | fitting key _ hfits hv => rw [h hnone v' hv' key _ hfits hv]
      | second _ hchosen => exact hchosen.of_look hv'

end Stabber.PatternChoice
