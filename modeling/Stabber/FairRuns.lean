import Mathlib.Order.WellFounded
import Stabber.Transition

/-!
# Runs that never end

An infinite run of a partial transition function takes an action at every time. Actions
that bring a rank down are taken only finitely often, unless a goal is reached.
-/

namespace Stabber.FairRuns

variable {σ α β : Type} {step : σ → α → Option σ}

/-- The states and the actions of a run without end. -/
structure Forever (step : σ → α → Option σ) (states : ℕ → σ) (actions : ℕ → α) : Prop where
  next : ∀ n, step (states n) (actions n) = some (states (n + 1))

/-- A step keeps the rank or brings it down, and some steps bring it down. -/
structure Lowers [Preorder β] (rank : σ → β) (mine : σ → α → Prop) (s : σ) (a : α) (t : σ) :
    Prop where
  le : rank t ≤ rank s
  lt : mine s a → rank t < rank s

/-- Every step leads to the goal, or keeps the invariant and lowers the rank. -/
def Ranked [Preorder β] (step : σ → α → Option σ) (rank : σ → β) (inv goal : σ → Prop)
    (mine : σ → α → Prop) : Prop :=
  ∀ s a t, inv s → step s a = some t → goal t ∨ inv t ∧ Lowers rank mine s a t

section Rank
variable [Preorder β] {rank : σ → β} {inv goal : σ → Prop} {mine : σ → α → Prop}
  {states : ℕ → σ} {actions : ℕ → α} (h : Forever step states actions)
  (hr : Ranked step rank inv goal mine) (hgoal : ∀ n, ¬ goal (states n))
include h hr hgoal

theorem Forever.lowers {n : ℕ} (hn : inv (states n)) :
    inv (states (n + 1)) ∧ Lowers rank mine (states n) (actions n) (states (n + 1)) :=
  (hr _ _ _ hn (h.next n)).resolve_left (hgoal (n + 1))

theorem Forever.after {n : ℕ} (hn : inv (states n)) {m : ℕ} (hm : n ≤ m) :
    inv (states m) ∧ rank (states m) ≤ rank (states n) := by
  induction m, hm using Nat.le_induction with
  | base => exact ⟨hn, le_refl _⟩
  | succ m hm ih =>
      obtain ⟨hinv, hlowers⟩ := h.lowers hr hgoal ih.1
      exact ⟨hinv, hlowers.le.trans ih.2⟩

/-- Short of the goal, from some time on no such action is taken. -/
theorem Forever.finitely_often [WellFoundedLT β] {n : ℕ} (hn : inv (states n)) :
    ∃ k, n ≤ k ∧ ∀ m, k ≤ m → ¬ mine (states m) (actions m) := by
  -- by induction on the rank: after an action of the kind it is lower for good
  generalize hrank : rank (states n) = r
  induction r using WellFoundedLT.induction generalizing n with
  | ind r ih =>
      by_cases hmine : ∃ m, n ≤ m ∧ mine (states m) (actions m)
      · obtain ⟨m, hm, hmine⟩ := hmine
        obtain ⟨hinv, hle⟩ := h.after hr hgoal hn hm
        obtain ⟨hnext, hlowers⟩ := h.lowers hr hgoal hinv
        have hbelow : rank (states (m + 1)) < r := by
          rw [← hrank]
          exact (hlowers.lt hmine).trans_le hle
        obtain ⟨k, hk, hnone⟩ := ih _ hbelow hnext rfl
        exact ⟨k, by omega, hnone⟩
      · refine ⟨n, le_refl n, ?_⟩
        intro m hm hm'
        exact hmine ⟨m, hm, hm'⟩

end Rank

/-- A run that goes on for ever, from actions that are never refused. -/
theorem forever_of_isSome {states : ℕ → σ} {actions : ℕ → α}
    (hnext : ∀ n, states (n + 1) = (step (states n) (actions n)).getD (states n))
    (hsome : ∀ n, (step (states n) (actions n)).isSome = true) : Forever step states actions := by
  constructor
  intro n
  obtain ⟨t, ht⟩ := Option.isSome_iff_exists.mp (hsome n)
  rw [hnext n, ht]
  rfl

end Stabber.FairRuns
