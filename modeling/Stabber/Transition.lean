import Mathlib.Tactic.Common
import Mathlib.Data.List.Induction

/-!
# Runs of a partial transition function

A system takes an action or refuses it. A run is a list of actions that are all
taken; a condition may be put on the state and the action of every step.
-/

namespace Stabber.Transition

variable {σ α : Type} (step : σ → α → Option σ)

/-- The state after the actions, if all of them are taken. -/
def run (s : σ) : List α → Option σ
  | [] => some s
  | a :: as => (step s a).bind fun t => run t as

/-- The actions lead from the state to another one, and every step meets the
condition. -/
inductive Runs (ok : σ → α → Prop) (s : σ) : List α → σ → Prop
  | nil : Runs ok s [] s
  | snoc {as : List α} {t u : σ} (a : α) :
      Runs ok s as t → ok t a → step t a = some u → Runs ok s (as ++ [a]) u

variable {step}

theorem run_append (s : σ) (as bs : List α) :
    run step s (as ++ bs) = (run step s as).bind fun t => run step t bs := by
  induction as generalizing s with
  | nil => rfl
  | cons a as ih =>
      rw [List.cons_append, run, run]
      cases step s a with
      | none => rfl
      | some t => exact ih t

/-- What holds of no action and is kept when one more is taken holds of every run. -/
theorem run_induction {s : σ} {P : List α → σ → Prop} (hnil : P [] s)
    (hsnoc : ∀ as a t u, P as t → step t a = some u → P (as ++ [a]) u) {as : List α} {t : σ}
    (h : run step s as = some t) : P as t := by
  induction as using List.reverseRecOn generalizing t with
  | nil =>
      cases h
      exact hnil
  | append_singleton as a ih =>
      rw [run_append] at h
      obtain ⟨u, hu, hlast⟩ := Option.bind_eq_some_iff.mp h
      rw [run] at hlast
      obtain ⟨v, hv, hend⟩ := Option.bind_eq_some_iff.mp hlast
      cases hend
      exact hsnoc as a u t (ih hu) hv

namespace Runs
variable {ok : σ → α → Prop} {s t : σ} {as : List α}

theorem to_run (h : Runs step ok s as t) : run step s as = some t := by
  induction h with
  | nil => rfl
  | snoc a _ _ hstep ih =>
      rw [run_append, ih, Option.bind_some, run, hstep]
      rfl

/-- What holds at the start and is kept by every step that meets the condition
holds at the end. -/
theorem invariant {I : σ → Prop} (h : Runs step ok s as t) (hs : I s)
    (hstep : ∀ u a v, I u → ok u a → step u a = some v → I v) : I t := by
  induction h with
  | nil => exact hs
  | snoc a _ hok hu ih => exact hstep _ a _ ih hok hu

/-- What the condition says of each action. -/
theorem each {P : α → Prop} (h : Runs step ok s as t) (hok : ∀ u a, ok u a → P a) :
    ∀ a ∈ as, P a := by
  induction h with
  | nil => simp
  | snoc a _ hlast _ ih =>
      rw [List.forall_mem_append, List.forall_mem_singleton]
      exact ⟨ih, hok _ a hlast⟩

end Runs

/-- A list of actions that are all taken is a run, if each action meets the condition
in every state. -/
theorem runs_of_run {ok : σ → α → Prop} {s t : σ} {as : List α} (h : run step s as = some t)
    (hok : ∀ a ∈ as, ∀ u, ok u a) : Runs step ok s as t := by
  have hruns := run_induction (P := fun as t => (∀ a ∈ as, ∀ u, ok u a) → Runs step ok s as t)
    (fun _ => .nil) (by
      intro as a t u ih hstep hall
      have hinit := ih fun b hb => hall b (List.mem_append_left _ hb)
      exact .snoc a hinit (hall a (List.mem_append_right _ List.mem_cons_self) t) hstep) h
  exact hruns hok

/-- So is one for which a test of every step succeeds. -/
theorem runs_of_checked {ok : σ → α → Prop} {check : σ → α → Bool} {s t : σ} {as : List α}
    (hok : ∀ u a, check u a = true → ok u a)
    (h : run (fun u a => if check u a then step u a else none) s as = some t) :
    Runs step ok s as t := by
  apply run_induction (P := fun as t => Runs step ok s as t) .nil ?_ h
  intro as a t u ih hstep
  split_ifs at hstep with hcheck
  exact .snoc a ih (hok t a hcheck) hstep

end Stabber.Transition
