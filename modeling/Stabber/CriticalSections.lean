import Stabber.Transition
import Mathlib.Logic.Function.Basic

/-!
# Sections under one lock

Any number of threads call procedures whose bodies run step by step on a shared state, each
under the same lock. What the threads do together is what the procedures do one after the
other as a whole, in the order in which they give the lock back: a body sees no step of
another one, however the steps are interleaved.
-/

namespace Stabber.CriticalSections
open Transition
variable {ι σ ω τ ρ : Type}

/-- Procedures with operations `ω`, local states `τ` and results `ρ`. -/
structure Procedures (σ ω τ ρ : Type) where
  /-- What is looked at before the lock is asked for. Where it fails the call returns. -/
  guard : ω → σ → Bool
  /-- The local state with which the body begins. -/
  enter : ω → τ
  /-- A step of the body, which goes on or ends with a result. -/
  work : τ → σ → (τ ⊕ ρ) × σ

/-- What a procedure does as a whole. -/
structure Whole (σ ω ρ : Type) where
  result : ω → σ → ρ
  after : ω → σ → σ

section Bodies
variable (P : Procedures σ ω τ ρ)

/-- The rest of a body. -/
inductive Finishes : τ → σ → ρ → σ → Prop where
  | done {l : τ} {s t : σ} {r : ρ} (hwork : P.work l s = (.inr r, t)) : Finishes l s r t
  | next {l l' : τ} {s s' t : σ} {r : ρ} (hwork : P.work l s = (.inl l', s'))
      (h : Finishes l' s' r t) : Finishes l s r t

/-- Some steps of a body. -/
inductive Works : τ → σ → τ → σ → Prop where
  | refl (l : τ) (s : σ) : Works l s l s
  | step {l l' l'' : τ} {s s' t : σ} (hwork : P.work l s = (.inl l', s'))
      (h : Works l' s' l'' t) : Works l s l'' t

/-- Every body ends, as the whole says. -/
def Meets (W : Whole σ ω ρ) : Prop :=
  ∀ op s, Finishes P (P.enter op) s (W.result op s) (W.after op s)

variable {P} {l l' l'' : τ} {s s' t t' : σ} {r r' : ρ}

theorem Works.snoc (h : Works P l s l' s') (hwork : P.work l' s' = (.inl l'', t)) :
    Works P l s l'' t := by
  induction h with
  | refl => exact .step hwork (.refl _ _)
  | step hfirst _ ih => exact .step hfirst (ih hwork)

theorem Works.finish (h : Works P l s l' s') (hrest : Finishes P l' s' r t) :
    Finishes P l s r t := by
  induction h with
  | refl => exact hrest
  | step hfirst _ ih => exact .next hfirst (ih hrest)

/-- A body goes on as it has begun. -/
theorem Works.rest (h : Works P l s l' s') (hall : Finishes P l s r t) : Finishes P l' s' r t := by
  induction h with
  | refl => exact hall
  | step hfirst _ ih =>
      cases hall with
      | done hwork =>
          rw [hfirst] at hwork
          cases hwork
      | next hwork hrest =>
          rw [hfirst] at hwork
          cases hwork
          exact ih hrest

theorem Finishes.unique (h : Finishes P l s r t) (h' : Finishes P l s r' t') :
    r = r' ∧ t = t' := by
  induction h with
  | done hwork =>
      cases h' with
      | done hwork' =>
          rw [hwork] at hwork'
          cases hwork'
          exact ⟨rfl, rfl⟩
      | next hwork' =>
          rw [hwork] at hwork'
          cases hwork'
  | next hwork _ ih =>
      cases h' with
      | done hwork' =>
          rw [hwork] at hwork'
          cases hwork'
      | next hwork' hrest =>
          rw [hwork] at hwork'
          cases hwork'
          exact ih hrest

end Bodies

/-! ## Threads -/

/-- Where a thread is. -/
inductive Phase (ω τ ρ : Type) where
  | outside
  /-- In the call that takes the lock. -/
  | waiting (op : ω)
  | inside (op : ω) (l : τ)
  /-- At the call that gives the lock back. -/
  | leaving (op : ω) (r : ρ)

def Phase.owns : Phase ω τ ρ → Bool
  | .inside _ _ => true
  | .leaving _ _ => true
  | _ => false

structure System (ι σ ω τ ρ : Type) where
  shared : σ
  lock : Option ι
  phases : ι → Phase ω τ ρ
  /-- History: the sections that have ended, with their results. -/
  history : List (ι × ω × ρ)

inductive Act (ι ω : Type) where
  | call (i : ι) (op : ω)
  | acquire (i : ι)
  | work (i : ι)
  | release (i : ι)

namespace System
variable [DecidableEq ι] (P : Procedures σ ω τ ρ) (w : System ι σ ω τ ρ)

def setPhase (i : ι) (phase : Phase ω τ ρ) : System ι σ ω τ ρ :=
  { w with phases := Function.update w.phases i phase }

def step : Act ι ω → Option (System ι σ ω τ ρ)
  | .call i op =>
      match w.phases i with
      | .outside => if P.guard op w.shared then some (w.setPhase i (.waiting op)) else some w
      | _ => none
  | .acquire i =>
      match w.phases i, w.lock with
      | .waiting op, none => some { w.setPhase i (.inside op (P.enter op)) with lock := some i }
      | _, _ => none
  | .work i =>
      match w.phases i with
      | .inside op l =>
          match P.work l w.shared with
          | (.inl l, s) => some { w.setPhase i (.inside op l) with shared := s }
          | (.inr r, s) => some { w.setPhase i (.leaving op r) with shared := s }
      | _ => none
  | .release i =>
      match w.phases i with
      | .leaving op r =>
          some { w.setPhase i .outside with lock := none, history := w.history ++ [(i, op, r)] }
      | _ => none

end System

/-- What a step does. -/
inductive Step [DecidableEq ι] (P : Procedures σ ω τ ρ) (w : System ι σ ω τ ρ) :
    Act ι ω → System ι σ ω τ ρ → Prop where
  | call {i : ι} {op : ω} (hphase : w.phases i = .outside) (hguard : P.guard op w.shared = true) :
      Step P w (.call i op) (w.setPhase i (.waiting op))
  | returned {i : ι} {op : ω} (hphase : w.phases i = .outside) : Step P w (.call i op) w
  | acquire {i : ι} {op : ω} (hphase : w.phases i = .waiting op) (hlock : w.lock = none) :
      Step P w (.acquire i) { w.setPhase i (.inside op (P.enter op)) with lock := some i }
  | work {i : ι} {op : ω} {l l' : τ} {s : σ} (hphase : w.phases i = .inside op l)
      (hwork : P.work l w.shared = (.inl l', s)) :
      Step P w (.work i) { w.setPhase i (.inside op l') with shared := s }
  | finish {i : ι} {op : ω} {l : τ} {r : ρ} {s : σ} (hphase : w.phases i = .inside op l)
      (hwork : P.work l w.shared = (.inr r, s)) :
      Step P w (.work i) { w.setPhase i (.leaving op r) with shared := s }
  | release {i : ι} {op : ω} {r : ρ} (hphase : w.phases i = .leaving op r) :
      Step P w (.release i)
        { w.setPhase i .outside with lock := none, history := w.history ++ [(i, op, r)] }

section Threads
variable [DecidableEq ι] {P : Procedures σ ω τ ρ} {W : Whole σ ω ρ} {w w' : System ι σ ω τ ρ}
  {a : Act ι ω}

theorem step_cases (h : w.step P a = some w') : Step P w a w' := by
  unfold System.step at h
  split at h
  next i op =>
    split at h
    next hphase =>
      split_ifs at h with hguard
      · cases h
        exact .call hphase hguard
      · cases h
        exact .returned hphase
    next => cases h
  next i =>
    split at h
    next op hphase hlock =>
      cases h
      exact .acquire hphase hlock
    next => cases h
  next i =>
    split at h
    next op l hphase =>
      split at h
      next l' s hwork =>
        cases h
        exact .work hphase hwork
      next r s hwork =>
        cases h
        exact .finish hphase hwork
    next => cases h
  next i =>
    split at h
    next op r hphase =>
      cases h
      exact .release hphase
    next => cases h

/-! ## One section after the other -/

/-- The sections, each as a whole. -/
inductive Serial (W : Whole σ ω ρ) (s : σ) : List (ι × ω × ρ) → σ → Prop where
  | nil : Serial W s [] s
  | snoc {sections : List (ι × ω × ρ)} {t : σ} (h : Serial W s sections t) (i : ι) (op : ω) :
      Serial W s (sections ++ [(i, op, W.result op t)]) (W.after op t)

/-- The section that the owner of the lock is in. -/
inductive Current (P : Procedures σ ω τ ρ) (s t : σ) : Phase ω τ ρ → Prop where
  | inside {op : ω} {l : τ} (h : Works P (P.enter op) s l t) : Current P s t (.inside op l)
  | leaving {op : ω} {r : ρ} (h : Finishes P (P.enter op) s r t) : Current P s t (.leaving op r)

omit [DecidableEq ι] in
theorem Current.owns {s t : σ} {phase : Phase ω τ ρ} (h : Current P s t phase) :
    phase.owns = true := by
  cases h with
  | inside | leaving => rfl

/-- Nobody is in a section but the owner of the lock, which has begun it on what the sections
that have ended have made of the shared state. -/
structure Atomic (P : Procedures σ ω τ ρ) (W : Whole σ ω ρ) (s : σ)
    (sections : List (ι × ω × ρ)) (t : σ) (w : System ι σ ω τ ρ) : Prop where
  serial : Serial W s sections t
  free : w.lock = none → w.shared = t ∧ ∀ i, (w.phases i).owns = false
  held : ∀ i, w.lock = some i →
    Current P t w.shared (w.phases i) ∧ ∀ j ≠ i, (w.phases j).owns = false

namespace Atomic
variable {s t : σ} {sections : List (ι × ω × ρ)} {i : ι} {phase : Phase ω τ ρ}

omit [DecidableEq ι] in
theorem owner (h : Atomic P W s sections t w) (howns : (w.phases i).owns = true) :
    w.lock = some i := by
  cases hlock : w.lock with
  | none =>
      rw [(h.free hlock).2 i] at howns
      cases howns
  | some j =>
      by_cases hij : i = j
      · rw [hij]
      · rw [(h.held j hlock).2 i hij] at howns
        cases howns

omit [DecidableEq ι] in
theorem current (h : Atomic P W s sections t w) (howns : (w.phases i).owns = true) :
    Current P t w.shared (w.phases i) :=
  (h.held i (h.owner howns)).1

/-- A thread without the lock goes on. -/
theorem aside (h : Atomic P W s sections t w) (hbefore : (w.phases i).owns = false)
    (hafter : phase.owns = false) : Atomic P W s sections t (w.setPhase i phase) := by
  have howns : ∀ j, (Function.update w.phases i phase j).owns = (w.phases j).owns := by
    intro j
    by_cases hj : j = i
    · rw [hj, Function.update_self, hbefore, hafter]
    · rw [Function.update_of_ne hj]
  constructor
  · exact h.serial
  · intro hlock
    refine ⟨(h.free hlock).1, ?_⟩
    intro j
    exact (howns j).trans ((h.free hlock).2 j)
  · intro k hlock
    obtain ⟨hcurrent, hothers⟩ := h.held k hlock
    have hk : k ≠ i := by
      rintro rfl
      rw [hcurrent.owns] at hbefore
      cases hbefore
    refine ⟨?_, fun j hj => (howns j).trans (hothers j hj)⟩
    change Current P t w.shared (Function.update w.phases i phase k)
    rw [Function.update_of_ne hk]
    exact hcurrent

theorem others (h : Atomic P W s sections t w) (howns : (w.phases i).owns = true) {j : ι}
    (hj : j ≠ i) (phase : Phase ω τ ρ) : (Function.update w.phases i phase j).owns = false := by
  rw [Function.update_of_ne hj]
  exact (h.held i (h.owner howns)).2 j hj

/-- The lock is taken. -/
theorem acquire (h : Atomic P W s sections t w) (hlock : w.lock = none) (op : ω) :
    Atomic P W s sections t { w.setPhase i (.inside op (P.enter op)) with lock := some i } := by
  obtain ⟨hshared, hnone⟩ := h.free hlock
  constructor
  · exact h.serial
  · intro hfree
    cases hfree
  · intro k hk
    cases hk
    constructor
    · change Current P t w.shared (Function.update w.phases i _ i)
      rw [Function.update_self, hshared]
      exact .inside (.refl _ _)
    · intro j hj
      change (Function.update w.phases i _ j).owns = false
      rw [Function.update_of_ne hj]
      exact hnone j

/-- The owner goes on. -/
theorem advance (h : Atomic P W s sections t w) (howns : (w.phases i).owns = true) {u : σ}
    (hcurrent : Current P t u phase) :
    Atomic P W s sections t { w.setPhase i phase with shared := u } := by
  have hlock := h.owner howns
  constructor
  · exact h.serial
  · intro hfree
    dsimp only [System.setPhase] at hfree
    rw [hlock] at hfree
    cases hfree
  · intro k hk
    dsimp only [System.setPhase] at hk
    rw [hlock] at hk
    cases hk
    constructor
    · change Current P t u (Function.update w.phases i phase i)
      rw [Function.update_self]
      exact hcurrent
    · exact fun j hj => h.others howns hj phase

/-- The lock is given back, and the section has been what it is as a whole. -/
theorem release (hmeets : Meets P W) (h : Atomic P W s sections t w) {op : ω} {r : ρ}
    (hphase : w.phases i = .leaving op r) (history : List (ι × ω × ρ)) :
    Atomic P W s (sections ++ [(i, op, r)]) w.shared
      { w.setPhase i .outside with lock := none, history := history } := by
  have howns : (w.phases i).owns = true := by
    rw [hphase]
    rfl
  have hcurrent := h.current howns
  rw [hphase] at hcurrent
  cases hcurrent with
  | leaving hfinish =>
      obtain ⟨hresult, hshared⟩ := hfinish.unique (hmeets op t)
      constructor
      · rw [hresult, hshared]
        exact h.serial.snoc i op
      · intro _
        refine ⟨rfl, ?_⟩
        intro j
        change (Function.update w.phases i _ j).owns = false
        by_cases hj : j = i
        · rw [hj, Function.update_self]
          rfl
        · exact h.others howns hj _
      · intro k hk
        cases hk

end Atomic

theorem atomic_step (hmeets : Meets P W) {s t : σ} {sections : List (ι × ω × ρ)}
    (h : Atomic P W s sections t w) (hstep : Step P w a w') : ∃ sections' t',
      w'.history = w.history ++ sections' ∧ Atomic P W s (sections ++ sections') t' w' := by
  have hsame : ∀ {v : System ι σ ω τ ρ}, v.history = w.history → Atomic P W s sections t v →
      ∃ sections' t', v.history = w.history ++ sections' ∧
        Atomic P W s (sections ++ sections') t' v := by
    intro v hhistory hv
    refine ⟨[], t, ?_, ?_⟩
    · rw [hhistory, List.append_nil]
    · rw [List.append_nil]
      exact hv
  have howns : ∀ {i : ι} {phase : Phase ω τ ρ} {b : Bool}, w.phases i = phase →
      phase.owns = b → (w.phases i).owns = b := by
    intro i phase b hphase hb
    rw [hphase, hb]
  cases hstep with
  | call hphase hguard => exact hsame rfl (h.aside (howns hphase rfl) rfl)
  | returned hphase => exact hsame rfl h
  | acquire hphase hlock => exact hsame rfl (h.acquire hlock _)
  | work hphase hwork =>
      have hcurrent := h.current (howns hphase rfl)
      rw [hphase] at hcurrent
      cases hcurrent with
      | inside hworks =>
          exact hsame rfl (h.advance (howns hphase rfl) (.inside (hworks.snoc hwork)))
  | finish hphase hwork =>
      have hcurrent := h.current (howns hphase rfl)
      rw [hphase] at hcurrent
      cases hcurrent with
      | inside hworks =>
          exact hsame rfl
            (h.advance (howns hphase rfl) (.leaving (hworks.finish (.done hwork))))
  | @release i op r hphase => exact ⟨[(i, op, r)], w.shared, rfl, h.release hmeets hphase _⟩

/-- Nobody has the lock. -/
structure Free (w : System ι σ ω τ ρ) : Prop where
  lock : w.lock = none
  outside : ∀ i, w.phases i = .outside

omit [DecidableEq ι] in
theorem atomic_free (hw : Free w) : Atomic P W w.shared [] w.shared w := by
  constructor
  · exact .nil
  · intro _
    refine ⟨rfl, ?_⟩
    intro i
    rw [hw.outside i]
    rfl
  · intro i hlock
    rw [hw.lock] at hlock
    cases hlock

/-- Whatever the interleaving, the sections are atomic. -/
theorem atomic_of_run (hmeets : Meets P W) (hw : Free w) {as : List (Act ι ω)}
    (h : run (System.step P) w as = some w') : ∃ sections t,
      w'.history = w.history ++ sections ∧ Atomic P W w.shared sections t w' := by
  apply run_induction (P := fun _ v => ∃ sections t,
    v.history = w.history ++ sections ∧ Atomic P W w.shared sections t v) ?_ ?_ h
  · exact ⟨[], w.shared, (List.append_nil _).symm, atomic_free hw⟩
  · intro _ a u v ih hstep
    obtain ⟨sections, t, hhistory, hatomic⟩ := ih
    obtain ⟨sections', t', hhistory', hatomic'⟩ := atomic_step hmeets hatomic (step_cases hstep)
    refine ⟨sections ++ sections', t', ?_, hatomic'⟩
    rw [hhistory', hhistory, List.append_assoc]

/-- The operation that a thread waits for or is in. -/
def Phase.op : Phase ω τ ρ → Option ω
  | .outside => none
  | .waiting op => some op
  | .inside op _ => some op
  | .leaving op _ => some op

/-- A thread that goes on by itself comes to the end of its body. -/
theorem run_of_finishes {i : ι} {op : ω} {l : τ} {s t : σ} {r : ρ} (h : Finishes P l s r t)
    {v : System ι σ ω τ ρ} (hphase : v.phases i = .inside op l) (hshared : v.shared = s) :
    ∃ n v', run (System.step P) v (List.replicate n (.work i)) = some v' ∧
      v'.phases i = .leaving op r := by
  induction h generalizing v with
  | @done l s t r hwork =>
      refine ⟨1, { v.setPhase i (.leaving op r) with shared := t }, ?_,
        Function.update_self i _ v.phases⟩
      rw [← hshared] at hwork
      rw [List.replicate_one, run, System.step, hphase]
      dsimp only
      rw [hwork]
      rfl
  | @next l l' s s' t r hwork _ ih =>
      rw [← hshared] at hwork
      obtain ⟨n, v', hv', hleaving⟩ := ih
        (v := { v.setPhase i (.inside op l') with shared := s' })
        (Function.update_self i _ v.phases) rfl
      refine ⟨n + 1, v', ?_, hleaving⟩
      rw [List.replicate_succ, run, System.step, hphase]
      dsimp only
      rw [hwork]
      exact hv'

theorem Atomic.released {s t : σ} {sections : List (ι × ω × ρ)} {i : ι} (hmeets : Meets P W)
    (h : Atomic P W s sections t w) (hlock : w.lock = some i) : ∃ n v,
      run (System.step P) w (List.replicate n (.work i) ++ [.release i]) = some v ∧
      v.lock = none := by
  have hrelease : ∀ {v : System ι σ ω τ ρ} {op : ω} {r : ρ}, v.phases i = .leaving op r →
      ∃ v', run (System.step P) v [.release i] = some v' ∧ v'.lock = none := by
    intro v op r hphase
    refine ⟨{ v.setPhase i .outside with
      lock := none, history := v.history ++ [(i, op, r)] }, ?_, rfl⟩
    rw [run, System.step, hphase]
    rfl
  have hcurrent := (h.held i hlock).1
  cases hphase : w.phases i with
  | outside | waiting =>
      rw [hphase] at hcurrent
      cases hcurrent
  | inside op l =>
      rw [hphase] at hcurrent
      cases hcurrent with
      | inside hworks =>
          obtain ⟨n, v, hv, hleaving⟩ := run_of_finishes (hworks.rest (hmeets op t)) hphase rfl
          obtain ⟨v', hv', hfree⟩ := hrelease hleaving
          refine ⟨n, v', ?_, hfree⟩
          rw [run_append, hv]
          exact hv'
  | leaving op r =>
      obtain ⟨v', hv', hfree⟩ := hrelease hphase
      exact ⟨0, v', hv', hfree⟩

end Threads

end Stabber.CriticalSections
