import Stabber.Retention
import Stabber.Verification

/-!
# The last stanza of the store and the last to arrive

`stanzas_verify_last` reads the end of the list from which `/verify` requests take
their matches, and which the server empties when the client ends its stream. The end of
the list is the last arrival until a request takes it or the server shuts down.
-/

namespace Stabber.LastReceived
open XmlDocument Stanza Stanzas StanzaHistory StreamParser Transition Server State
open Retention (oneStanza)
open Verification

/-- Every check answers for the stanza that has arrived last. -/
def AnswersForLatest (s : State) : Prop :=
  ∀ template, stanzasVerifyLast id template s.received_stanzas = true ↔
    LastMatches id template s.arrived

/-- No `/verify` request finds its first match in the last stanza of the store. -/
def SparesLast (s : State) (a : Action) : Prop :=
  ∀ template before last, a = .verifyAny template true →
    s.received_stanzas = before ++ [last] → stanzasEqual last template = 0 →
      ∃ r ∈ before, stanzasEqual r template = 0

/-- The thread goes on from the head of its loop to `_shutdown`. -/
def ShutsDown (s : State) (a : Action) : Prop :=
  a = .thread ∧ s.writing = none ∧ s.pc = .top ∧ s.kill_recv = true

/-- The last stanza is not taken, and the server does not shut down after an arrival. -/
structure KeepsLast (s : State) (a : Action) : Prop where
  spares : SparesLast s a
  stays : ShutsDown s a → s.arrived = []

/-- The store ends with the last arrival. -/
def SameEnd (s : State) : Prop := s.received_stanzas.getLast? = s.arrived.getLast?

theorem SameEnd.answers {s : State} (h : SameEnd s) : AnswersForLatest s := by
  intro template
  rw [stanzasVerifyLast_iff]
  unfold LastMatches
  rw [h]

/-- A request that spares the last stanza leaves it last. -/
theorem getLast?_storeAfter {store : List XMPPStanza} {template : XMPPStanza} {clear : Bool}
    (h : ∀ before last, clear = true → store = before ++ [last] →
      stanzasEqual last template = 0 → ∃ r ∈ before, stanzasEqual r template = 0) :
    (storeAfter store (.verifyAny template clear)).getLast? = store.getLast? := by
  rcases stanzasVerifyAny_cases id template clear store with
    ⟨_, hres⟩ | ⟨before, r, after, hstore, hbefore, hmatch, hres⟩
  · rw [storeAfter, hres]
  · rw [storeAfter, hres]
    cases clear with
    | false => rfl
    | true =>
        -- what is found is not last, so that something stays behind it
        have hafter : after ≠ [] := by
          intro hnil
          rw [hnil] at hstore
          obtain ⟨x, hx, hxm⟩ := h before r rfl hstore hmatch
          exact hbefore x hx hxm
        rw [if_pos rfl, hstore, List.getLast?_append_of_ne_nil _ hafter,
          List.getLast?_append_of_ne_nil _ (List.cons_ne_nil r after),
          List.getLast?_cons_of_ne_nil hafter]

theorem SameEnd.record {s : State} (h : SameEnd s) (c : Call XMPPStanza) :
    SameEnd (s.record c) := by
  cases c with
  | add stanza =>
      have hstore : (storeAfter s.received_stanzas (.add stanza)).getLast? = some stanza :=
        List.getLast?_concat
      have harrived : (s.arrived ++ [stanza]).getLast? = some stanza := List.getLast?_concat
      exact hstore.trans harrived.symm
  | streamStart => exact h
  | auth stanza => exact h
  | id name i => exact h
  | query query i => exact h
  | xmlns xmlns i => exact h

theorem sameEnd_step {S : Setting} {s t : State} {a : Action} (h : SameEnd s)
    (hok : KeepsLast s a) (hstep : Step S s a t) : SameEnd t := by
  cases hstep with
  | verifyAny template clear =>
      refine Eq.trans ?_ h
      apply getLast?_storeAfter
      intro before last hclear hstore hmatch
      rw [hclear] at hok
      exact hok.spares template before last rfl hstore hmatch
  | shutdown hw hpc hkill =>
      have harrived := hok.stays ⟨rfl, hw, hpc, hkill⟩
      unfold SameEnd shutdown
      dsimp only
      rw [harrived]
  | @call _ _ _ c => exact h.record c
  | _ => exact h

theorem sameEnd_of_runs {S : Setting} {s t : State} {as : List Action} (hs : Started s)
    (hstore : s.received_stanzas = []) (h : Runs (step S) KeepsLast s as t) : SameEnd t := by
  apply h.invariant
  · unfold SameEnd
    rw [hstore, hs.arrived]
  · intro u a v hu hok hstep
    exact sameEnd_step hu hok (step_cases hstep)

theorem storeAfter_last {template last : XMPPStanza} {before : List XMPPStanza}
    (hnone : ∀ r ∈ before, stanzasEqual r template ≠ 0) (hmatch : stanzasEqual last template = 0) :
    storeAfter (before ++ [last]) (.verifyAny template true) = before := by
  unfold storeAfter
  induction before with
  | nil => simp [stanzasVerifyAny, hmatch]
  | cons r before ih =>
      have hr := hnone r List.mem_cons_self
      have hrest := ih fun x hx => hnone x (List.mem_cons_of_mem r hx)
      simp [stanzasVerifyAny, hr, hrest]

/-- A request that takes the last stanza leaves a store that gives the request's own
template another answer than the history does. -/
theorem not_answersForLatest_of_taken {S : Setting} {s t : State} {a : Action} (h : SameEnd s)
    (htaken : ¬ SparesLast s a) (hstep : step S s a = some t) : ¬ AnswersForLatest t := by
  unfold SparesLast at htaken
  push Not at htaken
  obtain ⟨template, before, last, rfl, hstore, hmatch, hnone⟩ := htaken
  have ht : t = { s with received_stanzas := before } := by
    have hcrash := running_of_step hstep
    rw [step, if_neg hcrash] at hstep
    rw [hstore, storeAfter_last hnone hmatch] at hstep
    exact (Option.some.inj hstep).symm
  intro hanswers
  have hlatest : LastMatches id template t.arrived := by
    rw [ht]
    refine ⟨last, ?_, hmatch⟩
    rw [← h, hstore]
    exact List.getLast?_concat
  have hlast := (hanswers template).mpr hlatest
  rw [stanzasVerifyLast_iff, ht] at hlast
  obtain ⟨r, hr, hmatch'⟩ := hlast
  exact hnone r (List.mem_of_getLast? hr) hmatch'

def anything : XMPPStanza := ⟨"*".toList, [], [], none⟩

theorem stanzasEqual_anything (r : XMPPStanza) : stanzasEqual r anything = 0 :=
  (stanzasEqual_eq_zero r anything).mpr ⟨⟨Or.inl rfl, Or.inl rfl, nofun⟩, nofun⟩

/-- The shutdown empties the store, and even the template that matches anything fails. -/
theorem not_answersForLatest_of_shutdown {S : Setting} {s t : State} {a : Action}
    (hdown : ShutsDown s a) (harrived : s.arrived ≠ []) (hstep : step S s a = some t) :
    ¬ AnswersForLatest t := by
  obtain ⟨rfl, hw, hpc, hkill⟩ := hdown
  have ht : t = s.shutdown := by
    have hcrash := running_of_step hstep
    rw [step, if_neg hcrash] at hstep
    simpa [thread, hw, hpc, hkill] using hstep.symm
  intro hanswers
  have hlatest : LastMatches id anything t.arrived := by
    rw [ht]
    exact ⟨_, List.getLast?_eq_some_getLast harrived, stanzasEqual_anything _⟩
  have hlast := (hanswers anything).mpr hlatest
  rw [ht] at hlast
  cases hlast

/-- Between start and stop every check answers for the last arrival, while no `/verify`
request takes it and the server does not shut down; and right after a step that does one of
the two, some check does not. -/
theorem answersForLatest_of_runs {S : Setting} {s t : State} {as : List Action}
    (hs : Started s) (hstore : s.received_stanzas = []) (h : Runs (step S) KeepsLast s as t) :
    AnswersForLatest t ∧
      ∀ a u, step S t a = some u → ¬ KeepsLast t a → ¬ AnswersForLatest u := by
  have hend := sameEnd_of_runs hs hstore h
  refine ⟨hend.answers, fun a u hstep hbroken => ?_⟩
  by_cases hspares : SparesLast t a
  · have hdown : ¬ (ShutsDown t a → t.arrived = []) := fun hstays => hbroken ⟨hspares, hstays⟩
    obtain ⟨hdown, harrived⟩ := Classical.not_imp.mp hdown
    exact not_answersForLatest_of_shutdown hdown harrived hstep
  · exact not_answersForLatest_of_taken hend hspares hstep

/-! ## A client that sends two stanzas -/

def message : XMPPStanza := ⟨"message".toList, [], [], none⟩

/-- A presence arrives, then a message, and a `/verify` request has this template. -/
def twoStanzas (template : XMPPStanza) : List Action :=
  connect "<stream:stream><presence/><message/>".toList ++ oneStanza ++
    [.thread, .thread, .thread] ++ [.verifyAny template true]

/-- A test of `KeepsLast`. -/
def keepsLast (s : State) : Action → Bool
  | .verifyAny template true =>
      s.received_stanzas.dropLast.any (fun r => stanzasEqual r template = 0) ||
        !(s.received_stanzas.getLast?.any fun r => stanzasEqual r template = 0)
  | .thread => !s.kill_recv
  | _ => true

theorem keepsLast_of_test {s : State} {a : Action} (h : keepsLast s a = true) :
    KeepsLast s a := by
  constructor
  · intro template before last ha hstore hmatch
    rw [ha, keepsLast, hstore, List.dropLast_concat, List.getLast?_concat] at h
    simpa [hmatch] using h
  · rintro ⟨rfl, -, -, hkill⟩
    rw [keepsLast, hkill] at h
    cases h

/-- The request takes the presence, and the checks answer for the message. -/
theorem older_stanza_taken : ∃ t, run (step .plain) .idle (twoStanzas presence) = some t ∧
    t.arrived.length = 2 ∧ t.received_stanzas.length = 1 ∧ AnswersForLatest t := by
  have hrun : (run (fun u a => if keepsLast u a then step .plain u a else none) .idle
      (twoStanzas presence)).any (fun t => t.arrived.length = 2 ∧
        t.received_stanzas.length = 1) = true := by decide +kernel
  obtain ⟨t, ht, htest⟩ := (Option.any_eq_true _ _).mp hrun
  have htest := of_decide_eq_true htest
  have hruns := runs_of_checked (fun _ _ h => keepsLast_of_test h) ht
  exact ⟨t, hruns.to_run, htest.1, htest.2,
    (answersForLatest_of_runs started_idle rfl hruns).1⟩

/-- The request takes the message, and a check for a presence succeeds although the
message has arrived last. -/
theorem latest_stanza_taken : ∃ t, run (step .plain) .idle (twoStanzas message) = some t ∧
    t.stopped = false ∧ stanzasVerifyLast id presence t.received_stanzas = true ∧
    ¬ LastMatches id presence t.arrived ∧ ¬ AnswersForLatest t := by
  have hrun : (run (step .plain) .idle (twoStanzas message)).any (fun t =>
      t.stopped = false ∧ stanzasVerifyLast id presence t.received_stanzas = true ∧
        stanzasVerifyLast id presence t.arrived = false) = true := by decide +kernel
  obtain ⟨t, ht, htest⟩ := (Option.any_eq_true _ _).mp hrun
  obtain ⟨hstopped, hcheck, hlatest⟩ := of_decide_eq_true htest
  have hnot : ¬ LastMatches id presence t.arrived := by
    intro hmatch
    rw [← stanzasVerifyLast_iff, hlatest] at hmatch
    cases hmatch
  exact ⟨t, ht, hstopped, hcheck, hnot, fun h => hnot ((h presence).mp hcheck)⟩

end Stabber.LastReceived
