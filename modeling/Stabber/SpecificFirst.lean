import Stabber.FirstFit
import Stabber.HttpAnswers
import Stabber.StanzaTemplates

/-!
# Verifications that clear, one after the other

`stanzas_verify_any` takes the first stanza that matches, which may be the only one that a
later, more special template matches. From special to general, though, all verifications
succeed if there are different stanzas for them at all, whatever else arrives meanwhile.
-/

namespace Stabber.SpecificFirst
open XmlDocument Stanza Stanzas StanzaHistory StanzaTemplates Transition FirstFit
open Server (State Action Setting)

/-- What a template asks for. -/
def demand (template r : XMPPStanza) : Prop := stanzasEqual r template = 0

/-- The templates of the verifications that clear, in their order. -/
def clearings (as : List Action) : List XMPPStanza :=
  as.filterMap fun
    | .verifyAny template true => some template
    | _ => none

/-- Each verification that clears finds a stanza when its turn comes. -/
def AllFound (S : Setting) (s : State) (as : List Action) : Prop :=
  ∀ bs cs template u, as = bs ++ .verifyAny template true :: cs →
    run (Server.step S) s bs = some u →
      (stanzasVerifyAny id template true u.received_stanzas).1 = true

section Steps
variable {S : Setting} {s t u : State} {as : List Action} {a : Action}

theorem clearings_other (ha : ∀ template, a ≠ .verifyAny template true) (as : List Action) :
    clearings (a :: as) = clearings as := by
  refine List.filterMap_cons_none ?_
  split
  next template => exact (ha template rfl).elim
  next => rfl

/-- Once the server has been shut down it stays so. -/
theorem stopped_step (h : Server.step S s a = some t) (hrunning : t.stopped = false) :
    s.stopped = false := by
  cases Server.step_cases h with
  | crash a => cases hrunning
  | shutdown hw hpc hkill => cases hrunning
  | @call _ _ _ c _ _ _ hw hpc hclient hcall =>
      obtain ⟨_, _, _, hrecord⟩ := s.record_eq c
      rw [hrecord] at hrunning
      exact hrunning
  | quiet | send | verifyAny | stop | leave | connected | again | data | write | returned
  | lock | take | unlock | reply | event | next | streamEnd | kill => exact hrunning

theorem stopped_run (h : run (Server.step S) s as = some t) (hrunning : t.stopped = false) :
    s.stopped = false := by
  induction as generalizing s with
  | nil =>
      cases h
      exact hrunning
  | cons a as ih =>
      obtain ⟨u, hu, hrest⟩ := Option.bind_eq_some_iff.mp h
      exact stopped_step hu (ih hrest)

/-- A verification that clears. -/
theorem clear_step {template : XMPPStanza}
    (h : Server.step S s (.verifyAny template true) = some t) :
    t.arrived = s.arrived ∧
      t.received_stanzas = (stanzasVerifyAny id template true s.received_stanzas).2 := by
  have hcrash := Server.running_of_step h
  unfold Server.step at h
  rw [if_neg hcrash] at h
  cases h
  exact ⟨rfl, rfl⟩

theorem allFound_nil : AllFound S s [] := by
  intro bs cs template u hsplit
  cases bs with
  | nil => cases hsplit
  | cons b bs => cases hsplit

theorem allFound_cons (hu : Server.step S s a = some u) : AllFound S s (a :: as) ↔
    (∀ template, a = .verifyAny template true →
      (stanzasVerifyAny id template true s.received_stanzas).1 = true) ∧ AllFound S u as := by
  constructor
  · intro h
    constructor
    · intro template ha
      exact h [] as template s (by rw [ha]; rfl) rfl
    · intro bs cs template v hsplit hv
      refine h (a :: bs) cs template v (by rw [hsplit]; rfl) ?_
      rw [run, hu]
      exact hv
  · intro h bs cs template v hsplit hv
    cases bs with
    | nil =>
        cases hsplit
        cases hv
        exact h.1 template rfl
    | cons b bs =>
        cases hsplit
        rw [run, hu] at hv
        exact h.2 bs cs template v rfl hv

end Steps

/-- From special to general, nothing is taken that is needed later. -/
theorem found_of_servable {S : Setting} {s t : State} {as : List Action}
    (h : run (Server.step S) s as = some t) (hrunning : t.stopped = false)
    (hnested : (clearings as).Pairwise fun t₁ t₂ => Nested (demand t₁) (demand t₂))
    (hservable : Servable ((clearings as).map demand) s.received_stanzas) : AllFound S s as := by
  induction as generalizing s with
  | nil => exact allFound_nil
  | cons a as ih =>
      obtain ⟨u, hu, hrest⟩ := Option.bind_eq_some_iff.mp h
      rw [allFound_cons hu]
      by_cases ha : ∃ template, a = .verifyAny template true
      · obtain ⟨template, rfl⟩ := ha
        have hcons : clearings (.verifyAny template true :: as) = template :: clearings as := rfl
        rw [hcons] at hnested hservable
        obtain ⟨hfirst, hothers⟩ := List.pairwise_cons.mp hnested
        rcases stanzasVerifyAny_cases id template true s.received_stanzas with ⟨hnone, -⟩ |
          ⟨before, stanza, after, hsplit, -, hmatch, hfound⟩
        · obtain ⟨stanza, hmem, hmatch⟩ := hservable.found
          exact (hnone stanza hmem hmatch).elim
        · constructor
          · intro template' heq
            cases heq
            rw [hfound]
          · have hstore := (clear_step hu).2
            rw [hfound, if_pos rfl] at hstore
            rw [hsplit] at hservable
            refine ih hrest hothers ?_
            rw [hstore]
            refine hservable.take ?_ hmatch
            intro q hq
            obtain ⟨t₂, ht₂, rfl⟩ := List.mem_map.mp hq
            exact hfirst t₂ ht₂
      · have hother : ∀ template, a ≠ .verifyAny template true := fun template heq =>
          ha ⟨template, heq⟩
        rw [clearings_other hother] at hnested hservable
        obtain ⟨-, new, -, hstore⟩ :=
          HttpAnswers.store_step hu hother (stopped_run hrest hrunning)
        refine ⟨fun template heq => (hother template heq).elim, ih hrest hnested ?_⟩
        rw [hstore]
        exact hservable.grow new

/-- Whatever the order, verifications succeed only if there are different stanzas for them. -/
theorem servable_of_found {S : Setting} {s t : State} {as : List Action}
    (h : run (Server.step S) s as = some t) (hrunning : t.stopped = false)
    (hfound : AllFound S s as) : ∃ new, t.arrived = s.arrived ++ new ∧
      Servable ((clearings as).map demand) (s.received_stanzas ++ new) := by
  induction as generalizing s with
  | nil =>
      cases h
      exact ⟨[], (List.append_nil _).symm, servable_nil _⟩
  | cons a as ih =>
      obtain ⟨u, hu, hrest⟩ := Option.bind_eq_some_iff.mp h
      rw [allFound_cons hu] at hfound
      obtain ⟨new, harrived, hservable⟩ := ih hrest hfound.2
      by_cases ha : ∃ template, a = .verifyAny template true
      · obtain ⟨template, rfl⟩ := ha
        obtain ⟨hsame, hstore⟩ := clear_step hu
        rw [hsame] at harrived
        refine ⟨new, harrived, ?_⟩
        have htrue := hfound.1 template rfl
        rcases stanzasVerifyAny_cases id template true s.received_stanzas with ⟨-, hnone⟩ |
          ⟨before, stanza, after, hsplit, -, hmatch, htaken⟩
        · rw [hnone] at htrue
          cases htrue
        · rw [htaken, if_pos rfl] at hstore
          rw [hstore, List.append_assoc] at hservable
          rw [hsplit, List.append_assoc]
          exact hservable.cons hmatch
      · have hother : ∀ template, a ≠ .verifyAny template true := fun template heq =>
          ha ⟨template, heq⟩
        obtain ⟨-, new', harrived', hstore⟩ :=
          HttpAnswers.store_step hu hother (stopped_run hrest hrunning)
        refine ⟨new' ++ new, ?_, ?_⟩
        · rw [harrived, harrived', List.append_assoc]
        · rw [clearings_other hother, ← List.append_assoc, ← hstore]
          exact hservable

/-- In every run without a shutdown: verifications that clear, made from special to general
templates, all succeed if there are different stanzas for them when they begin, and in any
order they all succeed only if there are, what arrives meanwhile included. -/
theorem verifications_succeed {S : Setting} {s t : State} {as : List Action}
    (h : run (Server.step S) s as = some t) (hrunning : t.stopped = false) :
    ((clearings as).Pairwise (fun t₁ t₂ => Nested (demand t₁) (demand t₂)) →
      Servable ((clearings as).map demand) s.received_stanzas → AllFound S s as) ∧
    (AllFound S s as → ∃ new, t.arrived = s.arrived ++ new ∧
      Servable ((clearings as).map demand) (s.received_stanzas ++ new)) :=
  ⟨found_of_servable h hrunning, servable_of_found h hrunning⟩

/-! ## Templates in order -/

section Templates
variable {t₁ t₂ : XMPPStanza}

/-- A template that is matched by the more general one as a stanza. -/
theorem nested_of_equal (h₁ : StarTemplate t₁) (h₂ : StarTemplate t₂)
    (h : stanzasEqual t₁ t₂ = 0) : Nested (demand t₁) (demand t₂) :=
  Or.inl fun _ hr => stanzasEqual_trans h₂ h₁ h hr

end Templates

/-! ## Two messages -/

/-- Two messages have been received. -/
def twoMessages : State :=
  { State.idle with
    received_stanzas := [attrOnly "a@localhost".toList, attrOnly "b@localhost".toList] }

def specialFirst : List Action :=
  [.verifyAny (attrOnly "a@localhost".toList) true, .verifyAny (attrOnly "*".toList) true]

theorem starTemplate_attrOnly {value : Str} (h : Fnmatch.StarOnly value) :
    StarTemplate (attrOnly value) := by
  intro v hv
  simp only [attrOnly, attrValues, childValues, List.map_cons, List.map_nil, List.append_nil,
    List.mem_singleton] at hv
  rw [hv]
  exact h

theorem specialFirst_succeeds : AllFound .plain twoMessages specialFirst := by
  have hrun : (run (Server.step .plain) twoMessages specialFirst).any (fun t => !t.stopped) =
      true := by decide +kernel
  obtain ⟨t, ht, hrunning⟩ := (Option.any_eq_true _ _).mp hrun
  refine (verifications_succeed ht (by simpa using hrunning)).1 ?_ ?_
  · have hequal : stanzasEqual (attrOnly "a@localhost".toList) (attrOnly "*".toList) = 0 := by
      decide +kernel
    have hnested := nested_of_equal (starTemplate_attrOnly (by simp [Fnmatch.StarOnly,
      Fnmatch.Unquoted])) (starTemplate_attrOnly (by simp [Fnmatch.StarOnly,
      Fnmatch.Unquoted])) hequal
    exact .cons (fun t₂ ht₂ => List.mem_singleton.mp ht₂ ▸ hnested) (List.pairwise_singleton _ _)
  · have hspecial : demand (attrOnly "a@localhost".toList) (attrOnly "a@localhost".toList) := by
      unfold demand
      decide +kernel
    have hgeneral : demand (attrOnly "*".toList) (attrOnly "b@localhost".toList) := by
      unfold demand
      decide +kernel
    exact ⟨twoMessages.received_stanzas, [], .cons hspecial (.cons hgeneral .nil), .refl _⟩

/-- The general template takes the message that the special one needs. -/
theorem generalFirst_fails : ¬ AllFound .plain twoMessages specialFirst.reverse := by
  intro hall
  have hnone := hall [.verifyAny (attrOnly "*".toList) true] []
    (attrOnly "a@localhost".toList)
  have hrun : (run (Server.step .plain) twoMessages
      [.verifyAny (attrOnly "*".toList) true]).any (fun u => !(stanzasVerifyAny id
        (attrOnly "a@localhost".toList) true u.received_stanzas).1) = true := by decide +kernel
  obtain ⟨u, hu, hmissed⟩ := (Option.any_eq_true _ _).mp hrun
  rw [hnone u rfl hu] at hmissed
  cases hmissed

end Stabber.SpecificFirst
