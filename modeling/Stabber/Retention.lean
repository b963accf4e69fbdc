import Stabber.ServerSteps

/-!
# How long received stanzas can be verified

A stanza stays in the store while nobody consumes it and the server is not shut
down. The server thread shuts it down by itself after a chunk that leaves
`</stream:stream>` at the end of the bytes received.
-/

namespace Stabber.Retention
open XmlDocument XmlReader Stanza StanzaParse Stanzas StanzaHistory StreamParser
open Callbacks Utf8 ReadStream WriteStream Transition Server State

/-- Every stanza added so far is found with every template that matches it. -/
def Verifiable (s : State) : Prop :=
  ∀ stanza ∈ s.arrived, ∀ template, stanzasEqual stanza template = 0 →
    (stanzasVerifyAny id template false s.received_stanzas).1 = true

/-- No look at the store with `clear` succeeds. -/
def NotConsumed (s : State) (a : Action) : Prop :=
  ∀ template, a = .verifyAny template true →
    (stanzasVerifyAny id template true s.received_stanzas).1 = false

/-- The server is not stopped, and nothing is consumed. -/
def Serving (s : State) (a : Action) : Prop := a ≠ .stop ∧ NotConsumed s a

/-- Once a stanza has been added, no chunk leaves `</stream:stream>` at the end of the
bytes received. -/
def NotEnded (s : State) (a : Action) : Prop :=
  ∀ chunk, a = .thread → s.writing = none → s.pc = .feeding chunk [] [] [] →
    gStrHasSuffix (s.stream ++ chunk) STREAM_END = true → s.arrived = []

def Undisturbed (s : State) (a : Action) : Prop := Serving s a ∧ NotEnded s a

structure Kept (s : State) : Prop where
  stored : ∀ stanza ∈ s.arrived, stanza ∈ s.received_stanzas
  ending : s.kill_recv = true ∨ s.pc = .ending → s.arrived = []
  killed : s.kill_recv = true → s.pc = .top ∨ s.pc = .finished ∨ s.pc = .crashed

namespace Kept
variable {S : Setting} {s t : State}

theorem verifiable (h : Kept s) : Verifiable s := by
  intro stanza hmem template hmatch
  exact (stanzasVerifyAny_fst id template false s.received_stanzas).mpr
    ⟨stanza, h.stored stanza hmem, hmatch⟩

theorem alive (h : Kept s) (hpc : s.pc ≠ .top ∧ s.pc ≠ .finished ∧ s.pc ≠ .crashed) :
    s.kill_recv = false :=
  alive_of_killed h.killed hpc

/-- The thread goes on while the connection is open. -/
theorem moved (h : Kept s) {pc : Pc} (hopen : s.kill_recv = false) (hpc : pc ≠ .ending) :
    Kept { s with pc := pc } := by
  constructor
  · exact h.stored
  · intro hend
    rcases hend with hkill | hend
    · exact absurd hkill (by simp [hopen])
    · exact (hpc hend).elim
  · intro hkill
    exact absurd hkill (by simp [hopen])

/-- From a place where the connection is open. -/
theorem goes (h : Kept s) {pc : Pc} (hfrom : s.pc ≠ .top ∧ s.pc ≠ .finished ∧ s.pc ≠ .crashed)
    (hto : pc ≠ .ending) : Kept { s with pc := pc } :=
  h.moved (h.alive hfrom) hto

theorem crash (h : Kept s) : Kept s.crash := by
  constructor
  · exact h.stored
  · intro hend
    rcases hend with hend | hend
    · exact h.ending (Or.inl hend)
    · cases hend
  · exact fun _ => Or.inr (Or.inr rfl)

theorem verifyAny (h : Kept s) {template : XMPPStanza} {clear : Bool}
    (hok : NotConsumed s (.verifyAny template clear)) :
    Kept { s with
      received_stanzas := storeAfter s.received_stanzas (.verifyAny template clear) } := by
  have hstore : storeAfter s.received_stanzas (.verifyAny template clear) =
      s.received_stanzas := by
    cases clear with
    | false => exact stanzasVerifyAny_keep id template s.received_stanzas
    | true =>
        have hfail := hok template rfl
        rcases stanzasVerifyAny_cases id template true s.received_stanzas with
          ⟨_, h⟩ | ⟨_, _, _, _, _, _, h⟩
        · exact congrArg Prod.snd h
        · rw [h] at hfail
          cases hfail
  rw [hstore]
  exact { h with }

theorem record (h : Kept s) (hopen : s.kill_recv = false) (hpc : s.pc ≠ .ending)
    (c : Call XMPPStanza) : Kept (s.record c) := by
  cases c with
  | add stanza =>
      constructor
      · intro x hx
        rcases List.mem_append.mp hx with hx | hx
        · exact List.mem_append_left _ (h.stored x hx)
        · exact List.mem_append_right _ hx
      · intro hend
        rcases hend with hkill | hend
        · exact absurd hkill (by simp [State.record, hopen])
        · exact (hpc hend).elim
      · exact h.killed
  | streamStart => exact { h with }
  | auth stanza => exact h
  | id name i => exact h
  | query query i => exact h
  | xmlns xmlns i => exact h

end Kept

theorem kept_start {s : State} (hs : Started s) : Kept s := by
  constructor
  · intro stanza hmem
    rw [hs.arrived] at hmem
    cases hmem
  · exact fun _ => hs.arrived
  · intro hkill
    rw [hs.kill_recv] at hkill
    cases hkill

theorem kept_step {S : Setting} {s t : State} {a : Action} (h : Kept s) (hok : Undisturbed s a)
    (hstep : Step S s a t) : Kept t := by
  cases hstep with
  | quiet a primed timeout hchunk => exact { h with }
  | crash a => exact h.crash
  | send stream hlock => exact { h with }
  | verifyAny template clear => exact h.verifyAny hok.1.2
  | stop => exact (hok.1.1 rfl).elim
  | leave a hpc =>
      rcases hpc with hpc | hpc
      · exact h.goes (by simp [hpc]) (by simp)
      · exact h.goes (by simp [hpc]) (by simp)
  | connected hpc => exact { h.goes (by simp [hpc]) (by simp) with }
  | again hpc => exact h.goes (by simp [hpc]) (by simp)
  | data chunk events hpc => exact h.goes (by simp [hpc]) (by simp)
  | write hw hwrite => exact { h with }
  | returned hw hsend => exact { h with }
  | shutdown hw hpc hkill =>
      have hnone := h.ending (Or.inl hkill)
      constructor
      · intro stanza hmem
        change stanza ∈ s.arrived at hmem
        rw [hnone] at hmem
        cases hmem
      · exact fun _ => hnone
      · exact fun _ => Or.inr (Or.inl rfl)
  | lock hw hpc hkill => exact h.moved hkill (by simp)
  | take hw hpc => exact { h.goes (by simp [hpc]) (by simp) with }
  | unlock hw hpc => exact { h.goes (by simp [hpc]) (by simp) with }
  | reply hw hpc => exact { h.goes (by simp [hpc]) (by simp) with }
  | @call _ _ _ c _ _ _ hw hpc hclient hcall =>
      have hopen := h.alive (by simp [hpc])
      have hrecord := h.record hopen (by simp [hpc]) c
      exact { hrecord.moved (by rw [record_kill_recv, hopen]) (by simp) with }
  | event hw hpc hevent => exact { h.goes (by simp [hpc]) (by simp) with }
  | next hw hpc hend => exact { h.goes (by simp [hpc]) (by simp) with }
  | streamEnd hw hpc hend =>
      have hnone := hok.2 _ rfl hw hpc hend
      have hopen := h.alive (by simp [hpc])
      constructor
      · exact h.stored
      · exact fun _ => hnone
      · intro hkill
        exact absurd hkill (by simp [State.begin, hopen])
  | kill hw hpc =>
      have hnone := h.ending (Or.inr hpc)
      constructor
      · exact h.stored
      · exact fun _ => hnone
      · exact fun _ => Or.inl rfl

/-- Until the server is stopped, while no stanza is consumed and no chunk ends in
`</stream:stream>`, every stanza that has been added can be verified in every state. -/
theorem verifiable_of_runs {S : Setting} {s t : State} {as : List Action} (hs : Started s)
    (h : Runs (step S) Undisturbed s as t) : Verifiable t := by
  have hkept : Kept t := by
    apply h.invariant (kept_start hs)
    intro u a v hu hok hstep
    exact kept_step hu hok (step_cases hstep)
  exact hkept.verifiable

/-! ## A client that closes its stream -/

/-- The thread handles the start of the stream and one stanza without a reply. -/
def oneStanza : List Action :=
  [.thread, .thread] ++ written XML_START ++ written STREAM_RESP ++ written FEATURES ++
    [.thread, .thread, .thread]

def openStream : Str := "<stream:stream><presence/>".toList

def closedStream : Str := openStream ++ STREAM_END

/-- The end of the stream is answered, and the server shut down. -/
def farewell : List Action := [.thread] ++ written STREAM_END ++ [.thread, .thread]

def presence : XMPPStanza := ⟨"presence".toList, [], [], none⟩

/-- A stanza has arrived that matches the template, and the store has none. -/
def forgets (template : XMPPStanza) (s : State) : Bool :=
  s.arrived.any (fun x => stanzasEqual x template = 0) &&
    !(stanzasVerifyAny id template false s.received_stanzas).1

theorem not_verifiable {template : XMPPStanza} {s : State} (h : forgets template s = true) :
    ¬ Verifiable s := by
  unfold forgets at h
  rw [Bool.and_eq_true, List.any_eq_true] at h
  obtain ⟨⟨x, hx, hmatch⟩, hnone⟩ := h
  intro hall
  rw [hall x hx template (of_decide_eq_true hmatch)] at hnone
  cases hnone

/-- A test of `Undisturbed`. -/
def undisturbed (s : State) : Action → Bool
  | .verifyAny _ clear => !clear
  | .stop => false
  | .thread =>
      match s.pc with
      | .feeding chunk [] [] [] => !gStrHasSuffix (s.stream ++ chunk) STREAM_END
      | _ => true
  | _ => true

theorem undisturbed_of_test {s : State} {a : Action} (h : undisturbed s a = true) :
    Undisturbed s a := by
  refine ⟨⟨?_, ?_⟩, ?_⟩
  · intro ha
    rw [ha] at h
    cases h
  · intro template ha
    rw [ha] at h
    cases h
  · intro chunk ha _ hpc hend
    rw [ha, undisturbed, hpc] at h
    dsimp only at h
    rw [hend] at h
    cases h

/-- While the client leaves its stream open, its stanza can be verified. -/
theorem open_stream_remembers : ∃ t,
    run (step .plain) .idle (connect openStream ++ oneStanza ++ [.thread]) = some t ∧
      t.arrived.length = 1 ∧ Verifiable t := by
  have hrun : (run (fun u a => if undisturbed u a then step .plain u a else none) .idle
      (connect openStream ++ oneStanza ++ [.thread])).any (fun t => t.arrived.length = 1) =
        true := by decide +kernel
  obtain ⟨t, ht, hlen⟩ := (Option.any_eq_true _ _).mp hrun
  have hruns := runs_of_checked (fun _ _ h => undisturbed_of_test h) ht
  exact ⟨t, hruns.to_run, of_decide_eq_true hlen, verifiable_of_runs started_idle hruns⟩

/-- Nobody stops the server in this run, nothing is consumed, and the stanza is gone. -/
theorem closed_stream_forgets : ∃ t,
    Runs (step .plain) Serving .idle (connect closedStream ++ oneStanza ++ farewell) t ∧
      ¬ Verifiable t := by
  have hrun : (run (step .plain) .idle (connect closedStream ++ oneStanza ++ farewell)).any
      (forgets presence) = true := by decide +kernel
  obtain ⟨t, ht, hf⟩ := (Option.any_eq_true _ _).mp hrun
  refine ⟨t, runs_of_run ht ?_, not_verifiable hf⟩
  intro a ha u
  constructor
  · intro heq
    rw [heq] at ha
    simp [connect, oneStanza, farewell, written] at ha
  · intro template heq
    rw [heq] at ha
    simp [connect, oneStanza, farewell, written] at ha

end Stabber.Retention
