import Stabber.NullIds
import Stabber.Settings

/-!
# What the texts of stubs make of the tables

The id table keeps a text as it was given, the two others what it parses to. A text that
parses to nothing is kept there as a null pointer, which is looked up like no stub.
-/

namespace Stabber.PrimedTexts
open XmlDocument Stanza StanzaParse Priming StubReplies StubSelection MalformedTexts NullIds
open Server State Settings

/-- A place for a stub. -/
inductive Slot where
  | id (id : Str)
  | query (query : Str)
  | xmlns (xmlns : Str)
deriving DecidableEq, Repr

inductive Stub where
  | text (text : Str)
  | parsed (stanza : XMPPStanza)
deriving Repr

/-- The text that a callback parses. -/
def Stub.source : Stub → Str
  | .text t => t
  | .parsed s => stanzaToString s

/-- The stub that the tables have at a place. -/
def stubAt (p : Primed) : Slot → Option Stub
  | .id id => (p.idstubs.bind fun t => t.lookup id).map .text
  | .query query => (primeGetForQuery p query).map .parsed
  | .xmlns xmlns => (primeGetForXmlns p xmlns).map .parsed

section Texts
variable (E : Expat)

/-- The stub that a text makes. -/
def made : Slot → Str → Option Stub
  | .id _, text => some (.text text)
  | _, text =>
      match stanzaParse E text with
      | .ok stanza => stanza.map .parsed
      | .error _ => none

def prime (p : Primed) : Slot → Str → Except Fault Primed
  | .id id, text => .ok (primeForId id text p)
  | .query query, text => primeForQuery E query text p
  | .xmlns xmlns, text => primeForXmlns E xmlns text p

/-- The place and the text of a stub call. -/
def given : Action → Option (Slot × Str)
  | .forId id stream => some (.id id, stream)
  | .forQuery query stream => some (.query query, stream)
  | .forXmlns xmlns stream => some (.xmlns xmlns, stream)
  | _ => none

theorem tables_isNone {p : Primed} {b : Bool} (h : Tables p b) : p.idstubs.isNone = !b := by
  cases h with
  | ready passwd ids queries xmlns => rfl
  | missing passwd => rfl

theorem stubAt_missing {p : Primed} (h : Tables p false) (slot : Slot) : stubAt p slot = none := by
  cases h with
  | missing passwd => cases slot <;> rfl

theorem stubAt_primeInit {p : Primed} {b : Bool} (h : Tables p b) (slot : Slot) :
    stubAt (primeInit p) slot = stubAt p slot := by
  cases h with
  | ready passwd ids queries xmlns => rfl
  | missing passwd => cases slot <;> rfl

/-- The tables are made first if there are none. -/
theorem prime_primeInit {p : Primed} {b : Bool} (h : Tables p b) (slot : Slot) (text : Str) :
    prime E p slot text = prime E (primeInit p) slot text := by
  cases h with
  | ready passwd ids queries xmlns => rfl
  | missing passwd => cases slot <;> rfl

variable {E}

/-- A table of stanzas after a text has been given for a key. -/
theorem lookup_parsed {t : Table (Option XMPPStanza)} {key : Str}
    {stanza : Option XMPPStanza} (k : Str) :
    (((some (t.insert key stanza)).bind fun t => t.lookup k).join).map Stub.parsed =
      if k = key then stanza.map .parsed
      else (((some t).bind fun t => t.lookup k).join).map .parsed := by
  rw [Option.bind_some, Option.bind_some, Table.lookup_insert]
  split_ifs
  · rfl
  · rfl

section Ready
variable {passwd : Option Str} {ids : Table Str} {queries xmlns : Table (Option XMPPStanza)}
  {q : Primed} {key text : Str}

theorem stubAt_primeForId (key text : Str) (slot : Slot) :
    stubAt (primeForId key text ⟨passwd, some ids, some queries, some xmlns⟩) slot =
      if slot = .id key then some (.text text)
      else stubAt ⟨passwd, some ids, some queries, some xmlns⟩ slot := by
  cases slot with
  | id i =>
      simp only [stubAt, primeForId, Option.isNone_some, Bool.false_eq_true, if_false,
        Option.map_some, Option.bind_some, Table.lookup_insert, Slot.id.injEq]
      split_ifs
      · rfl
      · rfl
  | query k => rfl
  | xmlns k => rfl

/-- The call parses its text first. -/
theorem primeForQuery_ready
    (h : primeForQuery E key text ⟨passwd, some ids, some queries, some xmlns⟩ = .ok q) :
    ∃ stanza, stanzaParse E text = .ok stanza ∧
      q = ⟨passwd, some ids, some (queries.insert key stanza), some xmlns⟩ := by
  cases hparse : stanzaParse E text with
  | error fault =>
      simp only [primeForQuery, hparse] at h
      cases h
  | ok stanza =>
      simp only [primeForQuery, hparse] at h
      cases h
      exact ⟨stanza, rfl, rfl⟩

theorem primeForXmlns_ready
    (h : primeForXmlns E key text ⟨passwd, some ids, some queries, some xmlns⟩ = .ok q) :
    ∃ stanza, stanzaParse E text = .ok stanza ∧
      q = ⟨passwd, some ids, some queries, some (xmlns.insert key stanza)⟩ := by
  cases hparse : stanzaParse E text with
  | error fault =>
      simp only [primeForXmlns, hparse] at h
      cases h
  | ok stanza =>
      simp only [primeForXmlns, hparse] at h
      cases h
      exact ⟨stanza, rfl, rfl⟩

end Ready

theorem prime_ready {p q : Primed} {slot : Slot} {text : Str} (h : Tables p true)
    (hq : prime E p slot text = .ok q) : Tables q true ∧
      ∀ slot', stubAt q slot' = if slot' = slot then made E slot text else stubAt p slot' := by
  cases h with
  | ready passwd ids queries xmlns =>
      cases slot with
      | id key =>
          cases hq
          exact ⟨.ready _ _ _ _, stubAt_primeForId key text⟩
      | query key =>
          obtain ⟨stanza, hparse, rfl⟩ := primeForQuery_ready hq
          refine ⟨.ready _ _ _ _, ?_⟩
          intro slot'
          cases slot' with
          | query k =>
              simp only [Slot.query.injEq, made, hparse]
              exact lookup_parsed k
          | id k => rfl
          | xmlns k => rfl
      | xmlns key =>
          obtain ⟨stanza, hparse, rfl⟩ := primeForXmlns_ready hq
          refine ⟨.ready _ _ _ _, ?_⟩
          intro slot'
          cases slot' with
          | xmlns k =>
              simp only [Slot.xmlns.injEq, made, hparse]
              exact lookup_parsed k
          | id k => rfl
          | query k => rfl

/-- A stub call puts what its text makes at its place and changes no other. -/
theorem stubAt_prime {p q : Primed} {b : Bool} {slot : Slot} {text : Str} (h : Tables p b)
    (hq : prime E p slot text = .ok q) : Tables q true ∧
      ∀ slot', stubAt q slot' = if slot' = slot then made E slot text else stubAt p slot' := by
  rw [prime_primeInit E h] at hq
  have hready := prime_ready (tables_primeInit h) hq
  refine ⟨hready.1, ?_⟩
  intro slot'
  rw [hready.2 slot', stubAt_primeInit h]

end Texts

/-! ## Steps of the server -/

section Steps
variable {S : Setting} {s t : State} {a : Action}

theorem step_given (E : PrefixExpat) (hE : S.expat = E.toExpat) {slot : Slot} {text : Str}
    (ha : given a = some (slot, text)) (h : step S s a = some t) :
    prime S.expat s.primed slot text = .ok t.primed := by
  have hparse : ∃ stanza, stanzaParse S.expat text = .ok stanza := by
    rw [hE]
    obtain ⟨-, stanza, -, hstanza, -⟩ := stanzaParse_cases E text
    exact ⟨stanza, hstanza⟩
  obtain ⟨stanza, hstanza⟩ := hparse
  have hcrash := running_of_step h
  unfold step at h
  rw [if_neg hcrash] at h
  cases a with
  | forId id stream =>
      cases ha
      cases h
      rfl
  | forQuery query stream =>
      cases ha
      dsimp only at h
      rw [prime, primeForQuery, hstanza] at *
      cases h
      rfl
  | forXmlns xmlns stream =>
      cases ha
      dsimp only at h
      rw [prime, primeForXmlns, hstanza] at *
      cases h
      rfl
  | _ => cases ha

theorem call_primed (chunk : List UInt8) (events : List Event)
    (calls : List (StreamParser.Call XMPPStanza)) (c : StreamParser.Call XMPPStanza) :
    (s.call S chunk events calls c).primed = s.primed := by
  obtain ⟨_, _, _, hrecord⟩ := s.record_eq c
  unfold State.call
  split
  · rfl
  · split
    · rfl
    · rw [hrecord]

theorem event_primed (chunk : List UInt8) (events : List Event) (e : Event) :
    (s.event chunk events e).primed = s.primed := by
  unfold State.event
  split
  · rfl
  · rfl

theorem endChunk_primed (chunk : List UInt8) : (s.endChunk chunk).primed = s.primed := by
  unfold endChunk
  dsimp only
  split_ifs
  · rfl
  · rfl

/-- The thread leaves the tables as they are, or frees them. -/
theorem thread_primed (h : s.thread S = some t) :
    t.primed = s.primed ∨ t.primed = primeFreeAll s.primed := by
  unfold State.thread at h
  split at h
  · split_ifs at h
    cases h
    exact Or.inl rfl
  · split at h
    next =>
      split_ifs at h
      · cases h
        exact Or.inr rfl
      · cases h
        exact Or.inl rfl
    next =>
      cases h
      exact Or.inl rfl
    next =>
      cases h
      exact Or.inl rfl
    next =>
      cases h
      exact Or.inl rfl
    next chunk events c calls _ =>
      cases h
      exact Or.inl (call_primed chunk events calls c)
    next chunk e events _ =>
      cases h
      exact Or.inl (event_primed chunk events e)
    next chunk _ =>
      cases h
      exact Or.inl (endChunk_primed chunk)
    next =>
      cases h
      exact Or.inl rfl
    next => cases h

theorem accept_primed {result : AcceptResult} (h : s.accept result = some t) :
    t.primed = s.primed := by
  unfold State.accept at h
  split at h
  · split_ifs at h
    · cases h
      rfl
    · cases result <;> cases h <;> rfl
  · cases h

theorem recv_primed {result : RecvResult} (h : s.recv result = some t) :
    t.primed = s.primed := by
  unfold State.recv at h
  split at h
  · cases result with
    | data chunk events =>
        dsimp only at h
        split_ifs at h
        cases h
        rfl
    | _ =>
        cases h
        rfl
  · cases h

theorem write_primed {result : WriteStream.WriteResult} (h : s.write result = some t) :
    t.primed = s.primed := by
  unfold State.write at h
  split at h
  · cases h
  · obtain ⟨p, _, rfl⟩ := Option.map_eq_some_iff.mp h
    rfl

/-- A step that is no stub call. -/
theorem step_primed (ha : given a = none) (h : step S s a = some t) :
    t.primed = s.primed ∨ t.primed = primeFreeAll s.primed ∨
      ∃ password, t.primed = primeRequiredPasswd password s.primed := by
  have hcrash := running_of_step h
  unfold step at h
  rw [if_neg hcrash] at h
  cases a with
  | send stream =>
      dsimp only at h
      split_ifs at h
      cases h
      exact Or.inl rfl
  | requiredPasswd password =>
      cases h
      exact Or.inr (Or.inr ⟨password, rfl⟩)
  | forId | forQuery | forXmlns => cases ha
  | setTimeout | verifyAny | verifyLast | containsId | stop =>
      cases h
      exact Or.inl rfl
  | accept result => exact Or.inl (accept_primed h)
  | recv result => exact Or.inl (recv_primed h)
  | write result => exact Or.inl (write_primed h)
  | thread =>
      rcases thread_primed h with hsame | hfree
      · exact Or.inl hsame
      · exact Or.inr (Or.inl hfree)

theorem tables_password {p : Primed} {b : Bool} (h : Tables p b) (password : Str) :
    Tables (primeRequiredPasswd password p) b := by
  cases h with
  | ready passwd ids queries xmlns => exact .ready _ ids queries xmlns
  | missing passwd => exact .missing _

/-- It leaves the stubs as they are, or no tables. -/
theorem stubAt_step {b : Bool} (htables : Tables s.primed b) (ha : given a = none)
    (h : step S s a = some t) : Tables t.primed false ∨
      Tables t.primed b ∧ ∀ slot, stubAt t.primed slot = stubAt s.primed slot := by
  rcases step_primed ha h with hsame | hfree | ⟨password, hpasswd⟩
  · rw [hsame]
    exact Or.inr ⟨htables, fun _ => rfl⟩
  · rw [hfree]
    exact Or.inl (.missing none)
  · rw [hpasswd]
    refine Or.inr ⟨tables_password htables password, ?_⟩
    intro slot
    cases slot <;> rfl

end Steps

end Stabber.PrimedTexts
