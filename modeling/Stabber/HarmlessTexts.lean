import Stabber.KeyedHistory
import Stabber.PrimedTexts
import Stabber.Retention
import Stabber.Verification

/-!
# Malformed texts

Verifications and stub calls take texts that are parsed without a look at the result.
The stanza, or the null pointer, is used later: by every further look of a verification,
and by the callbacks for the stanzas that arrive. Here the server runs beside the
verifications that are in progress.
-/

namespace Stabber.HarmlessTexts
open XmlDocument XmlReader XmlTree Stanza StanzaParse Stanzas StanzaHistory Priming StubReplies
open StreamParser Callbacks StubSelection MalformedTexts NullIds Verification Transition Server
open Settings KeyedHistory PrimedTexts

/-- A call of `verify_any` or `verify_last` that is in its loop. -/
structure Check where
  template : Option XMPPStanza
  last : Bool
  clear : Bool

def Check.look (c : Check) (store : List XMPPStanza) : Except Fault (Bool × List XMPPStanza) :=
  if c.last then stanzasVerifyLastAt id c.template store
  else stanzasVerifyAnyAt id c.template c.clear store

structure Session where
  server : State
  checks : List Check
  /-- History: the stub calls since the tables were made. -/
  stubs : List (Slot × Str)

inductive Act where
  | server (a : Action)
  | verifyAny (stanza_text : Str) (clear : Bool)
  | verifyLast (stanza_text : Str)
  /-- One look of the verification with this number. -/
  | look (i : ℕ)
  /-- Its time is up. -/
  | timeout (i : ℕ)

/-- The looks at the store are those of the verifications. -/
def isLook : Action → Bool
  | .verifyAny _ _ => true
  | .verifyLast _ => true
  | _ => false

namespace Session
variable (s : Session)

def serve (a : Action) (t : State) : Session :=
  { s with
    server := t
    stubs := if t.primed.idstubs.isNone then [] else s.stubs ++ (given a).toList }

/-- A verification begins. -/
def check (E : Expat) (stanza_text : Str) (last clear : Bool) : Session :=
  match stanzaParse E stanza_text with
  | .ok template => { s with checks := s.checks ++ [⟨template, last, clear⟩] }
  | .error _ => { s with server := s.server.crash }

def look (i : ℕ) : Option Session :=
  match s.checks[i]? with
  | none => none
  | some c =>
      match c.look s.server.received_stanzas with
      | .error _ => some { s with server := s.server.crash }
      | .ok (result, store) =>
          some { s with
            server := { s.server with received_stanzas := store }
            checks := if result then s.checks.eraseIdx i else s.checks }

end Session

def step (S : Setting) (s : Session) (a : Act) : Option Session :=
  if s.server.pc.isCrashed then none
  else match a with
    | .server a =>
        if isLook a then none else (Server.step S s.server a).map (s.serve a)
    | .verifyAny stanza_text clear => some (s.check S.expat stanza_text false clear)
    | .verifyLast stanza_text => some (s.check S.expat stanza_text true false)
    | .look i => s.look i
    | .timeout i => some { s with checks := s.checks.eraseIdx i }

theorem Session.running_of_step {S : Setting} {s t : Session} {a : Act}
    (h : step S s a = some t) : ¬ s.server.pc.isCrashed = true := by
  intro hcrash
  unfold step at h
  rw [if_pos hcrash] at h
  cases h

/-- No look and no callback comes to a null stanza, and no stub is replaced or hidden by
a text that is not well-formed. -/
structure Harmless (E : PrefixExpat) (s : Session) : Prop where
  looks : ∀ c ∈ s.checks, ∀ store, ∃ r, c.look store = .ok r
  stubs : StubsParse E.toExpat s.server.primed
  kept : Kept E.WellFormed (made E.toExpat) s.stubs (stubAt s.server.primed)

/-- A template has to open an element. So has the text that the callbacks will parse for a
stub, and a stub text that is not well-formed is to replace nothing. -/
def Acceptable (E : PrefixExpat) (s : Session) : Act → Prop
  | .verifyAny stanza_text _ => E.Opens stanza_text
  | .verifyLast stanza_text => E.Opens stanza_text
  | .server a => ∀ slot text, given a = some (slot, text) →
      (∀ stub, made E.toExpat slot text = some stub → E.Opens stub.source) ∧
      (E.WellFormed text ∨ stubAt s.server.primed slot = none ∨
        stubAt s.server.primed slot = made E.toExpat slot text)
  | _ => True

/-- Nothing has been primed, and no verification is in progress. -/
structure Unprimed (s : Session) : Prop where
  tables : ∃ b, Tables s.server.primed b
  empty : ∀ slot, stubAt s.server.primed slot = none
  checks : s.checks = []
  stubs : s.stubs = []

/-! ## The invariant -/

section Looks

theorem look_ok {c : Check} (h : c.template.isSome = true) (store : List XMPPStanza) :
    ∃ r, c.look store = .ok r := by
  obtain ⟨template, htemplate⟩ := Option.isSome_iff_exists.mp h
  unfold Check.look stanzasVerifyLastAt stanzasVerifyAnyAt
  rw [htemplate]
  split_ifs
  · exact ⟨_, rfl⟩
  · exact ⟨_, rfl⟩

/-- A null template is read for the first stored stanza. -/
theorem look_null {c : Check} (h : c.template = none) (received : XMPPStanza)
    (store : List XMPPStanza) : c.look (received :: store) = .error .nullDereference := by
  unfold Check.look stanzasVerifyLastAt stanzasVerifyAnyAt
  rw [h]
  split_ifs
  · rfl
  · rfl

end Looks

/-- Parsing the text gives a stanza. -/
def Parses (E : Expat) (text : Str) : Prop := ∃ s, stanzaParse E text = .ok (some s)

section Stubs
variable {E : Expat} {p : Primed}

/-- The callbacks parse what is at the places for stubs. -/
theorem stubsParse_iff : StubsParse E p ↔
    ∀ slot stub, stubAt p slot = some stub → Parses E stub.source := by
  constructor
  · intro h slot stub hstub
    cases slot with
    | id id =>
        obtain ⟨text, htext, rfl⟩ := Option.map_eq_some_iff.mp hstub
        have hfor : stubFor .insertion p [] id = some text := by
          obtain ⟨t, ht, hlookup⟩ := Option.bind_eq_some_iff.mp htext
          have hget : primeGetForId .insertion p id = some text := by
            rw [primeGetForId, ht, Option.bind_some, hlookup]
          rw [stubFor, hget]
        exact h.id _ _ _ _ hfor
    | query query =>
        obtain ⟨s, hs, rfl⟩ := Option.map_eq_some_iff.mp hstub
        exact h.query query s hs
    | xmlns xmlns =>
        obtain ⟨s, hs, rfl⟩ := Option.map_eq_some_iff.mp hstub
        exact h.xmlns xmlns s hs
  · intro h
    constructor
    · intro order name id text hfor
      obtain ⟨t, key, ht, hkey⟩ := entry_of_stubFor hfor
      have hstub : stubAt p (.id key) = some (.text text) := by
        rw [stubAt, ht, Option.bind_some, hkey]
        rfl
      exact h _ _ hstub
    · intro query s hget
      have hstub : stubAt p (.query query) = some (.parsed s) := by
        rw [stubAt, hget]
        rfl
      exact h _ _ hstub
    · intro xmlns s hget
      have hstub : stubAt p (.xmlns xmlns) = some (.parsed s) := by
        rw [stubAt, hget]
        rfl
      exact h _ _ hstub

end Stubs

/-- The tables and the history of a session, and its templates. -/
structure Sound (E : PrefixExpat) (s : Session) : Prop where
  tables : ∃ b, Tables s.server.primed b
  templates : ∀ c ∈ s.checks, c.template.isSome = true
  sources : ∀ slot stub, stubAt s.server.primed slot = some stub → Parses E.toExpat stub.source
  kept : Kept E.WellFormed (made E.toExpat) s.stubs (stubAt s.server.primed)
  known : Known E.WellFormed (made E.toExpat) s.stubs (stubAt s.server.primed)

namespace Sound
variable {E : PrefixExpat} {s t : Session}

theorem harmless (h : Sound E s) : Harmless E s where
  looks c hc store := look_ok (h.templates c hc) store
  stubs := stubsParse_iff.mpr h.sources
  kept := h.kept

/-- Without tables there are no stubs. -/
theorem missing (htables : Tables t.server.primed false) (hstubs : t.stubs = [])
    (hchecks : ∀ c ∈ t.checks, c.template.isSome = true) : Sound E t := by
  have hempty := stubAt_missing htables
  constructor
  · exact ⟨false, htables⟩
  · exact hchecks
  · intro slot stub hstub
    rw [hempty slot] at hstub
    cases hstub
  · rw [hstubs]
    exact kept_nil E.WellFormed _ _
  · exact known_empty E.WellFormed _ hempty

/-- The server goes on with the same tables. -/
theorem same (h : Sound E s) (hserver : t.server.primed = s.server.primed)
    (hstubs : t.stubs = s.stubs) (hchecks : ∀ c ∈ t.checks, c.template.isSome = true) :
    Sound E t := by
  constructor
  · rw [hserver]
    exact h.tables
  · exact hchecks
  · rw [hserver]
    exact h.sources
  · rw [hserver, hstubs]
    exact h.kept
  · rw [hserver, hstubs]
    exact h.known

theorem serve_none (h : Sound E s) {S : Setting} {a : Action} {u : State}
    (ha : given a = none) (hstep : Server.step S s.server a = some u) :
    Sound E (s.serve a u) := by
  obtain ⟨b, htables⟩ := h.tables
  have hmissing : Tables u.primed false → Sound E (s.serve a u) := by
    intro hfalse
    exact missing hfalse (if_pos (tables_isNone hfalse)) h.templates
  rcases stubAt_step htables ha hstep with hfalse | ⟨hsame, hstubs⟩
  · exact hmissing hfalse
  · cases b with
    | false => exact hmissing hsame
    | true =>
        have hsome : ¬ u.primed.idstubs.isNone = true := by
          rw [tables_isNone hsame]
          exact Bool.false_ne_true
        have hhistory : (s.serve a u).stubs = s.stubs := by
          change (if u.primed.idstubs.isNone then [] else s.stubs ++ (given a).toList) = _
          rw [if_neg hsome, ha]
          exact List.append_nil _
        have htable : stubAt u.primed = stubAt s.server.primed := funext hstubs
        constructor
        · exact ⟨true, hsame⟩
        · exact h.templates
        · change ∀ slot stub, stubAt u.primed slot = some stub → _
          rw [htable]
          exact h.sources
        · change Kept _ _ (s.serve a u).stubs (stubAt u.primed)
          rw [htable, hhistory]
          exact h.kept
        · change Known _ _ (s.serve a u).stubs (stubAt u.primed)
          rw [htable, hhistory]
          exact h.known

end Sound

/-- What a stub call does to the tables and to the history. -/
theorem serve_given {E : PrefixExpat} {S : Setting} (hE : S.expat = E.toExpat) {s : Session}
    {a : Action} {u : State} {slot : Slot} {text : Str} {b : Bool}
    (htables : Tables s.server.primed b)
    (ha : given a = some (slot, text)) (hstep : Server.step S s.server a = some u) :
    Tables u.primed true ∧
      stubAt u.primed = put (made E.toExpat) (stubAt s.server.primed) slot text ∧
      (s.serve a u).stubs = s.stubs ++ [(slot, text)] := by
  have hprime := step_given E hE ha hstep
  rw [hE] at hprime
  obtain ⟨htrue, hstubs⟩ := stubAt_prime htables hprime
  refine ⟨htrue, funext hstubs, ?_⟩
  have hsome : ¬ u.primed.idstubs.isNone = true := by
    rw [tables_isNone htrue]
    exact Bool.false_ne_true
  change (if u.primed.idstubs.isNone then [] else s.stubs ++ (given a).toList) = _
  rw [if_neg hsome, ha]
  rfl

theorem Sound.serve_given {E : PrefixExpat} {S : Setting} (hE : S.expat = E.toExpat)
    {s : Session} (h : Sound E s) {a : Action} {u : State} {slot : Slot} {text : Str}
    (ha : given a = some (slot, text))
    (hsource : ∀ stub, made E.toExpat slot text = some stub → Parses E.toExpat stub.source)
    (hplace : E.WellFormed text ∨ stubAt s.server.primed slot = none ∨
      stubAt s.server.primed slot = made E.toExpat slot text)
    (hstep : Server.step S s.server a = some u) : Sound E (s.serve a u) := by
  obtain ⟨b, htables⟩ := h.tables
  obtain ⟨htrue, htable, hhistory⟩ := HarmlessTexts.serve_given hE htables ha hstep
  constructor
  · exact ⟨true, htrue⟩
  · exact h.templates
  · intro slot' stub hstub
    change stubAt u.primed slot' = some stub at hstub
    rw [htable, put] at hstub
    split_ifs at hstub
    · exact hsource stub hstub
    · exact h.sources slot' stub hstub
  · change Kept _ _ (s.serve a u).stubs (stubAt u.primed)
    rw [htable, hhistory]
    exact h.kept.put hplace
  · change Known _ _ (s.serve a u).stubs (stubAt u.primed)
    rw [htable, hhistory]
    exact h.known.put

/-- A template that opens an element is a stanza. -/
theorem Sound.check {E : PrefixExpat} {s : Session} (h : Sound E s) {text : Str}
    (hopens : E.Opens text) (last clear : Bool) :
    Sound E (s.check E.toExpat text last clear) := by
  obtain ⟨template, hparse⟩ := (stanzaParse_isSome_iff E text).mpr hopens
  have hcheck : s.check E.toExpat text last clear =
      { s with checks := s.checks ++ [⟨some template, last, clear⟩] } := by
    rw [Session.check, hparse]
  rw [hcheck]
  refine h.same rfl rfl ?_
  intro c hc
  rcases List.mem_append.mp hc with hc | hc
  · exact h.templates c hc
  · rw [List.mem_singleton.mp hc]
    rfl

theorem Sound.look {E : PrefixExpat} {s t : Session} (h : Sound E s) {i : ℕ}
    (hlook : s.look i = some t) : Sound E t := by
  unfold Session.look at hlook
  split at hlook
  next => cases hlook
  next c hc =>
    split at hlook
    · cases hlook
      exact h.same rfl rfl h.templates
    next result store _ =>
      cases hlook
      refine h.same rfl rfl ?_
      intro c hc
      dsimp only at hc
      split_ifs at hc
      · exact h.templates c (List.mem_of_mem_eraseIdx hc)
      · exact h.templates c hc

theorem sound_step (E : PrefixExpat) {S : Setting} (hE : S.expat = E.toExpat) {s t : Session}
    {a : Act} (h : Sound E s) (hok : Acceptable E s a) (hstep : step S s a = some t) :
    Sound E t := by
  have hcrash := Session.running_of_step hstep
  unfold step at hstep
  rw [if_neg hcrash] at hstep
  cases a with
  | server a =>
      dsimp only at hstep
      split_ifs at hstep
      obtain ⟨u, hu, rfl⟩ := Option.map_eq_some_iff.mp hstep
      cases ha : given a with
      | none => exact h.serve_none ha hu
      | some p =>
          obtain ⟨hopens, hplace⟩ := hok p.1 p.2 ha
          refine h.serve_given hE ha (fun stub hstub => ?_) hplace hu
          exact (stanzaParse_isSome_iff E stub.source).mpr (hopens stub hstub)
  | verifyAny text clear =>
      cases hstep
      rw [hE]
      exact h.check hok false clear
  | verifyLast text =>
      cases hstep
      rw [hE]
      exact h.check hok true false
  | look i => exact h.look hstep
  | timeout i =>
      cases hstep
      exact h.same rfl rfl fun c hc => h.templates c (List.mem_of_mem_eraseIdx hc)

theorem sound_of_unprimed (E : PrefixExpat) {s : Session} (hs : Unprimed s) : Sound E s := by
  constructor
  · exact hs.tables
  · intro c hc
    rw [hs.checks] at hc
    cases hc
  · intro slot stub hstub
    rw [hs.empty slot] at hstub
    cases hstub
  · rw [hs.stubs]
    exact kept_nil E.WellFormed _ _
  · exact known_empty E.WellFormed _ hs.empty

/-! ## Runs -/

/-- A null template is found by a look at a store with a stanza. -/
theorem not_harmless_check (E : PrefixExpat) (s : Session) {text : Str}
    (h : ¬ E.Opens text) (last clear : Bool) :
    ¬ Harmless E (s.check E.toExpat text last clear) := by
  intro hharmless
  have hcheck : s.check E.toExpat text last clear =
      { s with checks := s.checks ++ [⟨none, last, clear⟩] } := by
    rw [Session.check, stanzaParse_of_not_opens E h]
  rw [hcheck] at hharmless
  obtain ⟨r, hr⟩ := hharmless.looks ⟨none, last, clear⟩ (by simp) [⟨[], [], [], none⟩]
  rw [look_null rfl] at hr
  cases hr

/-- A stub call that is not acceptable does harm at once. -/
theorem not_harmless_serve (E : PrefixExpat) {S : Setting} (hE : S.expat = E.toExpat)
    {s : Session} (h : Sound E s) {a : Action} {u : State}
    (hstep : Server.step S s.server a = some u)
    (hbad : ¬ Acceptable E s (.server a)) : ¬ Harmless E (s.serve a u) := by
  intro hharmless
  apply hbad
  intro slot text ha
  obtain ⟨b, htables⟩ := h.tables
  obtain ⟨-, htable, hhistory⟩ := serve_given hE htables ha hstep
  constructor
  · intro stub hstub
    rw [← stanzaParse_isSome_iff E stub.source]
    apply stubsParse_iff.mp hharmless.stubs slot stub
    change stubAt u.primed slot = some stub
    rw [htable, put, if_pos rfl, hstub]
  · by_contra hplace
    rw [not_or, not_or] at hplace
    apply not_kept_put h.known hplace.1 hplace.2.1 hplace.2.2
    have hkept := hharmless.kept
    rw [hhistory] at hkept
    rw [← htable]
    exact hkept

theorem not_harmless_step (E : PrefixExpat) {S : Setting} (hE : S.expat = E.toExpat)
    {s t : Session} {a : Act} (h : Sound E s) (hstep : step S s a = some t)
    (hbad : ¬ Acceptable E s a) :
    ¬ Harmless E t := by
  have hcrash := Session.running_of_step hstep
  unfold step at hstep
  rw [if_neg hcrash] at hstep
  cases a with
  | server a =>
      dsimp only at hstep
      split_ifs at hstep
      obtain ⟨u, hu, rfl⟩ := Option.map_eq_some_iff.mp hstep
      exact not_harmless_serve E hE h hu hbad
  | verifyAny text clear =>
      cases hstep
      rw [hE]
      exact not_harmless_check E s hbad false clear
  | verifyLast text =>
      cases hstep
      rw [hE]
      exact not_harmless_check E s hbad true false
  | look i => exact (hbad trivial).elim
  | timeout i => exact (hbad trivial).elim

/-- While the texts are acceptable, every state of a run is harmless: the looks and the
callbacks find stanzas, whatever is stored and arrives, and a text that is not well-formed
replaces no stub. The first text that is not acceptable ends this. -/
theorem harmless_of_runs (E : PrefixExpat) (order : KeyOrder) (env : Env) {s t : Session}
    {as : List Act} (hs : Unprimed s)
    (h : Runs (step ⟨E.toExpat, order, env⟩) (Acceptable E) s as t) :
    Harmless E t ∧
      ∀ a u, step ⟨E.toExpat, order, env⟩ t a = some u →
        ¬ Acceptable E t a → ¬ Harmless E u := by
  have hsound : Sound E t := by
    apply h.invariant (sound_of_unprimed E hs)
    intro u a v hu hok hstep
    exact sound_step E rfl hu hok hstep
  constructor
  · exact hsound.harmless
  · intro a u hstep hbad
    exact not_harmless_step E rfl hsound hstep hbad

/-- In a harmless state no look ends the process. -/
theorem Harmless.look_pc {E : PrefixExpat} {s t : Session} (h : Harmless E s) {i : ℕ}
    (hlook : s.look i = some t) : t.server.pc = s.server.pc := by
  unfold Session.look at hlook
  split at hlook
  next => cases hlook
  next c hc =>
    obtain ⟨r, hr⟩ := h.looks c (List.mem_of_getElem? hc) s.server.received_stanzas
    rw [hr] at hlook
    cases hlook
    rfl

/-- In a harmless state the callbacks of every stanza with an id come to their end. -/
theorem Harmless.dispatch_ends {E : PrefixExpat} {S : Setting} (hE : S.expat = E.toExpat)
    {s : Session} (h : Harmless E s) (client : XMPPClient) {stanza : XMPPStanza} {id : Str}
    (hauth : stanzaGetChildByNs (some stanza) "jabber:iq:auth".toList = none)
    (hid : stanzaGetId (some stanza) = some id) :
    (callbacks (s.server.context S client) (dispatch stanza stanza)).2 = none := by
  have hstubs : StubsParse S.expat s.server.primed := by
    rw [hE]
    exact h.stubs
  exact (defined_of_id hauth hstubs hid).ends

def atStart : Session := ⟨.idle, [], []⟩

theorem unprimed_atStart : Unprimed atStart where
  tables := ⟨true, .ready _ [] [] []⟩
  empty slot := by cases slot <;> rfl
  checks := rfl
  stubs := rfl

/-- The reader decides that the text opens an element. -/
def readable (text : Str) : Bool := InScope text && Reader.init.tokens text ≠ []

def isDocument (text : Str) : Bool :=
  InScope text && (Reader.init.feed text).any fun p => p.1.complete

section Tests
variable {E : PrefixExpat} {text : Str}

theorem opens_of_test (h : readable text = true) : E.Opens text := by
  rw [readable, Bool.and_eq_true, decide_eq_true_eq, decide_eq_true_eq] at h
  exact (PrefixExpat.opens_iff h.1).mpr h.2

theorem wellFormed_of_test (h : isDocument text = true) : E.WellFormed text := by
  rw [isDocument, Bool.and_eq_true, decide_eq_true_eq] at h
  obtain ⟨p, hfeed, hc⟩ := (Option.any_eq_true _ _).mp h.2
  obtain ⟨n, as, ks, -, hd⟩ := denotes_of_complete hfeed hc
  exact (PrefixExpat.wellFormed_iff h.1).mpr ⟨_, hd⟩

/-- A test of `Acceptable`, for texts in scope. -/
def acceptable (E : PrefixExpat) (s : Session) : Act → Bool
  | .verifyAny stanza_text _ => readable stanza_text
  | .verifyLast stanza_text => readable stanza_text
  | .server a =>
      (given a).all fun p =>
        (made E.toExpat p.1 p.2).all (fun stub => readable stub.source) &&
          (isDocument p.2 || (stubAt s.server.primed p.1).isNone)
  | _ => true

theorem acceptable_of_test {s : Session} {a : Act} (h : acceptable E s a = true) :
    Acceptable E s a := by
  cases a with
  | verifyAny text clear => exact opens_of_test h
  | verifyLast text => exact opens_of_test h
  | look i => exact trivial
  | timeout i => exact trivial
  | server a =>
      intro slot text ha
      rw [acceptable, ha, Option.all_some, Bool.and_eq_true, Bool.or_eq_true] at h
      constructor
      · intro stub hstub
        have hreadable := h.1
        rw [hstub, Option.all_some] at hreadable
        exact opens_of_test hreadable
      · rcases h.2 with hdocument | hfree
        · exact Or.inl (wellFormed_of_test hdocument)
        · exact Or.inr (Or.inl (Option.isNone_iff_eq_none.mp hfree))

end Tests

def roster : Slot := .query "jabber:iq:roster".toList

/-- Stub texts for one namespace, in this order. -/
def rosterTexts (texts : List Str) : List Act :=
  texts.map fun text => .server (.forQuery "jabber:iq:roster".toList text)

/-- A presence arrives and a verification with this template looks once. -/
def lookFor (template : Str) : List Act :=
  (connect Retention.openStream ++ Retention.oneStanza).map .server ++
    [.verifyAny template false, .look 0]

/-- A text that is cut off may be the first for its namespace, and a template be cut off
after its start tag. -/
theorem cut_texts_harmless : ∃ t, run (step .plain) atStart
    (rosterTexts ["<iq><a".toList, "<iq/>".toList] ++ lookFor "<presence>".toList) = some t ∧
      Harmless PrefixExpat.reference t := by
  have hrun : (run (fun u a => if acceptable .reference u a then step .plain u a else none)
      atStart (rosterTexts ["<iq><a".toList, "<iq/>".toList] ++
        lookFor "<presence>".toList)).isSome = true := by decide +kernel
  obtain ⟨t, ht⟩ := Option.isSome_iff_exists.mp hrun
  have hruns := runs_of_checked (fun _ _ h => acceptable_of_test h) ht
  exact ⟨t, hruns.to_run,
    (harmless_of_runs PrefixExpat.reference .insertion _ unprimed_atStart hruns).1⟩

/-- With an empty template the look ends the process, and an empty text hides the stub
that was there. -/
theorem empty_texts_harm :
    (∃ t, run (step .plain) atStart (lookFor []) = some t ∧ t.server.pc.isCrashed = true) ∧
    ∃ t, run (step .plain) atStart (rosterTexts ["<iq/>".toList, []]) = some t ∧
      stubAt t.server.primed roster = none ∧ ¬ Harmless PrefixExpat.reference t := by
  constructor
  · have hrun : (run (step .plain) atStart (lookFor [])).any
        (fun t => t.server.pc.isCrashed) = true := by decide +kernel
    exact (Option.any_eq_true _ _).mp hrun
  · have hrun : (run (step .plain) atStart (rosterTexts ["<iq/>".toList, []])).any (fun t =>
        (stubAt t.server.primed roster).isNone &&
          t.stubs = [(roster, "<iq/>".toList), (roster, [])]) = true := by decide +kernel
    obtain ⟨t, ht, htest⟩ := (Option.any_eq_true _ _).mp hrun
    rw [Bool.and_eq_true] at htest
    have hnone := Option.isNone_iff_eq_none.mp htest.1
    refine ⟨t, ht, hnone, ?_⟩
    intro h
    have hmade : made Expat.reference roster "<iq/>".toList =
        some (.parsed ⟨"iq".toList, [], [], none⟩) := rfl
    have hkept := h.kept [] roster _ [(roster, [])] _ (of_decide_eq_true htest.2) hmade (by
      intro e he _
      rw [List.mem_singleton.mp he]
      exact not_denotes rfl)
    rw [hnone] at hkept
    cases hkept

end Stabber.HarmlessTexts
