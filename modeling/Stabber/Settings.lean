import Stabber.Lifecycle

/-!
# Settings given before and after the start

The password, the timeout and the stubs can be set at any time. The tables are made
once, by the first call that needs them, and then the password is set to its default;
the timeout is set to its default by every start. So a password is lost if the tables
are made after it, and a timeout if the start comes after it.
-/

namespace Stabber.Settings
open XmlDocument Stanza StanzaParse Priming Server Transition Lifecycle

inductive Key where
  | passwd
  | timeout
  | id (id : Str)
  | query (query : Str)
  | xmlns (xmlns : Str)
deriving DecidableEq

inductive Value where
  | text (text : Str)
  | seconds (seconds : ℤ)
  /-- A stub as it is kept, parsed. -/
  | stub (stanza : Option XMPPStanza)

/-- All settings; a missing stub is `none`. -/
abbrev Assignment := Key → Option Value

section Calls
variable (E : Expat)

/-- The setting that a call gives a value to. -/
def setting : Action → Option (Key × Value)
  | .requiredPasswd password => some (.passwd, .text password)
  | .setTimeout seconds => some (.timeout, .seconds seconds)
  | .forId id stream => some (.id id, .text stream)
  | .forQuery query stream =>
      match stanzaParse E stream with
      | .ok stanza => some (.query query, .stub stanza)
      | .error _ => none
  | .forXmlns xmlns stream =>
      match stanzaParse E stream with
      | .ok stanza => some (.xmlns xmlns, .stub stanza)
      | .error _ => none
  | _ => none

/-- The values given to one setting, in order. -/
def valuesOf (k : Key) (calls : List Action) : List Value :=
  (calls.filterMap (setting E)).filterMap fun p => if p.1 = k then some p.2 else none

def lastValue (k : Key) (calls : List Action) : Option Value := (valuesOf E k calls).getLast?

def assign (f : Assignment) (a : Action) : Assignment :=
  match setting E a with
  | some (k, v) => fun j => if j = k then some v else f j
  | none => f

theorem valuesOf_append (k : Key) (calls calls' : List Action) :
    valuesOf E k (calls ++ calls') = valuesOf E k calls ++ valuesOf E k calls' := by
  rw [valuesOf, List.filterMap_append, List.filterMap_append]
  rfl

theorem lastValue_append (k : Key) (calls calls' : List Action) :
    lastValue E k (calls ++ calls') = (lastValue E k calls').or (lastValue E k calls) := by
  rw [lastValue, valuesOf_append, List.getLast?_append]
  rfl

theorem lastValue_singleton (k : Key) (a : Action) (f : Assignment) :
    assign E f a k = (lastValue E k [a]).or (f k) := by
  rw [assign, lastValue, valuesOf]
  rcases hset : setting E a with _ | ⟨j, v⟩
  · simp [hset]
  · by_cases hk : k = j
    · simp [hset, hk]
    · have hne : ¬ j = k := fun heq => hk heq.symm
      simp [hset, hk, hne]

/-- After any number of assignments every setting has its last value. -/
theorem foldl_assign (k : Key) (calls : List Action) (f : Assignment) :
    calls.foldl (assign E) f k = (lastValue E k calls).or (f k) := by
  induction calls using List.reverseRecOn with
  | nil => rfl
  | append_singleton as a ih =>
      rw [List.foldl_append, List.foldl_cons, List.foldl_nil, lastValue_singleton, ih,
        lastValue_append, Option.or_assoc]

end Calls

/-! ## The settings of the server -/

/-- Every stub by the value that its table has for the key. -/
def inForce (primed : Primed) (verify_timeout : ℤ) : Assignment
  | .passwd => (primeGetPasswd primed).map .text
  | .timeout => some (.seconds verify_timeout)
  | .id id => (primed.idstubs.bind fun t => t.lookup id).map .text
  | .query query => (primed.querystubs.bind fun t => t.lookup query).map .stub
  | .xmlns xmlns => (primed.xmlnsstubs.bind fun t => t.lookup xmlns).map .stub

/-- The documented values where none is given. -/
def defaults : Assignment
  | .passwd => some (.text "password".toList)
  | .timeout => some (.seconds 10)
  | _ => none

def override (f : Assignment) (k : Key) : Assignment := fun j => if j = k then defaults k else f j

/-- A call that makes the tables if there are none. -/
def makesTables : Action → Bool
  | .forId _ _ => true
  | .forQuery _ _ => true
  | .forXmlns _ _ => true
  | _ => false

/-- One of the calls that are used to configure the server. -/
def isSetting : Action → Bool
  | .requiredPasswd _ => true
  | .setTimeout _ => true
  | a => makesTables a

/-- All three tables are there, or none. -/
inductive Tables : Primed → Bool → Prop
  | ready (passwd : Option Str) (ids : Table Str) (queries xmlns : Table (Option XMPPStanza)) :
      Tables ⟨passwd, some ids, some queries, some xmlns⟩ true
  | missing (passwd : Option Str) : Tables ⟨passwd, none, none, none⟩ false

theorem tables_primeInit {p : Primed} {b : Bool} (h : Tables p b) : Tables (primeInit p) true := by
  cases h with
  | ready passwd ids queries xmlns => exact .ready passwd ids queries xmlns
  | missing passwd => exact .ready _ [] [] []

/-- Making the tables sets the password to its default. -/
theorem inForce_primeInit {p : Primed} {b : Bool} (h : Tables p b) (timeout : ℤ) :
    inForce (primeInit p) timeout =
      if b then inForce p timeout else override (inForce p timeout) .passwd := by
  cases h with
  | ready passwd ids queries xmlns => rfl
  | missing passwd =>
      funext k
      cases k <;> rfl

theorem lookup_insert_map {α : Type} (t : Table α) (key : Str) (value : α) (k : Str)
    (f : α → Value) : ((t.insert key value).lookup k).map f =
      if k = key then some (f value) else (t.lookup k).map f := by
  rw [Table.lookup_insert]
  split_ifs <;> rfl

/-- What a call does to the tables and the timeout. -/
def settle (E : Expat) (primed : Primed) (timeout : ℤ) : Action → Except Fault (Primed × ℤ)
  | .requiredPasswd password => .ok (primeRequiredPasswd password primed, timeout)
  | .setTimeout seconds => .ok (primed, seconds)
  | .forId id stream => .ok (primeForId id stream primed, timeout)
  | .forQuery query stream => (primeForQuery E query stream primed).map (·, timeout)
  | .forXmlns xmlns stream => (primeForXmlns E xmlns stream primed).map (·, timeout)
  | _ => .ok (primed, timeout)

/-- With the tables made, a call gives its setting the value. -/
theorem settle_ready {E : Expat} {p q : Primed} {timeout timeout' : ℤ} {a : Action}
    (h : Tables p true) (ha : isSetting a = true)
    (hq : settle E p timeout a = .ok (q, timeout')) :
    Tables q true ∧ inForce q timeout' = assign E (inForce p timeout) a := by
  cases h with
  | ready passwd ids queries xmlns =>
      cases a with
      | requiredPasswd password =>
          cases hq
          refine ⟨.ready _ _ _ _, ?_⟩
          funext k
          cases k <;> rfl
      | setTimeout seconds =>
          cases hq
          refine ⟨.ready _ _ _ _, ?_⟩
          funext k
          cases k <;> rfl
      | forId id stream =>
          cases hq
          refine ⟨.ready _ _ _ _, ?_⟩
          funext k
          cases k with
          | id i => simp [inForce, primeForId, assign, setting, lookup_insert_map]
          | _ => rfl
      | forQuery query stream =>
          rcases hs : stanzaParse E stream with fault | stanza
          · simp only [settle, primeForQuery, hs] at hq
            cases hq
          · simp only [settle, primeForQuery, hs] at hq
            cases hq
            refine ⟨.ready _ _ _ _, ?_⟩
            funext k
            cases k with
            | query i => simp [inForce, assign, setting, hs, lookup_insert_map]
            | _ => simp [inForce, assign, setting, hs, primeGetPasswd]
      | forXmlns xmlns stream =>
          rcases hs : stanzaParse E stream with fault | stanza
          · simp only [settle, primeForXmlns, hs] at hq
            cases hq
          · simp only [settle, primeForXmlns, hs] at hq
            cases hq
            refine ⟨.ready _ _ _ _, ?_⟩
            funext k
            cases k with
            | xmlns i => simp [inForce, assign, setting, hs, lookup_insert_map]
            | _ => simp [inForce, assign, setting, hs, primeGetPasswd]
      | _ => cases ha

/-- A stub call makes the tables first. -/
theorem settle_primeInit {E : Expat} {p : Primed} {b : Bool} (h : Tables p b) (timeout : ℤ)
    {a : Action} (ha : makesTables a = true) :
    settle E p timeout a = settle E (primeInit p) timeout a := by
  cases h with
  | ready passwd ids queries xmlns => rfl
  | missing passwd =>
      cases a with
      | forId | forQuery | forXmlns => rfl
      | _ => cases ha

/-- The other calls leave missing tables missing. -/
theorem settle_missing {E : Expat} {p q : Primed} {timeout timeout' : ℤ} {a : Action}
    (h : Tables p false) (ha : isSetting a = true) (hmakes : makesTables a = false)
    (hq : settle E p timeout a = .ok (q, timeout')) :
    Tables q false ∧ inForce q timeout' = assign E (inForce p timeout) a := by
  cases h with
  | missing passwd =>
      cases a with
      | requiredPasswd | setTimeout =>
          cases hq
          refine ⟨.missing _, ?_⟩
          funext k
          cases k <;> rfl
      | forId | forQuery | forXmlns => cases hmakes
      | _ => cases ha

/-! ## Calls and starts -/

section Runs
variable {S : Setting}

/-- The tables made or missing, and the settings in force. -/
structure Has (w : World) (ready : Bool) (f : Assignment) : Prop where
  tables : Tables w.shared.primed ready
  inForce : inForce w.shared.primed w.shared.verify_timeout = f

/-- The caller is between two calls, and the server runs or not. -/
structure Between (w : World) (running : Bool) : Prop where
  caller : w.caller = .idle
  stbbr_running : w.stbbr_running = running

/-- A call that sets something does it, or ends the process. -/
theorem settle_of_step {s t : State} {a : Action} (ha : isSetting a = true)
    (h : Server.step S s a = some t) (hcrash : t.pc.isCrashed = false) :
    settle S.expat s.primed s.verify_timeout a = .ok (t.primed, t.verify_timeout) := by
  have hdead := running_of_step h
  unfold Server.step at h
  rw [if_neg hdead] at h
  cases a with
  | requiredPasswd | setTimeout | forId =>
      cases h
      rfl
  | forQuery query stream =>
      cases h
      rcases hr : primeForQuery S.expat query stream s.primed with fault | primed
      · rw [hr] at hcrash
        cases hcrash
      · rw [settle, hr]
        rfl
  | forXmlns xmlns stream =>
      cases h
      rcases hr : primeForXmlns S.expat xmlns stream s.primed with fault | primed
      · rw [hr] at hcrash
        cases hcrash
      · rw [settle, hr]
        rfl
  | _ => cases ha

theorem settle_of_call {w v : World} {a : Action} {running : Bool} (hw : Between w running)
    (ha : isSetting a = true) (h : Lifecycle.step S w (.call a) = some v)
    (hcrash : v.crashed = false) : Between v running ∧
      settle S.expat w.shared.primed w.shared.verify_timeout a =
        .ok (v.shared.primed, v.shared.verify_timeout) := by
  cases step_turn h with
  | call a hcall =>
      unfold World.call at hcall
      split_ifs at hcall
      obtain ⟨t, ht, rfl⟩ := Option.map_eq_some_iff.mp hcall
      have hsettle := settle_of_step ha ht hcrash
      exact ⟨⟨hw.caller, hw.stbbr_running⟩, hsettle⟩

section Call
variable {w v : World} {f : Assignment} {running : Bool} {a : Action} (hw : Between w running)
  (ha : isSetting a = true) (h : Lifecycle.step S w (.call a) = some v) (hcrash : v.crashed = false)
include hw ha h hcrash

theorem Has.call (hf : Has w true f) : Between v running ∧ Has v true (assign S.expat f a) := by
  obtain ⟨hv, hsettle⟩ := settle_of_call hw ha h hcrash
  obtain ⟨htables, hassign⟩ := settle_ready hf.tables ha hsettle
  rw [hf.inForce] at hassign
  exact ⟨hv, htables, hassign⟩

theorem Has.call_missing (hf : Has w false f) (hmakes : makesTables a = false) :
    Between v running ∧ Has v false (assign S.expat f a) := by
  obtain ⟨hv, hsettle⟩ := settle_of_call hw ha h hcrash
  obtain ⟨htables, hassign⟩ := settle_missing hf.tables ha hmakes hsettle
  rw [hf.inForce] at hassign
  exact ⟨hv, htables, hassign⟩

/-- The first call that makes the tables. -/
theorem Has.call_making (hf : Has w false f) (hmakes : makesTables a = true) :
    Between v running ∧ Has v true (assign S.expat (override f .passwd) a) := by
  obtain ⟨hv, hsettle⟩ := settle_of_call hw ha h hcrash
  rw [settle_primeInit hf.tables _ hmakes] at hsettle
  obtain ⟨htables, hassign⟩ := settle_ready (tables_primeInit hf.tables) ha hsettle
  rw [inForce_primeInit hf.tables, if_neg Bool.false_ne_true, hf.inForce] at hassign
  exact ⟨hv, htables, hassign⟩

end Call

/-- After calls with the tables made every setting has its last value. -/
theorem Has.calls {calls : List Action} {w v : World} {f : Assignment} {running : Bool}
    (hw : Between w running) (hf : Has w true f) (hcalls : ∀ a ∈ calls, isSetting a = true)
    (h : run (Lifecycle.step S) w (calls.map .call) = some v) (hcrash : v.crashed = false) :
    Between v running ∧ Has v true (calls.foldl (assign S.expat) f) := by
  induction calls generalizing w f with
  | nil =>
      cases h
      exact ⟨hw, hf⟩
  | cons a calls ih =>
      rw [List.map_cons, run] at h
      obtain ⟨u, hu, hrest⟩ := Option.bind_eq_some_iff.mp h
      have hcrashed := not_crashed_of_run hrest hcrash
      have ha : isSetting a = true := hcalls a List.mem_cons_self
      obtain ⟨hbetween, hhas⟩ := hf.call hw ha hu hcrashed
      exact ih hbetween hhas (fun b hb => hcalls b (List.mem_cons_of_mem _ hb)) hrest

/-- What calls have set when the tables are missing at first: the first call that makes
them overrides the password. -/
def settled (E : Expat) (f : Assignment) (calls : List Action) : Assignment :=
  let early := calls.takeWhile fun a => !makesTables a
  let late := calls.dropWhile fun a => !makesTables a
  late.foldl (assign E) (override (early.foldl (assign E) f) .passwd)

/-- After calls before the start, once the tables are made. -/
theorem Has.calls_missing {calls : List Action} {w v : World} {f : Assignment} {running : Bool}
    (hw : Between w running) (hf : Has w false f) (hcalls : ∀ a ∈ calls, isSetting a = true)
    (h : run (Lifecycle.step S) w (calls.map .call) = some v) (hcrash : v.crashed = false) :
    Between v running ∧ ∃ ready g, Has v ready g ∧
      (if ready then g else override g .passwd) = settled S.expat f calls := by
  induction calls generalizing w f with
  | nil =>
      cases h
      exact ⟨hw, false, f, hf, rfl⟩
  | cons a calls ih =>
      rw [List.map_cons, run] at h
      obtain ⟨u, hu, hrest⟩ := Option.bind_eq_some_iff.mp h
      have hcrashed := not_crashed_of_run hrest hcrash
      have ha : isSetting a = true := hcalls a List.mem_cons_self
      have hothers : ∀ b ∈ calls, isSetting b = true :=
        fun b hb => hcalls b (List.mem_cons_of_mem _ hb)
      rcases hmakes : makesTables a with _ | _
      · obtain ⟨hbetween, hhas⟩ := hf.call_missing hw ha hu hcrashed hmakes
        have hsettled : settled S.expat f (a :: calls) =
            settled S.expat (assign S.expat f a) calls := by
          simp [settled, hmakes]
        rw [hsettled]
        exact ih hbetween hhas hothers hrest
      · obtain ⟨hbetween, hhas⟩ := hf.call_making hw ha hu hcrashed hmakes
        obtain ⟨hend, hall⟩ := hhas.calls hbetween hothers hrest hcrash
        have hsettled : settled S.expat f (a :: calls) =
            calls.foldl (assign S.expat) (assign S.expat (override f .passwd) a) := by
          simp [settled, hmakes]
        rw [hsettled]
        exact ⟨hend, true, _, hall, rfl⟩

theorem running_of_calls {calls : List Action} {w v : World}
    (h : run (Lifecycle.step S) w (calls.map .call) = some v) :
    v.stbbr_running = w.stbbr_running := by
  induction calls generalizing w with
  | nil =>
      cases h
      rfl
  | cons a calls ih =>
      rw [List.map_cons, run] at h
      obtain ⟨u, hu, hrest⟩ := Option.bind_eq_some_iff.mp h
      rw [ih hrest]
      cases step_turn hu with
      | call a hcall =>
          obtain ⟨_, _, rfl, -⟩ := call_changes hcall
          rfl

/-- The steps of a call of `stbbr_start` whose daemon, if one is wanted, starts. -/
def startActs (port httpport : ℤ) (os : Outcomes) : List Act :=
  [.start port httpport, .run os] ++ if 0 < httpport then [.httpStarted true] else []

/-- What `server_run` leaves if the start goes on to succeed. -/
theorem serverRun_settings {w v : World} {port httpport : ℤ} {os : Outcomes}
    (h : run (Lifecycle.step S) (w.serverRun os port httpport)
      (if 0 < httpport then [.httpStarted true] else []) = some v)
    (hv : v.stbbr_running = true) (hw : w.stbbr_running = false) : Between v true ∧
      v.shared.primed = primeInit w.shared.primed ∧ v.shared.verify_timeout = 10 := by
  rcases serverRun_cases w os port httpport with
    ⟨fd, sockets, primed, port', heq⟩ | ⟨u, port', hcreated, -, heq⟩
  · rw [heq] at h
    split_ifs at h
    · rw [run] at h
      obtain ⟨x, hx, -⟩ := Option.bind_eq_some_iff.mp h
      cases step_turn hx with
      | httpStarted _ hcaller => cases hcaller
    · cases h
      have hfalse : w.stbbr_running = true := hv
      rw [hw] at hfalse
      cases hfalse
  · obtain ⟨fd, sockets, hsame⟩ := createSocket_changes w.reset os port
    rw [hcreated] at hsame
    change u = _ at hsame
    rw [heq] at h
    split_ifs at h
    · rw [run] at h
      obtain ⟨x, hx, hend⟩ := Option.bind_eq_some_iff.mp h
      cases hend
      cases step_turn hx with
      | httpStarted _ hcaller =>
          cases hcaller
          rw [hsame]
          exact ⟨⟨rfl, rfl⟩, rfl, rfl⟩
    · cases h
      rw [hsame]
      exact ⟨⟨rfl, rfl⟩, rfl, rfl⟩

/-- A start that succeeds makes the tables and sets the timeout. -/
theorem Has.start {w v : World} {port httpport : ℤ} {os : Outcomes} {ready : Bool}
    {f : Assignment} (hw : Between w false) (hf : Has w ready f)
    (h : run (Lifecycle.step S) w (startActs port httpport os) = some v)
    (hv : v.stbbr_running = true) : Between v true ∧
      Has v true (override (if ready then f else override f .passwd) .timeout) := by
  unfold startActs at h
  rw [run_append, run] at h
  obtain ⟨x, hx, hrest⟩ := Option.bind_eq_some_iff.mp h
  obtain ⟨y, hy, hrun⟩ := Option.bind_eq_some_iff.mp hx
  rw [run] at hrun
  obtain ⟨x', hx', heq⟩ := Option.bind_eq_some_iff.mp hrun
  cases heq
  cases step_turn hy with
  | startAgain _ _ _ hrunning =>
      rw [hw.stbbr_running] at hrunning
      cases hrunning
  | start =>
      cases step_turn hx' with
      | run _ hcaller _ =>
          cases hcaller
          obtain ⟨hbetween, hprimed, htimeout⟩ := serverRun_settings hrest hv hw.stbbr_running
          have htables := tables_primeInit hf.tables
          refine ⟨hbetween, ?_, ?_⟩
          · rw [hprimed]
            exact tables_primeInit htables
          · rw [hprimed, htimeout]
            change Settings.inForce (primeInit (primeInit w.shared.primed)) 10 = _
            rw [inForce_primeInit htables, if_pos rfl, ← hf.inForce,
              ← inForce_primeInit hf.tables]
            funext k
            cases k <;> rfl

end Runs

/-- The values given first are not missed where the setting is reset after them: another
is given later, or the last of them is the default. -/
def Keeps (E : Expat) (k : Key) (early late : List Action) : Prop :=
  lastValue E k late ≠ none ∨ lastValue E k early = none ∨ lastValue E k early = defaults k

/-- Every setting has the last value given, or its default. -/
def TakesEffect (E : Expat) (calls : List Action) (w : World) : Prop :=
  ∀ k, inForce w.shared.primed w.shared.verify_timeout k = (lastValue E k calls).or (defaults k)

theorem override_of_ne {f : Assignment} {k j : Key} (h : j ≠ k) : override f k j = f j :=
  if_neg h

theorem override_self (f : Assignment) (k : Key) : override f k k = defaults k := if_pos rfl

/-- A reset between them is not noticed only if the early values are not missed. -/
theorem keeps_iff (E : Expat) (k : Key) (early late : List Action) :
    (lastValue E k late).or (defaults k) =
      (lastValue E k (early ++ late)).or (defaults k) ↔ Keeps E k early late := by
  rw [lastValue_append]
  unfold Keeps
  rcases hlate : lastValue E k late with _ | v
  · rcases hearly : lastValue E k early with _ | u
    · simp
    · rw [Option.none_or, Option.none_or, Option.some_or]
      constructor
      · intro h
        exact Or.inr (Or.inr h.symm)
      · intro h
        rcases h with h | h | h
        · exact absurd rfl h
        · cases h
        · exact h.symm
  · simp

/-- Before any call the tables are missing. -/
theorem has_init : Has World.init false
    (inForce World.init.shared.primed World.init.shared.verify_timeout) :=
  ⟨.missing none, rfl⟩

theorem between_init : Between World.init false := ⟨rfl, rfl⟩

/-- The calls up to the first one that makes the tables. -/
def early (calls : List Action) : List Action := calls.takeWhile fun a => !makesTables a

/-- That call and the ones after it. -/
def late (calls : List Action) : List Action := calls.dropWhile fun a => !makesTables a

/-- The settings at the end of all runs with one start. -/
theorem inForce_of_run {S : Setting} {before after : List Action} {port httpport : ℤ}
    {os : Outcomes} {w : World} (hbefore : ∀ a ∈ before, isSetting a = true)
    (hafter : ∀ a ∈ after, isSetting a = true)
    (h : run (Lifecycle.step S) World.init
      (before.map .call ++ startActs port httpport os ++ after.map .call) = some w)
    (hrunning : w.stbbr_running = true) (hcrash : w.crashed = false) :
    inForce w.shared.primed w.shared.verify_timeout =
      after.foldl (assign S.expat) (override (settled S.expat
        (inForce World.init.shared.primed World.init.shared.verify_timeout) before) .timeout) := by
  rw [run_append, run_append] at h
  obtain ⟨v, hv, hlast⟩ := Option.bind_eq_some_iff.mp h
  obtain ⟨u, hu, hstart⟩ := Option.bind_eq_some_iff.mp hv
  have hcrashv := not_crashed_of_run hlast hcrash
  have hcrashu := not_crashed_of_run hstart hcrashv
  obtain ⟨hbetween, ready, g, hg, hsettled⟩ :=
    has_init.calls_missing between_init hbefore hu hcrashu
  rw [running_of_calls hlast] at hrunning
  obtain ⟨hstarted, hv⟩ := hg.start hbetween hstart hrunning
  rw [hsettled] at hv
  exact (hv.calls hstarted hafter hlast hcrash).2.inForce

theorem settled_eq (E : Expat) (f : Assignment) (calls : List Action) (k : Key) :
    settled E f calls k = (lastValue E k (late calls)).or
      (override ((early calls).foldl (assign E) f) .passwd k) := foldl_assign E k _ _

theorem early_append_late (calls : List Action) : early calls ++ late calls = calls :=
  List.takeWhile_append_dropWhile

/-- A password has effect unless the tables are made after it, and a timeout unless the
start comes after it. The stubs always have. -/
theorem takesEffect_iff {S : Setting} {before after : List Action} {port httpport : ℤ}
    {os : Outcomes} {w : World} (hbefore : ∀ a ∈ before, isSetting a = true)
    (hafter : ∀ a ∈ after, isSetting a = true)
    (h : run (Lifecycle.step S) World.init
      (before.map .call ++ startActs port httpport os ++ after.map .call) = some w)
    (hrunning : w.stbbr_running = true) (hcrash : w.crashed = false) :
    TakesEffect S.expat (before ++ after) w ↔
      Keeps S.expat .passwd (early before) (late before ++ after) ∧
        Keeps S.expat .timeout before after := by
  have hend := inForce_of_run hbefore hafter h hrunning hcrash
  have hsplit := early_append_late before
  have hpasswd : inForce w.shared.primed w.shared.verify_timeout .passwd =
      (lastValue S.expat .passwd (late before ++ after)).or (defaults .passwd) := by
    rw [hend, foldl_assign, override_of_ne (by simp), settled_eq, override_self,
      lastValue_append, Option.or_assoc]
  have htimeout : inForce w.shared.primed w.shared.verify_timeout .timeout =
      (lastValue S.expat .timeout after).or (defaults .timeout) := by
    rw [hend, foldl_assign, override_self]
  have hstubs : ∀ k, k ≠ .passwd → k ≠ .timeout →
      inForce w.shared.primed w.shared.verify_timeout k =
        (lastValue S.expat k (before ++ after)).or (defaults k) := by
    intro k hp ht
    have hinit : inForce World.init.shared.primed World.init.shared.verify_timeout k =
        defaults k := by
      cases k with
      | passwd => exact absurd rfl hp
      | timeout => exact absurd rfl ht
      | _ => rfl
    have hlast : lastValue S.expat k before =
        (lastValue S.expat k (late before)).or (lastValue S.expat k (early before)) := by
      rw [← lastValue_append, hsplit]
    rw [hend, foldl_assign, override_of_ne ht, settled_eq, override_of_ne hp, foldl_assign,
      hinit, lastValue_append, hlast, Option.or_assoc, Option.or_assoc]
  rw [← keeps_iff, ← keeps_iff, ← hpasswd, ← htimeout, ← List.append_assoc, hsplit]
  constructor
  · intro hall
    exact ⟨hall .passwd, hall .timeout⟩
  · intro hboth k
    by_cases hp : k = .passwd
    · rw [hp]
      exact hboth.1
    · by_cases ht : k = .timeout
      · rw [ht]
        exact hboth.2
      · exact hstubs k hp ht

/-- Runs that have effect end with the same settings, if each setting is given the same
values in the same order. -/
theorem TakesEffect.same {E : Expat} {calls calls' : List Action} {w w' : World}
    (h : TakesEffect E calls w) (h' : TakesEffect E calls' w')
    (hsame : ∀ k, valuesOf E k calls = valuesOf E k calls') :
    inForce w.shared.primed w.shared.verify_timeout =
      inForce w'.shared.primed w'.shared.verify_timeout := by
  funext k
  rw [h k, h' k, lastValue, lastValue, hsame k]

/-- With the start first nothing is missed. -/
theorem keeps_nil (E : Expat) (k : Key) (late : List Action) : Keeps E k [] late :=
  Or.inr (Or.inl rfl)

/-- A run of these calls with the start between them. -/
def configured (before after : List Action) : Option World :=
  run (Lifecycle.step Setting.plain) World.init
    (before.map .call ++ startActs 5230 0 (allSucceed 3) ++ after.map .call)

/-- They end without a fault, and the server runs. -/
def Configured (before after : List Action) (w : World) : Prop :=
  configured before after = some w ∧ w.stbbr_running = true ∧ w.crashed = false

/-- The test of a run that ends with this password and this timeout. -/
def endsWith (before after : List Action) (passwd : Str) (timeout : ℤ) : Bool :=
  (configured before after).any fun w => w.stbbr_running && !w.crashed &&
    (w.shared.primed.required_passwd == some passwd && w.shared.verify_timeout == timeout)

theorem configured_of_endsWith {before after : List Action} {passwd : Str} {timeout : ℤ}
    (h : endsWith before after passwd timeout = true) : ∃ w, Configured before after w ∧
      inForce w.shared.primed w.shared.verify_timeout .passwd = some (.text passwd) ∧
      inForce w.shared.primed w.shared.verify_timeout .timeout = some (.seconds timeout) := by
  obtain ⟨w, hrun, hw⟩ := (Option.any_eq_true _ _).mp h
  simp only [Bool.and_eq_true, Bool.not_eq_true', beq_iff_eq] at hw
  obtain ⟨hends, hpasswd, htimeout⟩ := hw
  refine ⟨w, ⟨hrun, hends⟩, ?_, ?_⟩
  · rw [inForce, primeGetPasswd, hpasswd]
    rfl
  · rw [inForce, htimeout]

def secret : Action := .requiredPasswd "secret".toList

/-- A stub first, so that the password is kept, and the timeout after the start. -/
theorem configured_takesEffect : ∃ w,
    Configured [.forId "1".toList "<iq/>".toList, secret] [.setTimeout 3] w ∧
      TakesEffect Setting.plain.expat
        [.forId "1".toList "<iq/>".toList, secret, .setTimeout 3] w := by
  have hchecked : endsWith [.forId "1".toList "<iq/>".toList, secret] [.setTimeout 3]
      "secret".toList 3 = true := by decide +kernel
  obtain ⟨w, hw, -⟩ := configured_of_endsWith hchecked
  have hbefore : ∀ a ∈ [.forId "1".toList "<iq/>".toList, secret], isSetting a = true := by
    simp [secret, isSetting, makesTables]
  have hafter : ∀ a ∈ [Action.setTimeout 3], isSetting a = true := by simp [isSetting]
  have hmissed : ∀ k late, Keeps Setting.plain.expat k [] late := keeps_nil _
  refine ⟨w, hw, (takesEffect_iff hbefore hafter hw.1 hw.2.1 hw.2.2).mpr ⟨hmissed _ _, ?_⟩⟩
  exact Or.inr (Or.inl rfl)

/-- With the start before this call the setting has the value given, and after it the
default. -/
def PositionMatters (a : Action) (k : Key) : Prop :=
  ∃ w w', Configured [] [a] w ∧ Configured [a] [] w' ∧
    inForce w.shared.primed w.shared.verify_timeout k = lastValue Setting.plain.expat k [a] ∧
    inForce w'.shared.primed w'.shared.verify_timeout k = defaults k ∧
    ¬ TakesEffect Setting.plain.expat [a] w'

theorem not_takesEffect {E : Expat} {calls : List Action} {w : World} {k : Key} {v : Value}
    (hv : lastValue E k calls = some v) (hne : defaults k ≠ some v)
    (h : inForce w.shared.primed w.shared.verify_timeout k = defaults k) :
    ¬ TakesEffect E calls w := by
  intro hall
  have hk := hall k
  rw [hv, h, Option.some_or] at hk
  exact hne hk

/-- A password and a timeout given before the start are lost. -/
theorem settings_lost : PositionMatters secret .passwd ∧
    PositionMatters (.setTimeout 3) .timeout := by
  constructor
  · have hafter : endsWith [] [secret] "secret".toList 10 = true := by decide +kernel
    have hbefore : endsWith [secret] [] "password".toList 10 = true := by decide +kernel
    obtain ⟨w, hw, hgiven, -⟩ := configured_of_endsWith hafter
    obtain ⟨w', hw', hdefault, -⟩ := configured_of_endsWith hbefore
    have hne : defaults .passwd ≠ some (.text "secret".toList) := by simp [defaults]
    exact ⟨w, w', hw, hw', hgiven, hdefault, not_takesEffect rfl hne hdefault⟩
  · have hafter : endsWith [] [.setTimeout 3] "password".toList 3 = true := by decide +kernel
    have hbefore : endsWith [.setTimeout 3] [] "password".toList 10 = true := by decide +kernel
    obtain ⟨w, hw, -, hgiven⟩ := configured_of_endsWith hafter
    obtain ⟨w', hw', -, hdefault⟩ := configured_of_endsWith hbefore
    have hne : defaults .timeout ≠ some (.seconds 3) := by simp [defaults]
    exact ⟨w, w', hw, hw', hgiven, hdefault, not_takesEffect rfl hne hdefault⟩

end Stabber.Settings
