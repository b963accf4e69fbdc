import Stabber.ReplyIds
import Stabber.ServerSteps

/-!
# From which address a default reply comes

`query_callback` is given the id of a request and finds the address by searching the
store for the id. Which stanza it finds depends on what is stored at that time.
-/

namespace Stabber.DiscoReplies
open XmlDocument Stanza StanzaParse Stanzas StanzaHistory StreamParser StreamTree Priming
open Callbacks Transition Server State ReplyIds

/-! ## The request that is being answered -/

/-- The calls that are left belong to the stream header, to a stanza that is added next,
or to the last stanza that has been added. -/
inductive Pending (arrived : List XMPPStanza) : List (Call XMPPStanza) → Prop
  | done : Pending arrived []
  | header : Pending arrived [.streamStart]
  | received (stanza : XMPPStanza) : Pending arrived (.add stanza :: dispatch stanza stanza)
  | answering {stanza : XMPPStanza} {calls : List (Call XMPPStanza)} :
      arrived.getLast? = some stanza → calls <:+ dispatch stanza stanza → Pending arrived calls

theorem handle_one_arrival {p p' : TreeParser} {e : Event} (hempty : p.arrivals = [])
    (h : p.handle e = .ok p') :
    p'.arrivals = [] ∨ p'.arrivals = [.header] ∨ ∃ stanza, p'.arrivals = [.stanza stanza] := by
  cases e with
  | start n as =>
      cases h
      change p.arrivals ++ TreeParser.header n = _ ∨ p.arrivals ++ TreeParser.header n = _ ∨ _
      rw [hempty, List.nil_append, TreeParser.header]
      split_ifs
      · exact Or.inr (Or.inl rfl)
      · exact Or.inl rfl
  | stop n =>
      change p.endElement = .ok p' at h
      unfold TreeParser.endElement at h
      split_ifs at h with h₁ h₂
      · split at h
        · cases h
          exact Or.inl hempty
        · cases h
      · split at h
        · cases h
          rw [hempty, List.nil_append]
          exact Or.inr (Or.inr ⟨_, rfl⟩)
        · cases h
      · cases h
        exact Or.inl hempty
  | data text =>
      change p.handleData text = .ok p' at h
      unfold TreeParser.handleData at h
      split_ifs at h
      · split at h
        · cases h
          exact Or.inl hempty
        · cases h
      · cases h
        exact Or.inl hempty

theorem pending_event {p p' : TreeParser} {e : Event} (arrived : List XMPPStanza)
    (h : TreeParser.handle { p with arrivals := [] } e = .ok p') :
    Pending arrived (p'.arrivals.flatMap (Arrival.calls (fun t => t) fun t => t)) := by
  rcases handle_one_arrival rfl h with hnone | hheader | ⟨stanza, hstanza⟩
  · rw [hnone]
    exact .done
  · rw [hheader]
    exact .header
  · rw [hstanza, List.flatMap_singleton]
    exact .received stanza

theorem add_not_dispatched {s stanza : XMPPStanza} : Call.add s ∉ dispatch stanza stanza := by
  intro hmem
  cases hauth : stanzaGetChildByNs (some stanza) "jabber:iq:auth".toList with
  | some child =>
      rw [dispatch_of_auth stanza hauth, List.mem_singleton] at hmem
      cases hmem
  | none =>
      rcases (mem_dispatch _ hauth).mp hmem with ⟨_, _, h⟩ | ⟨_, _, h⟩ | ⟨_, _, h⟩
      · cases h
      · cases h
      · cases h

/-- One call of those that are left. -/
theorem pending_call {s : State} {c : Call XMPPStanza} {calls : List (Call XMPPStanza)}
    (h : Pending s.arrived (c :: calls)) : Pending (s.record c).arrived calls := by
  cases h with
  | header => exact .done
  | received stanza => exact .answering List.getLast?_concat List.suffix_rfl
  | answering hlast hsuffix =>
      have hcalls := (List.suffix_cons c calls).trans hsuffix
      cases c with
      | add stanza => exact (add_not_dispatched (hsuffix.mem List.mem_cons_self)).elim
      | streamStart => exact .answering hlast hcalls
      | auth stanza => exact .answering hlast hcalls
      | id name i => exact .answering hlast hcalls
      | query query i => exact .answering hlast hcalls
      | xmlns xmlns i => exact .answering hlast hcalls

/-- Between a connection and its end there is a client. -/
def connected : Pc → Bool
  | .accepting => false
  | .finished => false
  | .crashed => false
  | _ => true

structure Answering (s : State) : Prop where
  client : connected s.pc = true → s.client.isSome = true
  pending : ∀ chunk events calls replies, s.pc = .feeding chunk events calls replies →
    Pending s.arrived calls

/-- Where no calls are left. -/
theorem answering_elsewhere {s : State} (hclient : connected s.pc = true → s.client.isSome = true)
    (hpc : ∀ chunk events calls replies, s.pc ≠ .feeding chunk events calls replies) :
    Answering s where
  client := hclient
  pending chunk events calls replies heq := (hpc chunk events calls replies heq).elim

theorem answering_start {s : State} (hs : Started s) : Answering s := by
  apply answering_elsewhere
  · intro hconn
    rw [hs.pc] at hconn
    cases hconn
  · intro chunk events calls replies heq
    rw [hs.pc] at heq
    cases heq

theorem answering_step {S : Setting} {s t : State} {a : Action} (h : Answering s)
    (hstep : Step S s a t) : Answering t := by
  have hclient : ∀ {pc : Pc}, s.pc = pc → connected pc = true → s.client.isSome = true := by
    intro pc hpc hconn
    apply h.client
    rw [hpc]
    exact hconn
  cases hstep with
  | quiet a primed timeout hchunk => exact { h with }
  | crash a => exact answering_elsewhere (fun hconn => nomatch hconn) (by simp [crash])
  | send stream hlock => exact { h with }
  | verifyAny template clear => exact { h with }
  | stop => exact { h with }
  | leave a hpc => exact answering_elsewhere (fun hconn => nomatch hconn) (by simp)
  | connected hpc => exact answering_elsewhere (fun _ => rfl) (by simp)
  | again hpc => exact answering_elsewhere (fun _ => hclient hpc rfl) (by simp)
  | data chunk events hpc =>
      constructor
      · exact fun _ => hclient hpc rfl
      · intro chunk' events' calls replies heq
        cases heq
        exact .done
  | write hw hwrite => exact { h with }
  | returned hw hsend => exact { h with }
  | shutdown hw hpc hkill =>
      exact answering_elsewhere (fun hconn => nomatch hconn) (by simp [State.shutdown])
  | lock hw hpc hkill => exact answering_elsewhere (fun _ => hclient hpc rfl) (by simp)
  | take hw hpc => exact answering_elsewhere (fun _ => hclient hpc rfl) (by simp)
  | unlock hw hpc => exact answering_elsewhere (fun _ => hclient hpc rfl) (by simp)
  | reply hw hpc =>
      constructor
      · exact fun _ => hclient hpc rfl
      · intro chunk' events' calls' replies' heq
        cases heq
        exact h.pending _ _ _ _ hpc
  | @call _ _ _ c _ _ _ hw hpc _ hcall =>
      constructor
      · exact fun _ => rfl
      · intro chunk' events' calls' replies' heq
        cases heq
        exact pending_call (h.pending _ _ _ _ hpc)
  | event hw hpc hevent =>
      constructor
      · exact fun _ => hclient hpc rfl
      · intro chunk' events' calls' replies' heq
        cases heq
        exact pending_event s.arrived hevent
  | next hw hpc hend => exact answering_elsewhere (fun _ => hclient hpc rfl) (by simp)
  | streamEnd hw hpc hend => exact answering_elsewhere (fun _ => hclient hpc rfl) (by simp)
  | kill hw hpc => exact answering_elsewhere (fun _ => hclient hpc rfl) (by simp)

theorem answering_of_runs {S : Setting} {s t : State} {as : List Action}
    {ok : State → Action → Prop} (hs : Started s) (h : Runs (step S) ok s as t) :
    Answering t := by
  apply h.invariant (answering_start hs)
  intro u a v hu _ hstep
  exact answering_step hu (step_cases hstep)

/-- A query call that is left is for the last stanza that has arrived. -/
theorem request_of_pending {arrived : List XMPPStanza} {query id : Str}
    {calls : List (Call XMPPStanza)} (h : Pending arrived (.query query (some id) :: calls)) :
    ∃ request, arrived.getLast? = some request ∧ stanzaGetId (some request) = some id ∧
      stanzaGetQueryRequest request = some query := by
  cases h with
  | @answering request _ hlast hsuffix =>
      have hmem : Call.query query (some id) ∈ dispatch request request :=
        hsuffix.mem List.mem_cons_self
      refine ⟨request, hlast, ?_⟩
      cases hauth : stanzaGetChildByNs (some request) "jabber:iq:auth".toList with
      | some child =>
          rw [dispatch_of_auth request hauth, List.mem_singleton] at hmem
          cases hmem
      | none =>
          rcases (mem_dispatch _ hauth).mp hmem with ⟨_, _, h⟩ | ⟨query', hquery, h⟩ | ⟨_, _, h⟩
          · cases h
          · injection h with hname hid
            rw [hname] at hquery
            exact ⟨hid, hquery⟩
          · cases h

/-! ## The address of a default reply -/

/-- The address that a request is for. -/
def asked (request : XMPPStanza) : Str :=
  (stanzaGetAttr request "to".toList).getD "localhost".toList

/-- The first stored stanza with the id of the request is for the same address, or none
is stored and the request is for `localhost`. -/
def Attributed (request : XMPPStanza) (id : Str) (store : List XMPPStanza) : Prop :=
  match store.find? fun stanza => stanzaGetId (some stanza) = some id with
  | some first => asked first = asked request
  | none => asked request = "localhost".toList

/-- The default reply to a disco query, from an address. -/
def defaultReply (env : Env) (query id from_jid : Str) : Str :=
  if query = discoItemsNs then discoItems (some id) from_jid else discoInfo env (some id) from_jid

theorem resultTag_inj {id a b rest : Str}
    (h : resultTag id a ++ rest = resultTag id b ++ rest) : a = b := by
  have htag := List.append_cancel_right h
  unfold resultTag at htag
  exact List.append_cancel_left (List.append_cancel_right htag)

/-- The reply shows the address. -/
theorem defaultReply_inj (env : Env) (query id : Str) {a b : Str} :
    defaultReply env query id a = defaultReply env query id b ↔ a = b := by
  constructor
  · intro h
    unfold defaultReply at h
    split_ifs at h
    · rw [discoItems_eq, discoItems_eq] at h
      exact resultTag_inj h
    · rw [discoInfo_eq, discoInfo_eq] at h
      exact resultTag_inj h
  · intro h
    rw [h]

theorem address_eq_asked_iff (request : XMPPStanza) (id : Str) (store : List XMPPStanza) :
    address store id = asked request ↔ Attributed request id store := by
  have hfind : ∀ s : XMPPStanza, ((stanzaGetId (some s)).isSome &&
      decide (stanzaGetId (some s) = some id)) = decide (stanzaGetId (some s) = some id) := by
    intro s
    cases stanzaGetId (some s) with
    | none => rfl
    | some i => rfl
  unfold address stanzasGetToById Attributed
  simp only [hfind]
  cases store.find? fun stanza => stanzaGetId (some stanza) = some id with
  | none => exact eq_comm
  | some first => exact Iff.rfl

theorem queryCallback_default {E : Expat} {env : Env} {primed : Primed} {query : Str}
    (received : List XMPPStanza) (id : Str) (hdisco : isDisco query = true)
    (hstub : primeGetForQuery primed query = none) :
    queryCallback E env primed received query (some id) =
      .ok [defaultReply env query id (address received id)] := by
  unfold queryCallback defaultReply address
  rw [hstub]
  dsimp only
  by_cases hitems : query = discoItemsNs
  · rw [if_pos hitems, if_pos hitems]
  · have hinfo : query = discoInfoNs := by simpa [isDisco, hitems] using hdisco
    rw [if_neg hitems, if_neg hitems, if_pos hinfo]

/-- The step that makes the call. -/
theorem step_default_reply (S : Setting) {t : State} {chunk : List UInt8} {events : List Event}
    {query id : Str} {calls : List (Call XMPPStanza)} (h : Answering t)
    (hw : t.writing = none)
    (hpc : t.pc = .feeding chunk events (.query query (some id) :: calls) [])
    (hdisco : isDisco query = true) (hstub : primeGetForQuery t.primed query = none) :
    (step S t .thread).map State.pc = some (.feeding chunk events calls
      [defaultReply S.env query id (address t.received_stanzas id)]) := by
  have hclient : t.client.isSome = true := by
    apply h.client
    rw [hpc]
    rfl
  obtain ⟨client, hclient⟩ := Option.isSome_iff_exists.mp hclient
  have hcall : callback (t.context S client) (.query query (some id)) =
      .ok (client, [defaultReply S.env query id (address t.received_stanzas id)]) := by
    change (queryCallback S.expat S.env t.primed t.received_stanzas query (some id)).map _ = _
    rw [queryCallback_default _ id hdisco hstub]
    rfl
  have hcrash : ¬ t.pc.isCrashed = true := by
    rw [hpc]
    exact Bool.false_ne_true
  rw [step, if_neg hcrash]
  rw [State.thread, hw]
  dsimp only
  rw [hpc]
  dsimp only
  rw [State.call, hclient]
  dsimp only
  rw [hcall]
  rfl

/-- In every run the default reply to a disco request is from the address that was asked,
if and only if the first stored stanza with its id is for that address too, or none is
stored and the request is for `localhost`. The address is compared as the text between the
quotes: one that needs escapes stands there as it is, and the client reads something else. -/
theorem default_reply_from_iff {S : Setting} {s t : State} {as : List Action}
    (hs : Started s) (h : Runs (step S) (fun _ _ => True) s as t) {chunk : List UInt8}
    {events : List Event} {query id : Str} {calls : List (Call XMPPStanza)}
    (hw : t.writing = none)
    (hpc : t.pc = .feeding chunk events (.query query (some id) :: calls) [])
    (hdisco : isDisco query = true) (hstub : primeGetForQuery t.primed query = none) :
    ∃ request, t.arrived.getLast? = some request ∧ stanzaGetId (some request) = some id ∧
      stanzaGetQueryRequest request = some query ∧
      ((step S t .thread).map State.pc =
          some (.feeding chunk events calls [defaultReply S.env query id (asked request)]) ↔
        Attributed request id t.received_stanzas) := by
  have hanswering := answering_of_runs hs h
  have hrequest := request_of_pending (hanswering.pending _ _ _ _ hpc)
  obtain ⟨request, hlast, hid, hquery⟩ := hrequest
  refine ⟨request, hlast, hid, hquery, ?_⟩
  rw [step_default_reply S hanswering hw hpc hdisco hstub, ← address_eq_asked_iff,
    ← defaultReply_inj S.env query id]
  constructor
  · intro heq
    injection heq with heq
    injection heq with _ _ _ hreplies
    exact List.head_eq_of_cons_eq hreplies
  · intro heq
    rw [heq]

/-! ## A reused id -/

def discoRequest : Str :=
  "<iq id=\"1\" to=\"pubsub.localhost\"><query xmlns=\"".toList ++ discoInfoNs ++
    "\"/></iq>".toList

/-- The thread answers the header and handles this many further events and calls. -/
def handled (n : ℕ) : List Action :=
  [.thread, .thread] ++ written XML_START ++ written STREAM_RESP ++ written FEATURES ++
    List.replicate n .thread

/-- A run over these stanzas. -/
def requested (stanzas : Str) (n : ℕ) : List Action :=
  connect ("<stream:stream>".toList ++ stanzas) ++ handled n

/-- The thread is about to answer the disco request. -/
def aboutToAnswer (s : State) : Bool :=
  s.writing.isNone && (primeGetForQuery s.primed discoInfoNs).isNone &&
    match s.pc with
    | .feeding _ _ (.query query (some id) :: _) [] =>
        query = discoInfoNs && id = "1".toList
    | _ => false

theorem of_aboutToAnswer {s : State} (h : aboutToAnswer s = true) :
    s.writing = none ∧ primeGetForQuery s.primed discoInfoNs = none ∧
      ∃ chunk events calls, s.pc =
        .feeding chunk events (.query discoInfoNs (some "1".toList) :: calls) [] := by
  unfold aboutToAnswer at h
  rw [Bool.and_eq_true, Bool.and_eq_true] at h
  obtain ⟨⟨hw, hstub⟩, hpc⟩ := h
  refine ⟨Option.isNone_iff_eq_none.mp hw, Option.isNone_iff_eq_none.mp hstub, ?_⟩
  split at hpc
  next chunk events query id calls heq =>
    rw [Bool.and_eq_true, decide_eq_true_eq, decide_eq_true_eq] at hpc
    rw [hpc.1, hpc.2] at heq
    exact ⟨chunk, events, calls, heq⟩
  next => cases hpc

/-- The first stanza with this id is the request itself, and the reply is from
`pubsub.localhost`. -/
theorem first_use_answered : ∃ t chunk events calls,
    run (step .plain) .idle (requested discoRequest 6) = some t ∧
    (step .plain t .thread).map State.pc = some (.feeding chunk events calls
      [defaultReply Setting.plain.env discoInfoNs "1".toList "pubsub.localhost".toList]) := by
  have hrun : (run (step .plain) .idle (requested discoRequest 6)).any (fun t =>
      aboutToAnswer t && t.arrived.getLast?.any fun request =>
        asked request = "pubsub.localhost".toList &&
          (t.received_stanzas.find? fun stanza =>
            stanzaGetId (some stanza) = some "1".toList).any fun first =>
              asked first = "pubsub.localhost".toList) = true := by decide +kernel
  obtain ⟨t, ht, htest⟩ := (Option.any_eq_true _ _).mp hrun
  rw [Bool.and_eq_true] at htest
  obtain ⟨hw, hstub, chunk, events, calls, hpc⟩ := of_aboutToAnswer htest.1
  have hanswer := default_reply_from_iff started_idle (runs_of_run ht (by simp)) hw hpc
    (by decide +kernel) hstub
  obtain ⟨request, hlast, -, -, hiff⟩ := hanswer
  have hrequest := htest.2
  rw [hlast, Option.any_some, Bool.and_eq_true, Option.any_eq_true] at hrequest
  obtain ⟨hasked, first, hfirst, hsame⟩ := hrequest
  have hasked := of_decide_eq_true hasked
  have hattributed : Attributed request "1".toList t.received_stanzas := by
    unfold Attributed
    rw [hfirst]
    exact (of_decide_eq_true hsame).trans hasked.symm
  refine ⟨t, chunk, events, calls, ht, ?_⟩
  rw [← hasked]
  exact hiff.mpr hattributed

/-- An earlier presence to `buddy1@localhost` has the same id: the reply is from there. -/
theorem reused_id_misattributed : ∃ t chunk events calls request,
    run (step .plain) .idle (requested
      ("<presence id=\"1\" to=\"buddy1@localhost\"/>".toList ++ discoRequest) 10) = some t ∧
    t.arrived.getLast? = some request ∧ asked request = "pubsub.localhost".toList ∧
    (step .plain t .thread).map State.pc = some (.feeding chunk events calls
      [defaultReply Setting.plain.env discoInfoNs "1".toList "buddy1@localhost".toList]) ∧
    (step .plain t .thread).map State.pc ≠ some (.feeding chunk events calls
      [defaultReply Setting.plain.env discoInfoNs "1".toList (asked request)]) := by
  have hrun : (run (step .plain) .idle (requested
      ("<presence id=\"1\" to=\"buddy1@localhost\"/>".toList ++ discoRequest) 10)).any (fun t =>
      aboutToAnswer t && t.arrived.getLast?.any fun request =>
        asked request = "pubsub.localhost".toList &&
          address t.received_stanzas "1".toList = "buddy1@localhost".toList) = true := by
    decide +kernel
  obtain ⟨t, ht, htest⟩ := (Option.any_eq_true _ _).mp hrun
  rw [Bool.and_eq_true, Option.any_eq_true] at htest
  obtain ⟨habout, request, hlast, hrequest⟩ := htest
  rw [Bool.and_eq_true] at hrequest
  have hasked := of_decide_eq_true hrequest.1
  have haddress := of_decide_eq_true hrequest.2
  obtain ⟨hw, hstub, chunk, events, calls, hpc⟩ := of_aboutToAnswer habout
  have hanswering := answering_of_runs started_idle
    (@runs_of_run _ _ _ (fun _ _ => True) _ _ _ ht (by simp))
  have hreply := step_default_reply .plain hanswering hw hpc (by decide +kernel) hstub
  rw [haddress] at hreply
  refine ⟨t, chunk, events, calls, request, ht, hlast, hasked, hreply, ?_⟩
  rw [hreply, hasked]
  intro heq
  injection heq with heq
  injection heq with _ _ _ hreplies
  have hsame := (defaultReply_inj _ _ _).mp (List.head_eq_of_cons_eq hreplies)
  revert hsame
  decide +kernel

end Stabber.DiscoReplies
