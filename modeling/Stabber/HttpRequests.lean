import Stabber.HttpApi
import Mathlib.Data.List.TakeWhile

/-!
# Every request once, and by itself

Which operation a request asks for, and that `connection_cb` performs it once, with the
data of the request's own calls, in whatever order the calls for the connections come. What
it makes of the queue, the stub tables and the store is said of each operation by itself. A
request that asks for none is refused.
-/

namespace Stabber.HttpRequests
open XmlDocument Utf8 Stanza StanzaParse Stanzas Priming Transition HttpApi
open Server (State Action)
open HarmlessTexts (Check)

/-- The operation that a request with this body asks for. -/
inductive Asks (r : Request) (body : List UInt8) : Operation → Prop where
  | send (hurl : r.posts "/send".toList = true) : Asks r body (.serverSend body)
  | forId {id : List UInt8} (hurl : r.posts "/for".toList = true)
      (hid : r.lookup "id".toList = some id) (hquery : r.lookup "query".toList = none)
      (hxmlns : r.lookup "xmlns".toList = none) : Asks r body (.primeForId id body)
  | forQuery {query : List UInt8} (hurl : r.posts "/for".toList = true)
      (hid : r.lookup "id".toList = none) (hquery : r.lookup "query".toList = some query)
      (hxmlns : r.lookup "xmlns".toList = none) : Asks r body (.primeForQuery query body)
  | forXmlns {xmlns : List UInt8} (hurl : r.posts "/for".toList = true)
      (hid : r.lookup "id".toList = none) (hquery : r.lookup "query".toList = none)
      (hxmlns : r.lookup "xmlns".toList = some xmlns) : Asks r body (.primeForXmlns xmlns body)
  | verify (hurl : r.posts "/verify".toList = true) : Asks r body (.verifyAny body true)

/-- A request that asks for nothing, whatever its body. -/
def Refused (r : Request) : Prop := ∀ body op, ¬ Asks r body op

/-- A request whose last call has been made has been performed, once. One that is refused
changes nothing and is answered so, at once where its method or path is another. -/
structure Executed (x : Exchange) (body : List UInt8) : Prop where
  waiting : x.closed = false → x.operations = []
  performed : x.closed = true → ∀ op, Asks x.request body op → x.operations = [op]
  refused : Refused x.request →
    x.operations = [] ∧ ∀ response ∈ x.responses, response.status_code = 400
  answered : Refused x.request →
    x.closed = true ∨ x.request.stbbrOp = .opUnknown → x.responses ≠ []

/-- What an operation makes of the server, and the verification that it begins. The process
ends where the parser reads no stanza. -/
inductive Effect (S : Surroundings) (s : State) : Operation → State → Option Check → Prop where
  | send (stream : List UInt8) : Effect S s (.serverSend stream) { s with
      send_queue := s.send_queue ++ [stream], accepted := s.accepted ++ [stream] } none
  | forId (id stream : List UInt8) : Effect S s (.primeForId id stream)
      { s with primed := primeForId (S.text id) (S.text stream) s.primed } none
  | forQuery {query stream : List UInt8} {primed : Primed}
      (hprime : primeForQuery S.expat (S.text query) (S.text stream) s.primed = .ok primed) :
      Effect S s (.primeForQuery query stream) { s with primed := primed } none
  | forXmlns {xmlns stream : List UInt8} {primed : Primed}
      (hprime : primeForXmlns S.expat (S.text xmlns) (S.text stream) s.primed = .ok primed) :
      Effect S s (.primeForXmlns xmlns stream) { s with primed := primed } none
  | verify {stanza_text : List UInt8} {template : Option XMPPStanza} {clear : Bool}
      (hparse : stanzaParse S.expat (S.text stanza_text) = .ok template) :
      Effect S s (.verifyAny stanza_text clear) s (some ⟨template, false, clear⟩)
  | queryFault {query stream : List UInt8} {fault : Fault}
      (hprime : primeForQuery S.expat (S.text query) (S.text stream) s.primed = .error fault) :
      Effect S s (.primeForQuery query stream) s.crash none
  | xmlnsFault {xmlns stream : List UInt8} {fault : Fault}
      (hprime : primeForXmlns S.expat (S.text xmlns) (S.text stream) s.primed = .error fault) :
      Effect S s (.primeForXmlns xmlns stream) s.crash none
  | verifyFault {stanza_text : List UInt8} {clear : Bool} {fault : Fault}
      (hparse : stanzaParse S.expat (S.text stanza_text) = .error fault) :
      Effect S s (.verifyAny stanza_text clear) s.crash none

/-- What one look of a verification that clears makes of the store, and whether it has found
a stanza: it takes the first that matches. A null template is dereferenced with the first
stanza of the store. -/
inductive Looks (template : Option XMPPStanza) (s : State) : State → Bool → Prop where
  | found {t r : XMPPStanza} {before after : List XMPPStanza} (htemplate : template = some t)
      (hstore : s.received_stanzas = before ++ r :: after)
      (hfirst : ∀ x ∈ before, stanzasEqual x t ≠ 0) (hmatch : stanzasEqual r t = 0) :
      Looks template s { s with received_stanzas := before ++ after } true
  | missed {t : XMPPStanza} (htemplate : template = some t)
      (hnone : ∀ r ∈ s.received_stanzas, stanzasEqual r t ≠ 0) : Looks template s s false
  | empty (htemplate : template = none) (hstore : s.received_stanzas = []) :
      Looks template s s false
  | fault (htemplate : template = none) (hstore : s.received_stanzas ≠ []) :
      Looks template s s.crash false

section Requests
variable {r : Request} {body : List UInt8} {op : Operation}

theorem posts_iff (url : Str) :
    r.posts url = true ↔ r.method = utf8 "POST".toList ∧ r.url = utf8 url := by
  unfold Request.posts
  rw [Bool.and_eq_true, decide_eq_true_iff, decide_eq_true_iff]

/-- A request has one path. -/
theorem not_posts {url : Str} (h : r.posts url = true) (url' : Str)
    (hne : utf8 url' ≠ utf8 url) : r.posts url' = false := by
  rw [Bool.eq_false_iff]
  intro h'
  apply hne
  rw [← ((posts_iff url').mp h').2, ← ((posts_iff url).mp h).2]

theorem stbbrOp_send (h : r.posts "/send".toList = true) : r.stbbrOp = .opSend := by
  rw [Request.stbbrOp, if_pos h]

theorem stbbrOp_for (h : r.posts "/for".toList = true) : r.stbbrOp = .opFor := by
  have hsend := not_posts h "/send".toList (by decide)
  rw [Request.stbbrOp, hsend, if_neg Bool.false_ne_true, if_pos h]

theorem stbbrOp_verify (h : r.posts "/verify".toList = true) : r.stbbrOp = .opVerify := by
  have hsend := not_posts h "/send".toList (by decide)
  have hfor := not_posts h "/for".toList (by decide)
  rw [Request.stbbrOp, hsend, hfor, if_neg Bool.false_ne_true, if_neg Bool.false_ne_true,
    if_pos h]

/-- What the last call does for an operation that has been stored. -/
theorem posts_of_stbbrOp : match r.stbbrOp with
    | .opSend => r.posts "/send".toList = true
    | .opFor => r.posts "/for".toList = true
    | .opVerify => r.posts "/verify".toList = true
    | .opUnknown => True := by
  unfold Request.stbbrOp
  split_ifs with hsend hfor hverify
  · exact hsend
  · exact hfor
  · exact hverify
  · trivial

theorem finish_for (r : Request) (body : List UInt8) : finish r ⟨.opFor, body⟩ =
    finishFor (r.lookup "id".toList) (r.lookup "query".toList) (r.lookup "xmlns".toList)
      (cString body) := rfl

/-- The last call performs what is asked for. -/
theorem finish_of_asks (h : Asks r (cString body) op) :
    finish r ⟨r.stbbrOp, body⟩ = .perform op := by
  cases h with
  | send hurl =>
      rw [stbbrOp_send hurl]
      rfl
  | forId hurl hid hquery hxmlns =>
      rw [stbbrOp_for hurl, finish_for, hid, hquery, hxmlns]
      rfl
  | forQuery hurl hid hquery hxmlns =>
      rw [stbbrOp_for hurl, finish_for, hid, hquery, hxmlns]
      rfl
  | forXmlns hurl hid hquery hxmlns =>
      rw [stbbrOp_for hurl, finish_for, hid, hquery, hxmlns]
      rfl
  | verify hurl =>
      rw [stbbrOp_verify hurl]
      rfl

/-- And nothing else. -/
theorem finish_cases (r : Request) (body : List UInt8) :
    (∃ op, Asks r (cString body) op) ∨ finish r ⟨r.stbbrOp, body⟩ = .respond badRequest := by
  have hposts := @posts_of_stbbrOp r
  cases hop : r.stbbrOp with
  | opUnknown => exact Or.inr rfl
  | opSend =>
      rw [hop] at hposts
      exact Or.inl ⟨_, .send hposts⟩
  | opVerify =>
      rw [hop] at hposts
      exact Or.inl ⟨_, .verify hposts⟩
  | opFor =>
      rw [hop] at hposts
      rw [finish_for]
      cases hid : r.lookup "id".toList with
      | none =>
          cases hquery : r.lookup "query".toList with
          | none =>
              cases hxmlns : r.lookup "xmlns".toList with
              | none => exact Or.inr rfl
              | some xmlns => exact Or.inl ⟨_, .forXmlns hposts hid hquery hxmlns⟩
          | some query =>
              cases hxmlns : r.lookup "xmlns".toList with
              | none => exact Or.inl ⟨_, .forQuery hposts hid hquery hxmlns⟩
              | some xmlns => exact Or.inr rfl
      | some id =>
          cases hquery : r.lookup "query".toList with
          | none =>
              cases hxmlns : r.lookup "xmlns".toList with
              | none => exact Or.inl ⟨_, .forId hposts hid hquery hxmlns⟩
              | some xmlns => exact Or.inr rfl
          | some query =>
              cases r.lookup "xmlns".toList with
              | none => exact Or.inr rfl
              | some xmlns => exact Or.inr rfl

theorem asks_unique {op' : Operation} (h : Asks r (cString body) op)
    (h' : Asks r (cString body) op') : op = op' := by
  have hfinish := finish_of_asks h
  rw [finish_of_asks h'] at hfinish
  exact (Reaction.perform.inj hfinish).symm

/-- Another body makes the operation another one of the same kind. -/
theorem asks_body (h : Asks r body op) (body' : List UInt8) : ∃ op', Asks r body' op' := by
  cases h with
  | send hurl => exact ⟨_, .send hurl⟩
  | forId hurl hid hquery hxmlns => exact ⟨_, .forId hurl hid hquery hxmlns⟩
  | forQuery hurl hid hquery hxmlns => exact ⟨_, .forQuery hurl hid hquery hxmlns⟩
  | forXmlns hurl hid hquery hxmlns => exact ⟨_, .forXmlns hurl hid hquery hxmlns⟩
  | verify hurl => exact ⟨_, .verify hurl⟩

theorem refused_of_not {r : Request} {body : List UInt8} (h : ∀ op, ¬ Asks r body op) :
    Refused r := by
  intro body' op' hasks
  obtain ⟨op, hop⟩ := asks_body hasks body
  exact h op hop

/-- A request with another method or path is refused. -/
theorem refused_of_unknown (h : r.stbbrOp = .opUnknown) : Refused r := by
  intro body op hasks
  cases hasks with
  | send hurl =>
      rw [stbbrOp_send hurl] at h
      cases h
  | verify hurl =>
      rw [stbbrOp_verify hurl] at h
      cases h
  | forId hurl | forQuery hurl | forXmlns hurl =>
      rw [stbbrOp_for hurl] at h
      cases h

end Requests

/-- What the pointer of the connection has to be while the request is handled. -/
def pointer (x : Exchange) : Option ConnectionInfo :=
  if x.request.stbbrOp = .opUnknown then none
  else some ⟨x.request.stbbrOp, x.chunks.flatten⟩

/-- The body of a request as the functions read it. -/
def str (x : Exchange) : List UInt8 := cString x.chunks.flatten

/-- The pointer of a connection says where its request is. -/
def Tracked (n : Connection) : Prop :=
  match n.exchange with
  | none => n.con_cls = none
  | some x => n.con_cls = pointer x ∧ Executed x (str x)

section Connections
variable {n : Connection} {x : Exchange}

theorem tracked_none (h : Tracked n) (hx : n.exchange = none) : n.con_cls = none := by
  unfold Tracked at h
  rw [hx] at h
  exact h

theorem tracked_some (h : Tracked n) (hx : n.exchange = some x) :
    n.con_cls = pointer x ∧ Executed x (str x) := by
  unfold Tracked at h
  rw [hx] at h
  exact h

/-- More data does not change what is asked of an open request. -/
theorem Executed.more {body : List UInt8} (h : Executed x body) (hopen : x.closed = false)
    (chunks : List (List UInt8)) (body' : List UInt8) :
    Executed { x with chunks := chunks } body' := by
  constructor
  · exact h.waiting
  · intro hclosed
    dsimp only at hclosed
    rw [hopen] at hclosed
    cases hclosed
  · exact h.refused
  · exact h.answered

/-- A refused request is refused once more. -/
theorem executed_respond (hrefused : Refused x.request) (hoperations : x.operations = [])
    (hresponses : ∀ response ∈ x.responses, response.status_code = 400) (body : List UInt8) :
    Executed { x with responses := x.responses ++ [badRequest] } body := by
  constructor
  · exact fun _ => hoperations
  · intro _ op hasks
    exact (hrefused body op hasks).elim
  · intro _
    refine ⟨hoperations, ?_⟩
    intro response hresponse
    rcases List.mem_append.mp hresponse with hold | hnew
    · exact hresponses response hold
    · rw [List.mem_singleton.mp hnew]
      rfl
  · intro _ _ hnil
    exact List.append_ne_nil_of_right_ne_nil _ (List.cons_ne_nil _ _) hnil

/-- While the pointer is null every call refuses the request. -/
theorem tracked_refuse (hpointer : n.con_cls = none) (hop : x.request.stbbrOp = .opUnknown)
    (hoperations : x.operations = [])
    (hresponses : ∀ response ∈ x.responses, response.status_code = 400) (data : List UInt8) :
    Tracked (n.call x data).1 ∧ (n.call x data).2 = none := by
  have hcall : n.call x data =
      (⟨none, some { x with responses := x.responses ++ [badRequest] }⟩, none) := by
    rw [Connection.call, hpointer, connectionCb, if_pos hop]
  rw [hcall]
  refine ⟨⟨?_, ?_⟩, rfl⟩
  · exact (if_pos hop).symm
  · exact executed_respond (refused_of_unknown hop) hoperations hresponses _

/-- The first call finds a null pointer. -/
theorem tracked_first (h : Tracked n) (hx : n.exchange = none) (r : Request) :
    Tracked (n.call ⟨r, [], false, [], []⟩ []).1 ∧ (n.call ⟨r, [], false, [], []⟩ []).2 = none := by
  have hpointer := tracked_none h hx
  by_cases hop : r.stbbrOp = .opUnknown
  · apply tracked_refuse hpointer hop rfl
    intro response hresponse
    cases hresponse
  · have hcall : n.call ⟨r, [], false, [], []⟩ [] =
        (⟨some ⟨r.stbbrOp, []⟩, some ⟨r, [], false, [], []⟩⟩, none) := by
      rw [Connection.call, hpointer, connectionCb, if_neg hop]
    rw [hcall]
    refine ⟨⟨?_, ?_⟩, rfl⟩
    · exact (if_neg hop).symm
    · constructor
      · exact fun _ => rfl
      · intro hclosed
        cases hclosed
      · intro _
        refine ⟨rfl, ?_⟩
        intro response hresponse
        cases hresponse
      · intro _ hend
        rcases hend with hclosed | hunknown
        · cases hclosed
        · exact (hop hunknown).elim

theorem tracked_data (h : Tracked n) (hx : n.exchange = some x) (hopen : x.closed = false)
    {chunk : List UInt8} (hchunk : chunk ≠ []) :
    Tracked (n.call { x with chunks := x.chunks ++ [chunk] } chunk).1 ∧
      (n.call { x with chunks := x.chunks ++ [chunk] } chunk).2 = none := by
  obtain ⟨hpointer, hexecuted⟩ := tracked_some h hx
  by_cases hop : x.request.stbbrOp = .opUnknown
  · rw [pointer, if_pos hop] at hpointer
    have hrefused := hexecuted.refused (refused_of_unknown hop)
    exact @tracked_refuse n { x with chunks := x.chunks ++ [chunk] } hpointer hop hrefused.1
      hrefused.2 chunk
  · rw [pointer, if_neg hop] at hpointer
    have hlength : chunk.length ≠ 0 := fun hzero => hchunk (List.length_eq_zero_iff.mp hzero)
    have hcall : n.call { x with chunks := x.chunks ++ [chunk] } chunk =
        (⟨some ⟨x.request.stbbrOp, x.chunks.flatten ++ chunk⟩,
          some { x with chunks := x.chunks ++ [chunk] }⟩, none) := by
      rw [Connection.call, hpointer, connectionCb, if_pos hlength]
    rw [hcall]
    refine ⟨⟨?_, ?_⟩, rfl⟩
    · rw [pointer, if_neg hop, List.flatten_append, List.flatten_singleton]
    · exact hexecuted.more hopen _ _

/-- The last call performs what the request asks for, once. -/
theorem executed_perform (hwaiting : x.operations = []) {op : Operation}
    (hasks : Asks x.request (str x) op) :
    Executed { x with closed := true, operations := x.operations ++ [op] } (str x) := by
  constructor
  · intro hopen
    cases hopen
  · intro _ op' hasks'
    rw [hwaiting, asks_unique hasks hasks']
    rfl
  · intro hrefused
    exact (hrefused _ _ hasks).elim
  · intro hrefused
    exact (hrefused _ _ hasks).elim

theorem tracked_last (h : Tracked n) (hx : n.exchange = some x) (hopen : x.closed = false) :
    Tracked (n.call { x with closed := true } []).1 ∧
      ∀ op, (n.call { x with closed := true } []).2 = some op →
        Asks x.request (str x) op ∧
          (n.call { x with closed := true } []).1.exchange =
            some { x with closed := true, operations := [op] } := by
  obtain ⟨hpointer, hexecuted⟩ := tracked_some h hx
  have hwaiting := hexecuted.waiting hopen
  by_cases hop : x.request.stbbrOp = .opUnknown
  · rw [pointer, if_pos hop] at hpointer
    have hrefused := hexecuted.refused (refused_of_unknown hop)
    have htracked := @tracked_refuse n { x with closed := true } hpointer hop hrefused.1
      hrefused.2 []
    refine ⟨htracked.1, ?_⟩
    intro op hsome
    rw [htracked.2] at hsome
    cases hsome
  · rw [pointer, if_neg hop] at hpointer
    have hcb : connectionCb x.request [] n.con_cls =
        (finish x.request ⟨x.request.stbbrOp, x.chunks.flatten⟩, n.con_cls) := by
      rw [hpointer]
      rfl
    have hkept : n.con_cls = pointer x := by
      rw [pointer, if_neg hop]
      exact hpointer
    by_cases hasks : ∃ op, Asks x.request (str x) op
    · obtain ⟨op, hasks⟩ := hasks
      have hcall : n.call { x with closed := true } [] =
          (⟨n.con_cls, some { x with closed := true, operations := x.operations ++ [op] }⟩,
            some op) := by
        rw [Connection.call, hcb, finish_of_asks hasks]
      rw [hcall]
      refine ⟨⟨hkept, executed_perform hwaiting hasks⟩, ?_⟩
      intro op' hop'
      cases hop'
      refine ⟨hasks, ?_⟩
      rw [hwaiting]
      rfl
    · have hfinish := (finish_cases x.request x.chunks.flatten).resolve_left hasks
      have hrefused : Refused x.request := refused_of_not (not_exists.mp hasks)
      have hcall : n.call { x with closed := true } [] =
          (⟨n.con_cls, some { x with closed := true, responses := x.responses ++ [badRequest] }⟩,
            none) := by
        rw [Connection.call, hcb, hfinish]
      rw [hcall]
      refine ⟨⟨hkept, ?_⟩, ?_⟩
      · exact @executed_respond { x with closed := true } hrefused hwaiting
          (hexecuted.refused hrefused).2 _
      · intro op' hop'
        cases hop'

/-- The last call finds the operation that is asked for. -/
theorem call_of_asks (h : Tracked n) (hx : n.exchange = some x) {op : Operation}
    (hasks : Asks x.request (str x) op) : (n.call { x with closed := true } []).2 = some op := by
  have hpointer := (tracked_some h hx).1
  have hop : x.request.stbbrOp ≠ .opUnknown := fun hop => refused_of_unknown hop _ _ hasks
  rw [pointer, if_neg hop] at hpointer
  have hcb : connectionCb x.request [] n.con_cls =
      (finish x.request ⟨x.request.stbbrOp, x.chunks.flatten⟩, n.con_cls) := by
    rw [hpointer]
    rfl
  rw [Connection.call, hcb, finish_of_asks hasks]

/-- The response to an operation that was asked for. -/
theorem tracked_respond (h : Tracked n) (hx : n.exchange = some x) {op : Operation}
    (hasks : Asks x.request (str x) op) (response : Response) : Tracked (n.respond response) := by
  obtain ⟨hpointer, hexecuted⟩ := tracked_some h hx
  have hresponded : (n.respond response).exchange =
      some { x with responses := x.responses ++ [response] } := by
    rw [Connection.respond, hx]
    rfl
  unfold Tracked
  rw [hresponded]
  refine ⟨hpointer, ?_⟩
  constructor
  · exact hexecuted.waiting
  · exact hexecuted.performed
  · exact fun hrefused => (hrefused _ _ hasks).elim
  · exact fun hrefused => (hrefused _ _ hasks).elim

end Connections

/-! ## The daemon -/

section Daemon
variable {ι : Type} [DecidableEq ι] {S : Surroundings} {w w' : Httpd ι} {c : ι}

@[simp] theorem respond_server (c : ι) (response : Response) :
    (w.respond c response).server = w.server := by
  unfold Httpd.respond
  split_ifs
  · rfl
  · rfl

@[simp] theorem respond_verifying (c : ι) (response : Response) :
    (w.respond c response).verifying = w.verifying := by
  unfold Httpd.respond
  split_ifs
  · rfl
  · rfl

theorem respond_others {response : Response} {c' : ι} (hne : c' ≠ c) :
    (w.respond c response).connections c' = w.connections c' := by
  unfold Httpd.respond
  split_ifs
  · rfl
  · exact Function.update_of_ne hne _ _

/-- What `perform` does, with the thread outside of `verify_any`. -/
theorem perform_effect {op : Operation} (hrunning : ¬ w.server.pc.isCrashed = true)
    (hidle : w.verifying = none) (h : w.perform S c op = some w') :
    (∃ begun, Effect S w.server op w'.server begun ∧ w'.verifying = begun.map (c, ·)) ∧
      ∀ c' ≠ c, w'.connections c' = w.connections c' := by
  have hserve : ∀ {a : Action} {status_code : ℕ},
      (∀ t, Server.step S.toSetting w.server a = some t → Effect S w.server op t none) →
      w.serve S c a status_code = some w' →
      (∃ begun, Effect S w.server op w'.server begun ∧ w'.verifying = begun.map (c, ·)) ∧
        ∀ c' ≠ c, w'.connections c' = w.connections c' := by
    intro a status_code heffect hw'
    obtain ⟨t, ht, rfl⟩ := Option.map_eq_some_iff.mp hw'
    refine ⟨⟨none, ?_, ?_⟩, fun c' hne => respond_others hne⟩
    · rw [respond_server]
      exact heffect t ht
    · rw [respond_verifying]
      exact hidle
  cases op with
  | serverSend stream =>
      refine hserve (fun t ht => ?_) h
      rw [Server.step, if_neg hrunning] at ht
      split_ifs at ht
      cases ht
      exact .send stream
  | primeForId id stream =>
      refine hserve (fun t ht => ?_) h
      rw [Server.step, if_neg hrunning] at ht
      cases ht
      exact .forId id stream
  | primeForQuery query stream =>
      refine hserve (fun t ht => ?_) h
      rw [Server.step, if_neg hrunning] at ht
      cases hprime : primeForQuery S.expat (S.text query) (S.text stream) w.server.primed with
      | error fault =>
          simp only [hprime] at ht
          cases ht
          exact .queryFault hprime
      | ok primed =>
          simp only [hprime] at ht
          cases ht
          exact .forQuery hprime
  | primeForXmlns xmlns stream =>
      refine hserve (fun t ht => ?_) h
      rw [Server.step, if_neg hrunning] at ht
      cases hprime : primeForXmlns S.expat (S.text xmlns) (S.text stream) w.server.primed with
      | error fault =>
          simp only [hprime] at ht
          cases ht
          exact .xmlnsFault hprime
      | ok primed =>
          simp only [hprime] at ht
          cases ht
          exact .forXmlns hprime
  | verifyAny stanza_text clear =>
      unfold Httpd.perform at h
      cases hparse : stanzaParse S.expat (S.text stanza_text) with
      | ok template =>
          simp only [hparse] at h
          cases h
          exact ⟨⟨_, .verify hparse, rfl⟩, fun _ _ => rfl⟩
      | error fault =>
          simp only [hparse] at h
          cases h
          refine ⟨⟨none, .verifyFault hparse, ?_⟩, fun _ _ => rfl⟩
          exact hidle

/-- The daemon's thread is in `verify_any` for a request that has asked for it. -/
def Verifies (S : Surroundings) (n : Connection) (check : Check) : Prop :=
  ∃ x, n.exchange = some x ∧ Asks x.request (str x) (.verifyAny (str x) true) ∧
    x.operations = [.verifyAny (str x) true] ∧
    stanzaParse S.expat (S.text (str x)) = .ok check.template ∧
    check.last = false ∧ check.clear = true

structure Sound (S : Surroundings) (w : Httpd ι) : Prop where
  connections : ∀ c, Tracked (w.connections c)
  completed : ∀ x ∈ w.completed, Executed x (str x)
  verifying : ∀ c check, w.verifying = some (c, check) → Verifies S (w.connections c) check

namespace Sound

omit [DecidableEq ι] in
theorem serve (h : Sound S w) (t : State) : Sound S { w with server := t } :=
  ⟨h.connections, h.completed, h.verifying⟩

/-- One connection goes on while the thread is not in `verify_any`. -/
theorem update (h : Sound S w) (hidle : w.verifying = none) {n : Connection} (hn : Tracked n) :
    Sound S { w with connections := Function.update w.connections c n } := by
  constructor
  · intro c'
    dsimp only
    by_cases hc : c' = c
    · rw [hc, Function.update_self]
      exact hn
    · rw [Function.update_of_ne hc]
      exact h.connections c'
  · exact h.completed
  · intro c' check hverifying
    dsimp only at hverifying
    rw [hidle] at hverifying
    cases hverifying

theorem respond (h : Sound S w) (hidle : w.verifying = none) {x : Exchange}
    (hx : (w.connections c).exchange = some x) {op : Operation}
    (hasks : Asks x.request (str x) op) (response : Response) :
    Sound S (w.respond c response) := by
  unfold Httpd.respond
  split_ifs
  · exact h
  · exact h.update hidle (tracked_respond (h.connections c) hx hasks response)

/-- An operation that was asked for is performed. -/
theorem perform (h : Sound S w) (hidle : w.verifying = none) {x : Exchange}
    (hx : (w.connections c).exchange = some x) {op : Operation}
    (hasks : Asks x.request (str x) op) (hoperations : x.operations = [op])
    (hperform : w.perform S c op = some w') : Sound S w' := by
  have hserve : ∀ {a : Action} {status_code : ℕ},
      w.serve S c a status_code = some w' → Sound S w' := by
    intro a status_code hw'
    obtain ⟨t, _, rfl⟩ := Option.map_eq_some_iff.mp hw'
    exact (h.serve t).respond hidle hx hasks _
  cases op with
  | serverSend stream => exact hserve hperform
  | primeForId id stream => exact hserve hperform
  | primeForQuery query stream => exact hserve hperform
  | primeForXmlns xmlns stream => exact hserve hperform
  | verifyAny stanza_text clear =>
      have htext : stanza_text = str x ∧ clear = true := by
        cases hasks
        exact ⟨rfl, rfl⟩
      obtain ⟨rfl, rfl⟩ := htext
      unfold Httpd.perform at hperform
      cases hparse : stanzaParse S.expat (S.text (str x)) with
      | error fault =>
          simp only [hparse] at hperform
          cases hperform
          exact h.serve _
      | ok template =>
          simp only [hparse] at hperform
          cases hperform
          constructor
          · exact h.connections
          · exact h.completed
          · intro c' check hverifying
            cases hverifying
            exact ⟨x, hx, hasks, hoperations, hparse, rfl, rfl⟩

end Sound

/-- A call that performs nothing. -/
theorem callback_quiet {x : Exchange} {data : List UInt8}
    (hquiet : ((w.connections c).call x data).2 = none) (h : w.callback S c x data = some w') :
    w' = { w with
      connections := Function.update w.connections c ((w.connections c).call x data).1 } := by
  unfold Httpd.callback at h
  split at h
  next n hcall =>
    rw [hcall]
    exact (Option.some.inj h).symm
  next n op hcall =>
    rw [hcall] at hquiet
    cases hquiet

theorem callback_perform {x : Exchange} {data : List UInt8} {op : Operation}
    (hop : ((w.connections c).call x data).2 = some op) (h : w.callback S c x data = some w') :
    { w with
      connections := Function.update w.connections c ((w.connections c).call x data).1 }.perform
        S c op = some w' := by
  unfold Httpd.callback at h
  split at h
  next n hcall =>
    rw [hcall] at hop
    cases hop
  next n op' hcall =>
    rw [hcall] at hop ⊢
    cases hop
    exact h

/-- What a callback for a connection does: nothing to the others, and nothing to the server
but the operation that is asked for, at the last call. -/
structure Separate (S : Surroundings) (w : Httpd ι) (c : ι) (a : Act ι) (w' : Httpd ι) :
    Prop where
  others : ∀ c' ≠ c, w'.connections c' = w.connections c'
  performed : ∀ x op, a = .last c → (w.connections c).exchange = some x →
    Asks x.request (str x) op →
      ∃ begun, Effect S w.server op w'.server begun ∧ w'.verifying = begun.map (c, ·)
  quiet : (∀ x op, a = .last c → (w.connections c).exchange = some x →
    ¬ Asks x.request (str x) op) → w'.server = w.server ∧ w'.verifying = w.verifying

/-- A callback at which nothing is asked. -/
theorem separate_quiet {a : Act ι} (n : Connection) (completed : List Exchange)
    (hquiet : ∀ x op, a = .last c → (w.connections c).exchange = some x →
      ¬ Asks x.request (str x) op) :
    Separate S w c a { w with
      connections := Function.update w.connections c n, completed := completed } := by
  constructor
  · exact fun c' hne => Function.update_of_ne hne _ _
  · intro x op ha hx hasks
    exact (hquiet x op ha hx hasks).elim
  · exact fun _ => ⟨rfl, rfl⟩

/-- The callbacks that are made. -/
theorem request_cases {a : Act ι} (h : w.request S a = some w') :
    (∃ c r, a = .first c r ∧ (w.connections c).exchange = none ∧
      w.callback S c ⟨r, [], false, [], []⟩ [] = some w') ∨
    (∃ c chunk x, a = .data c chunk ∧ chunk ≠ [] ∧ (w.connections c).exchange = some x ∧
      x.closed = false ∧
      w.callback S c { x with chunks := x.chunks ++ [chunk] } chunk = some w') ∨
    (∃ c x, a = .last c ∧ (w.connections c).exchange = some x ∧ x.closed = false ∧
      w.callback S c { x with closed := true } [] = some w') ∨
    (∃ c x, a = .completed c ∧ (w.connections c).exchange = some x ∧
      w' = { w with
        connections := Function.update w.connections c .idle
        completed := w.completed ++ [x] }) := by
  have hcontinued : ∀ {c : ι} {next : Exchange → Exchange} {data : List UInt8},
      w.continued S c next data = some w' → ∃ x, (w.connections c).exchange = some x ∧
        x.closed = false ∧ w.callback S c (next x) data = some w' := by
    intro c next data hw'
    unfold Httpd.continued at hw'
    split at hw'
    next => cases hw'
    next x hx =>
      split_ifs at hw' with hclosed
      exact ⟨x, hx, Bool.eq_false_of_not_eq_true hclosed, hw'⟩
  unfold Httpd.request at h
  cases a with
  | first c r =>
      dsimp only at h
      split at h
      next hx => exact Or.inl ⟨c, r, rfl, hx, h⟩
      next => cases h
  | data c chunk =>
      dsimp only at h
      split_ifs at h with hchunk
      obtain ⟨x, hx, hopen, hcall⟩ := hcontinued h
      exact Or.inr (Or.inl ⟨c, chunk, x, rfl, hchunk, hx, hopen, hcall⟩)
  | last c =>
      obtain ⟨x, hx, hopen, hcall⟩ := hcontinued h
      exact Or.inr (Or.inr (Or.inl ⟨c, x, rfl, hx, hopen, hcall⟩))
  | completed c =>
      dsimp only at h
      unfold Httpd.complete at h
      split at h
      next => cases h
      next x hx =>
        cases h
        exact Or.inr (Or.inr (Or.inr ⟨c, x, rfl, hx, rfl⟩))
  | server | look | timeout => cases h

theorem tracked_idle : Tracked .idle := rfl

/-- A callback keeps what is asked, and concerns its own connection. -/
theorem sound_request (h : Sound S w) (hrunning : ¬ w.server.pc.isCrashed = true)
    (hidle : w.verifying = none) {a : Act ι} (hrequest : w.request S a = some w') :
    Sound S w' ∧ ∃ c, a.connection = some c ∧ Separate S w c a w' := by
  rcases request_cases hrequest with ⟨c, r, rfl, hx, hcall⟩ |
    ⟨c, chunk, x, rfl, hchunk, hx, hopen, hcall⟩ | ⟨c, x, rfl, hx, hopen, hcall⟩ |
    ⟨c, x, rfl, hx, rfl⟩
  · obtain ⟨htracked, hquiet⟩ := tracked_first (h.connections c) hx r
    rw [callback_quiet hquiet hcall]
    exact ⟨h.update hidle htracked, c, rfl, separate_quiet _ _ fun _ _ => nofun⟩
  · obtain ⟨htracked, hquiet⟩ := tracked_data (h.connections c) hx hopen hchunk
    rw [callback_quiet hquiet hcall]
    exact ⟨h.update hidle htracked, c, rfl, separate_quiet _ _ fun _ _ => nofun⟩
  · obtain ⟨htracked, hperform⟩ := tracked_last (h.connections c) hx hopen
    cases hop : ((w.connections c).call { x with closed := true } []).2 with
    | none =>
        rw [callback_quiet hop hcall]
        refine ⟨h.update hidle htracked, c, rfl, separate_quiet _ _ ?_⟩
        intro y op _ hy hasks
        rw [hx] at hy
        cases hy
        rw [call_of_asks (h.connections c) hx hasks] at hop
        cases hop
    | some op =>
        obtain ⟨hasks, hexchange⟩ := hperform op hop
        have hperformed := callback_perform hop hcall
        obtain ⟨heffect, hothers⟩ := perform_effect (w := { w with
          connections := Function.update w.connections c _ }) hrunning hidle hperformed
        constructor
        · have hx' : (Function.update w.connections c
              ((w.connections c).call { x with closed := true } []).1 c).exchange =
              some { x with closed := true, operations := [op] } := by
            rw [Function.update_self]
            exact hexchange
          exact (h.update hidle htracked).perform hidle hx' hasks rfl hperformed
        · refine ⟨c, rfl, ?_, ?_, ?_⟩
          · intro c' hne
            rw [hothers c' hne]
            exact Function.update_of_ne hne _ _
          · intro y op' _ hy hasks'
            rw [hx] at hy
            cases hy
            rw [asks_unique hasks' hasks]
            exact heffect
          · intro hnot
            exact (hnot x op rfl hx hasks).elim
  · have hexecuted := (tracked_some (h.connections c) hx).2
    have hupdated := h.update hidle (c := c) tracked_idle
    constructor
    · constructor
      · exact hupdated.connections
      · intro y hy
        rcases List.mem_append.mp hy with hy | hy
        · exact h.completed y hy
        · rw [List.mem_singleton.mp hy]
          exact hexecuted
      · exact hupdated.verifying
    · exact ⟨c, rfl, separate_quiet _ _ fun _ _ => nofun⟩

/-- A step is one of the server, of `verify_any`, or a callback outside it. -/
theorem step_cases {a : Act ι} (h : step S w a = some w') :
    ¬ w.server.pc.isCrashed = true ∧
    ((∃ b t, a = .server b ∧ Server.step S.toSetting w.server b = some t ∧
        w' = { w with server := t }) ∨
      (a = .look ∧ w.look = some w') ∨ (a = .timeout ∧ w.timeout = some w') ∨
      (w.verifying = none ∧ w.request S a = some w')) := by
  unfold step at h
  by_cases hcrash : w.server.pc.isCrashed = true
  · rw [if_pos hcrash] at h
    cases h
  · rw [if_neg hcrash] at h
    refine ⟨hcrash, ?_⟩
    split at h
    next b =>
      obtain ⟨t, ht, rfl⟩ := Option.map_eq_some_iff.mp h
      exact Or.inl ⟨b, t, rfl, ht, rfl⟩
    next => exact Or.inr (Or.inl ⟨rfl, h⟩)
    next => exact Or.inr (Or.inr (Or.inl ⟨rfl, h⟩))
    next =>
      split_ifs at h with hverifying
      have hidle := Option.not_isSome_iff_eq_none.mp hverifying
      exact Or.inr (Or.inr (Or.inr ⟨hidle, h⟩))

omit [DecidableEq ι] in
theorem Sound.idle (h : Sound S w) : Sound S { w with verifying := none } := by
  constructor
  · exact h.connections
  · exact h.completed
  · intro c check hverifying
    cases hverifying

/-- The verification that has ended is answered. -/
theorem Sound.answer (h : Sound S w) {check : Check} (hverifying : w.verifying = some (c, check))
    (t : State) (response : Response) :
    Sound S ({ w with server := t, verifying := none }.respond c response) := by
  obtain ⟨x, hx, hasks, _⟩ := h.verifying c check hverifying
  exact (h.serve t).idle.respond rfl hx hasks response

theorem sound_step (h : Sound S w) {a : Act ι} (hstep : step S w a = some w') : Sound S w' := by
  rcases (step_cases hstep).2 with ⟨b, t, _, _, rfl⟩ | ⟨_, hlook⟩ | ⟨_, htimeout⟩ |
    ⟨hidle, hrequest⟩
  · exact h.serve t
  · unfold Httpd.look at hlook
    split at hlook
    next => cases hlook
    next c check hverifying =>
      split at hlook
      next =>
        cases hlook
        exact h.serve _
      next =>
        cases hlook
        exact h.answer hverifying _ _
      next =>
        cases hlook
        exact h.serve _
  · unfold Httpd.timeout at htimeout
    split at htimeout
    next => cases htimeout
    next c check hverifying =>
      cases htimeout
      exact h.answer hverifying w.server _
  · exact (sound_request h (step_cases hstep).1 hidle hrequest).1

/-- A callback concerns its own connection. -/
theorem separate_step (h : Sound S w) {a : Act ι} (ha : a.connection = some c)
    (hstep : step S w a = some w') : Separate S w c a w' := by
  obtain ⟨hrunning, hcases⟩ := step_cases hstep
  rcases hcases with ⟨b, t, rfl, _, _⟩ | ⟨rfl, _⟩ | ⟨rfl, _⟩ | ⟨hidle, hrequest⟩
  · cases ha
  · cases ha
  · cases ha
  · obtain ⟨_, c', hc', hseparate⟩ := sound_request h hrunning hidle hrequest
    rw [ha] at hc'
    cases hc'
    exact hseparate

theorem looks_of_look {check : Check} {s : State} {found : Bool} {store : List XMPPStanza}
    (hlast : check.last = false) (hclear : check.clear = true)
    (h : check.look s.received_stanzas = .ok (found, store)) :
    Looks check.template s { s with received_stanzas := store } found := by
  rw [Check.look, hlast, hclear, if_neg Bool.false_ne_true] at h
  cases htemplate : check.template with
  | none =>
      cases hstore : s.received_stanzas with
      | nil =>
          rw [htemplate, hstore] at h
          cases h
          rw [← hstore]
          exact .empty rfl hstore
      | cons r rs =>
          rw [htemplate, hstore] at h
          cases h
  | some t =>
      rw [htemplate] at h
      have hlook := Except.ok.inj h
      rcases stanzasVerifyAny_cases id t true s.received_stanzas with ⟨hnone, hmissed⟩ |
        ⟨before, r, after, hstore, hbefore, hmatch, hfound⟩
      · rw [hmissed] at hlook
        cases hlook
        exact .missed rfl hnone
      · rw [hfound, if_pos rfl] at hlook
        cases hlook
        exact .found rfl hstore hbefore hmatch

theorem looks_of_fault {check : Check} {s : State} {fault : Fault} (hlast : check.last = false)
    (h : check.look s.received_stanzas = .error fault) : Looks check.template s s.crash false := by
  rw [Check.look, hlast, if_neg Bool.false_ne_true] at h
  cases htemplate : check.template with
  | some t =>
      rw [htemplate] at h
      cases h
  | none =>
      refine .fault rfl fun hstore => ?_
      rw [htemplate, hstore] at h
      cases h

/-- A step of the verification: a look changes the store and ends the verification if it has
found a stanza, and the time that is up changes nothing but ends it. -/
structure Checked (w : Httpd ι) (c : ι) (check : Check) (a : Act ι) (w' : Httpd ι) : Prop where
  others : a = .look ∨ a = .timeout → ∀ c' ≠ c, w'.connections c' = w.connections c'
  look : a = .look → ∃ found, Looks check.template w.server w'.server found ∧
    w'.verifying = if found then none else some (c, check)
  timeout : a = .timeout → w'.server = w.server ∧ w'.verifying = none

theorem checked_step (h : Sound S w) {check : Check} (hverifying : w.verifying = some (c, check))
    {a : Act ι} (hstep : step S w a = some w') : Checked w c check a w' := by
  obtain ⟨_, _, _, _, _, hlast, hclear⟩ := h.verifying c check hverifying
  rcases (step_cases hstep).2 with ⟨b, t, rfl, _, _⟩ | ⟨rfl, hlook⟩ | ⟨rfl, htimeout⟩ | ⟨hidle, _⟩
  · exact ⟨nofun, nofun, nofun⟩
  · unfold Httpd.look at hlook
    rw [hverifying] at hlook
    dsimp only at hlook
    refine ⟨fun _ c' hne => ?_, fun _ => ?_, nofun⟩
    · split at hlook
      next =>
        cases hlook
        rfl
      next =>
        cases hlook
        exact respond_others hne
      next =>
        cases hlook
        rfl
    · split at hlook
      next fault hfault =>
        cases hlook
        exact ⟨false, looks_of_fault hlast hfault, rfl⟩
      next store hfound =>
        cases hlook
        rw [respond_server, respond_verifying]
        exact ⟨true, looks_of_look hlast hclear hfound, rfl⟩
      next store hmissed =>
        cases hlook
        exact ⟨false, looks_of_look hlast hclear hmissed, rfl⟩
  · unfold Httpd.timeout at htimeout
    rw [hverifying] at htimeout
    cases htimeout
    refine ⟨fun _ c' hne => respond_others hne, nofun, fun _ => ?_⟩
    rw [respond_server, respond_verifying]
    exact ⟨rfl, rfl⟩
  · rw [hverifying] at hidle
    cases hidle

/-- What the calls for a request have brought. -/
structure Received where
  request : Request
  chunks : List (List UInt8)
  closed : Bool

def received (x : Exchange) : Received := ⟨x.request, x.chunks, x.closed⟩

def handed (n : Connection) : Option Received := n.exchange.map received

/-- What a call brings to the connection it is for. -/
def handOver (o : Option Received) : Act ι → Option Received
  | .first _ r => some ⟨r, [], false⟩
  | .data _ chunk => o.map fun x => { x with chunks := x.chunks ++ [chunk] }
  | .last _ => o.map fun x => { x with closed := true }
  | .completed _ => none
  | _ => o

/-- The calls for one connection by themselves. -/
def follow (c : ι) (o : Option Received) (a : Act ι) : Option Received :=
  if a.connection = some c then handOver o a else o

theorem handed_call (n : Connection) (x : Exchange) (data : List UInt8) :
    handed (n.call x data).1 = some (received x) := by
  unfold Connection.call
  split
  · rfl
  · rfl
  · rfl

theorem handed_respond (c : ι) (response : Response) (c' : ι) :
    handed ((w.respond c response).connections c') = handed (w.connections c') := by
  unfold Httpd.respond
  split_ifs
  · rfl
  · by_cases hc : c' = c
    · rw [hc]
      dsimp only
      rw [Function.update_self, handed, handed, Connection.respond, Option.map_map]
      rfl
    · exact congrArg handed (Function.update_of_ne hc _ _)

theorem handed_perform {op : Operation} (h : w.perform S c op = some w') (c' : ι) :
    handed (w'.connections c') = handed (w.connections c') := by
  have hserve : ∀ {a : Action} {status_code : ℕ}, w.serve S c a status_code = some w' →
      handed (w'.connections c') = handed (w.connections c') := by
    intro a status_code hw'
    obtain ⟨t, _, rfl⟩ := Option.map_eq_some_iff.mp hw'
    exact handed_respond c _ c'
  cases op with
  | serverSend stream => exact hserve h
  | primeForId id stream => exact hserve h
  | primeForQuery query stream => exact hserve h
  | primeForXmlns xmlns stream => exact hserve h
  | verifyAny stanza_text clear =>
      unfold Httpd.perform at h
      cases hparse : stanzaParse S.expat (S.text stanza_text) with
      | ok template =>
          simp only [hparse] at h
          cases h
          rfl
      | error fault =>
          simp only [hparse] at h
          cases h
          rfl

theorem handed_update (n : Connection) (c' : ι) :
    handed (Function.update w.connections c n c') =
      if c' = c then handed n else handed (w.connections c') := by
  rw [Function.update_apply]
  split_ifs
  · rfl
  · rfl

theorem handed_callback {x : Exchange} {data : List UInt8}
    (h : w.callback S c x data = some w') (c' : ι) : handed (w'.connections c') =
      if c' = c then some (received x) else handed (w.connections c') := by
  have hcall := handed_call (w.connections c) x data
  have hnew : handed (w'.connections c') = handed (Function.update w.connections c
      ((w.connections c).call x data).1 c') := by
    cases hop : ((w.connections c).call x data).2 with
    | none =>
        rw [callback_quiet hop h]
    | some op => exact handed_perform (callback_perform hop h) c'
  rw [hnew, handed_update, hcall]

theorem follow_own {c : ι} {o : Option Received} {a : Act ι} (ha : a.connection = some c) :
    follow c o a = handOver o a :=
  if_pos ha

theorem follow_other {c c' : ι} {o : Option Received} {a : Act ι}
    (ha : a.connection = some c') (hne : c ≠ c') : follow c o a = o := by
  have hother : ¬ a.connection = some c := by
    rw [ha]
    exact fun h => hne (Option.some.inj h).symm
  exact if_neg hother

theorem handed_request {a : Act ι} (h : w.request S a = some w') (c : ι) :
    handed (w'.connections c) = follow c (handed (w.connections c)) a := by
  rcases request_cases h with ⟨c', r, rfl, _, hcall⟩ |
    ⟨c', chunk, x, rfl, _, hx, _, hcall⟩ | ⟨c', x, rfl, hx, _, hcall⟩ | ⟨c', x, rfl, hx, rfl⟩
  · rw [handed_callback hcall]
    split_ifs with hc
    · rw [hc, follow_own rfl]
      rfl
    · exact (follow_other rfl hc).symm
  · rw [handed_callback hcall]
    split_ifs with hc
    · rw [hc, follow_own rfl, handed, hx]
      rfl
    · exact (follow_other rfl hc).symm
  · rw [handed_callback hcall]
    split_ifs with hc
    · rw [hc, follow_own rfl, handed, hx]
      rfl
    · exact (follow_other rfl hc).symm
  · dsimp only
    rw [handed_update]
    split_ifs with hc
    · rw [hc, follow_own rfl]
      rfl
    · exact (follow_other rfl hc).symm

theorem handed_step {a : Act ι} (h : step S w a = some w') (c : ι) :
    handed (w'.connections c) = follow c (handed (w.connections c)) a := by
  rcases (step_cases h).2 with ⟨b, t, rfl, _, rfl⟩ | ⟨rfl, hlook⟩ | ⟨rfl, htimeout⟩ |
    ⟨_, hrequest⟩
  · rfl
  · unfold Httpd.look at hlook
    split at hlook
    next => cases hlook
    next =>
      split at hlook
      next =>
        cases hlook
        rfl
      next =>
        cases hlook
        exact handed_respond _ _ c
      next =>
        cases hlook
        rfl
  · unfold Httpd.timeout at htimeout
    split at htimeout
    next => cases htimeout
    next =>
      cases htimeout
      exact handed_respond _ _ c
  · exact handed_request hrequest c

/-- The daemon before its first request. -/
structure Fresh (w : Httpd ι) : Prop where
  connections : ∀ c, w.connections c = .idle
  completed : w.completed = []
  verifying : w.verifying = none

omit [DecidableEq ι] in
theorem sound_fresh (S : Surroundings) (hw : Fresh w) : Sound S w := by
  constructor
  · intro c
    rw [hw.connections c]
    exact tracked_idle
  · intro x hx
    rw [hw.completed] at hx
    cases hx
  · intro c check hverifying
    rw [hw.verifying] at hverifying
    cases hverifying

theorem sound_of_run {as : List (Act ι)} (hw : Fresh w) (h : run (step S) w as = some w') :
    Sound S w' := by
  apply run_induction (P := fun _ u => Sound S u) (sound_fresh S hw) ?_ h
  intro _ a u v hu hstep
  exact sound_step hu hstep

/-- What a connection has been handed are the calls for it, whatever comes between them. -/
theorem handed_of_run {as : List (Act ι)} (hw : Fresh w) (h : run (step S) w as = some w')
    (c : ι) : handed (w'.connections c) = as.foldl (follow c) none := by
  apply run_induction
    (P := fun as u => handed (u.connections c) = as.foldl (follow c) none) ?_ ?_ h
  · rw [hw.connections c]
    rfl
  · intro as a u v ih hstep
    rw [List.foldl_append, ← ih]
    exact handed_step hstep c

/-- The requests so far, those that are still being handled included. -/
def Handled (w : Httpd ι) (x : Exchange) : Prop :=
  (∃ c, (w.connections c).exchange = some x) ∨ x ∈ w.completed

/-- A function reads the whole of a body without a zero byte. -/
theorem cString_of_not_mem {body : List UInt8} (h : 0 ∉ body) : cString body = body := by
  unfold cString
  rw [List.takeWhile_eq_self_iff]
  intro b hb
  rw [decide_eq_true_iff]
  intro hzero
  rw [hzero] at hb
  exact h hb

omit [DecidableEq ι] in
theorem Sound.executed (h : Sound S w) {x : Exchange} (hx : Handled w x)
    (hbody : 0 ∉ x.chunks.flatten) : Executed x x.chunks.flatten := by
  have hexecuted : Executed x (str x) := by
    rcases hx with ⟨c, hc⟩ | hcompleted
    · exact (tracked_some (h.connections c) hc).2
    · exact h.completed x hcompleted
  rw [str, cString_of_not_mem hbody] at hexecuted
  exact hexecuted

/-- However the callbacks for the connections come, each request is executed once, with
the data of its own calls, or is refused. What a connection has been handed are the calls
for it. A callback does nothing to other connections, and to the server only what the
operation of its request does, at the last call. A verification is that of a request that
has asked for it, and each of its looks takes the first stanza that matches, if there is
one. -/
theorem requests_execute_once {as : List (Act ι)} (hw : Fresh w)
    (h : run (step S) w as = some w') :
    (∀ x, Handled w' x → 0 ∉ x.chunks.flatten →
      str x = x.chunks.flatten ∧ Executed x x.chunks.flatten) ∧
    (∀ c, handed (w'.connections c) = as.foldl (follow c) none) ∧
    (∀ c a w'', a.connection = some c → step S w' a = some w'' → Separate S w' c a w'') ∧
    (∀ c a w'', a.connection = some c → step S w' a = some w'' →
      (∀ x, (w'.connections c).exchange = some x → Refused x.request) →
        w''.server = w'.server) ∧
    ∀ c check, w'.verifying = some (c, check) → Verifies S (w'.connections c) check ∧
      ∀ a w'', step S w' a = some w'' → Checked w' c check a w'' := by
  have hsound := sound_of_run hw h
  refine ⟨?_, handed_of_run hw h, ?_, ?_, ?_⟩
  · intro x hx hbody
    exact ⟨cString_of_not_mem hbody, hsound.executed hx hbody⟩
  · intro c a w'' ha hstep
    exact separate_step hsound ha hstep
  · intro c a w'' ha hstep hrefused
    exact ((separate_step hsound ha hstep).quiet fun x op _ hx => hrefused x hx _ op).1
  · intro c check hverifying
    exact ⟨hsound.verifying c check hverifying,
      fun a w'' hstep => checked_step hsound hverifying hstep⟩

theorem serve_run {a : Action} {status_code : ℕ} (h : w.serve S c a status_code = some w') :
    run (Server.step S.toSetting) w.server [a] = some w'.server := by
  obtain ⟨t, ht, rfl⟩ := Option.map_eq_some_iff.mp h
  rw [respond_server, run, ht]
  rfl

/-- An operation is a call of the server, or begins a verification. -/
theorem perform_run {op : Operation} (h : w.perform S c op = some w') :
    w'.server.pc.isCrashed = true ∨
      ∃ as, run (Server.step S.toSetting) w.server as = some w'.server := by
  cases op with
  | serverSend stream => exact Or.inr ⟨_, serve_run h⟩
  | primeForId id stream => exact Or.inr ⟨_, serve_run h⟩
  | primeForQuery query stream => exact Or.inr ⟨_, serve_run h⟩
  | primeForXmlns xmlns stream => exact Or.inr ⟨_, serve_run h⟩
  | verifyAny stanza_text clear =>
      unfold Httpd.perform at h
      cases hparse : stanzaParse S.expat (S.text stanza_text) with
      | ok template =>
          simp only [hparse] at h
          cases h
          exact Or.inr ⟨[], rfl⟩
      | error fault =>
          simp only [hparse] at h
          cases h
          exact Or.inl rfl

/-- A look that does not end the process is a look of the server machine, or finds no
stanza to compare a null template with. -/
theorem look_run {S : Server.Setting} {s : State} {check : Check} {result : Bool}
    {store : List Stanza.XMPPStanza} (hrunning : ¬ s.pc.isCrashed = true)
    (h : check.look s.received_stanzas = .ok (result, store)) :
    ∃ as, run (Server.step S) s as = some { s with received_stanzas := store } := by
  unfold Check.look at h
  cases htemplate : check.template with
  | none =>
      have hstore : store = s.received_stanzas := by
        cases hreceived : s.received_stanzas with
        | nil =>
            rw [htemplate, hreceived] at h
            split_ifs at h
            · cases h
              rfl
            · cases h
              rfl
        | cons r rs =>
            rw [htemplate, hreceived] at h
            split_ifs at h
            · cases h
            · cases h
      rw [hstore]
      exact ⟨[], rfl⟩
  | some template =>
      rw [htemplate] at h
      split_ifs at h
      · cases h
        exact ⟨[], rfl⟩
      · have hstore := congrArg Prod.snd (Except.ok.inj h)
        dsimp only at hstore
        rw [← hstore]
        refine ⟨[.verifyAny template check.clear], ?_⟩
        rw [run, Server.step, if_neg hrunning]
        rfl

theorem request_run {a : Act ι} (h : w.request S a = some w') : w'.server.pc.isCrashed = true ∨
    ∃ as, run (Server.step S.toSetting) w.server as = some w'.server := by
  have hcallback : ∀ {c : ι} {x : Exchange} {data : List UInt8},
      w.callback S c x data = some w' → w'.server.pc.isCrashed = true ∨
        ∃ as, run (Server.step S.toSetting) w.server as = some w'.server := by
    intro c x data hcall
    unfold Httpd.callback at hcall
    split at hcall
    next =>
      cases hcall
      exact Or.inr ⟨[], rfl⟩
    next n op _ =>
      have hperform := perform_run hcall
      exact hperform
  rcases request_cases h with ⟨_, _, _, _, hcall⟩ | ⟨_, _, _, _, _, _, _, hcall⟩ |
    ⟨_, _, _, _, _, hcall⟩ | ⟨_, _, _, _, rfl⟩
  · exact hcallback hcall
  · exact hcallback hcall
  · exact hcallback hcall
  · exact Or.inr ⟨[], rfl⟩

/-- Beside the daemon the server runs as it does by itself, until a null template ends the
process. -/
theorem server_of_step {a : Act ι} (h : step S w a = some w') : w'.server.pc.isCrashed = true ∨
    ∃ as, run (Server.step S.toSetting) w.server as = some w'.server := by
  obtain ⟨hrunning, hcases⟩ := step_cases h
  rcases hcases with ⟨b, t, _, ht, rfl⟩ | ⟨_, hlook⟩ | ⟨_, htimeout⟩ | ⟨_, hrequest⟩
  · refine Or.inr ⟨[b], ?_⟩
    rw [run, ht]
    rfl
  · unfold Httpd.look at hlook
    split at hlook
    next => cases hlook
    next c check _ =>
      split at hlook
      next =>
        cases hlook
        exact Or.inl rfl
      next store hstore =>
        cases hlook
        rw [respond_server]
        exact Or.inr (look_run hrunning hstore)
      next store hstore =>
        cases hlook
        exact Or.inr (look_run hrunning hstore)
  · unfold Httpd.timeout at htimeout
    split at htimeout
    next => cases htimeout
    next =>
      cases htimeout
      rw [respond_server]
      exact Or.inr ⟨[], rfl⟩
  · exact request_run hrequest

theorem server_of_run {as : List (Act ι)} (h : run (step S) w as = some w') :
    w'.server.pc.isCrashed = true ∨
      ∃ bs, run (Server.step S.toSetting) w.server bs = some w'.server := by
  apply run_induction (P := fun _ u => u.server.pc.isCrashed = true ∨
    ∃ bs, run (Server.step S.toSetting) w.server bs = some u.server) (Or.inr ⟨[], rfl⟩) ?_ h
  intro _ a u v ih hstep
  have hrunning := (step_cases hstep).1
  obtain ⟨bs, hbs⟩ := ih.resolve_left hrunning
  rcases server_of_step hstep with hcrash | ⟨cs, hcs⟩
  · exact Or.inl hcrash
  · refine Or.inr ⟨bs ++ cs, ?_⟩
    rw [run_append, hbs]
    exact hcs

end Daemon

/-- Bytes read one by one. -/
def Surroundings.plain : Surroundings :=
  { Server.Setting.plain with text := fun bs => bs.map fun b => Char.ofNat b.toNat }

def atStart : Httpd ℕ := ⟨.idle, fun _ => .idle, [], none⟩

theorem fresh_atStart : Fresh atStart := ⟨fun _ => rfl, rfl, rfl⟩

def sendRequest : Request := ⟨utf8 "/send".toList, utf8 "POST".toList, fun _ => none⟩

def otherRequest : Request := ⟨utf8 "/".toList, utf8 "GET".toList, fun _ => none⟩

/-- A request to send two bytes, one at a time, and another one in between. -/
def interleaved : List (Act ℕ) :=
  [.first 0 sendRequest, .data 0 [60], .first 1 otherRequest, .data 0 [62], .completed 1,
    .last 0, .completed 0]

theorem interleaved_executed : ∃ w', run (step Surroundings.plain) atStart interleaved = some w' ∧
    w'.completed.map (fun x => (x.chunks, x.operations)) =
      [([], []), ([[60], [62]], [.serverSend [60, 62]])] ∧
    w'.server.send_queue = [[60, 62]] ∧
    ∀ x ∈ w'.completed, Executed x x.chunks.flatten := by
  have hrun : (run (step Surroundings.plain) atStart interleaved).any (fun w' =>
      w'.completed.map (fun x => (x.chunks, x.operations)) =
        [([], []), ([[60], [62]], [.serverSend [60, 62]])] ∧
      w'.server.send_queue = [[60, 62]]) = true := by decide +kernel
  obtain ⟨w', hw', htest⟩ := (Option.any_eq_true _ _).mp hrun
  obtain ⟨hcompleted, hqueue⟩ := of_decide_eq_true htest
  refine ⟨w', hw', hcompleted, hqueue, ?_⟩
  intro x hx
  refine ((requests_execute_once fresh_atStart hw').1 x (Or.inr hx) ?_).2
  have hchunks : (x.chunks, x.operations) ∈
      w'.completed.map fun x => (x.chunks, x.operations) := List.mem_map_of_mem hx
  rw [hcompleted] at hchunks
  simp only [List.mem_cons, Prod.mk.injEq, List.not_mem_nil, or_false] at hchunks
  rcases hchunks with ⟨hnil, _⟩ | ⟨htwo, _⟩
  · rw [hnil]
    decide
  · rw [htwo]
    decide

end Stabber.HttpRequests
