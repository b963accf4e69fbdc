import Stabber.HttpRequests
import Stabber.Retention

/-!
# What the answers to requests say

Every request whose last call has been made is answered once, a `/verify` request when its
verification ends, with what the last look has seen in the store. One with another method or
path is refused at each of its calls. What `"true"` says is kept in a ledger: each such answer
has taken one stanza out of the store that matches the body of the request, and nothing else
leaves the store before a shutdown.
-/

namespace Stabber.HttpAnswers
open XmlDocument Utf8 Stanza StanzaParse Stanzas StanzaHistory Transition HttpApi HttpRequests
open Server (State Action Setting Started)
open HarmlessTexts (Check)

/-- The answer to a `/verify` request. -/
def verdict (found : Bool) : Response :=
  ⟨200, some (if found then "true".toList else "false".toList)⟩

/-- The responses that fit a request. -/
inductive Answers (r : Request) : Response → Prop where
  | send (hurl : r.posts "/send".toList = true) : Answers r ⟨200, none⟩
  | stub (hurl : r.posts "/for".toList = true) (hasks : ¬ Refused r) : Answers r ⟨201, none⟩
  | verify (hurl : r.posts "/verify".toList = true) (found : Bool) : Answers r (verdict found)
  | refused (hrefused : Refused r) : Answers r badRequest

/-- The calls that have been made for a request. -/
def calls (x : Exchange) : ℕ := 1 + x.chunks.length + x.closed.toNat

/-- The responses to a request that is not being verified. One that is refused at once is
refused at every call. -/
structure Answered (x : Exchange) : Prop where
  unknown : x.request.stbbrOp = .opUnknown → x.responses = List.replicate (calls x) badRequest
  waiting : x.request.stbbrOp ≠ .opUnknown → x.closed = false → x.responses = []
  answered : x.request.stbbrOp ≠ .opUnknown → x.closed = true →
    ∃ response, x.responses = [response] ∧ Answers x.request response

/-- A request whose verification has not ended. -/
structure Pending (x : Exchange) : Prop where
  closed : x.closed = true
  verify : x.request.posts "/verify".toList = true
  responses : x.responses = []

/-- The request has been told that a stanza was found. -/
def verified (x : Exchange) : Bool := x.responses = [verdict true]

def Unverified (n : Connection) : Prop := ∀ x, n.exchange = some x → verified x = false

section Calls
variable {n : Connection} {x : Exchange} {data : List UInt8}

theorem call_unknown (hpointer : n.con_cls = none) (hop : x.request.stbbrOp = .opUnknown) :
    n.call x data = (⟨none, some { x with responses := x.responses ++ [badRequest] }⟩, none) := by
  rw [Connection.call, hpointer, connectionCb, if_pos hop]

theorem call_first (hpointer : n.con_cls = none) (hop : x.request.stbbrOp ≠ .opUnknown) :
    n.call x data = (⟨some ⟨x.request.stbbrOp, []⟩, some x⟩, none) := by
  rw [Connection.call, hpointer, connectionCb, if_neg hop]

theorem call_data {con_info : ConnectionInfo} (hpointer : n.con_cls = some con_info)
    (hdata : data ≠ []) : n.call x data =
      (⟨some { con_info with body := con_info.body ++ data }, some x⟩, none) := by
  have hlength : data.length ≠ 0 := fun hzero => hdata (List.length_eq_zero_iff.mp hzero)
  rw [Connection.call, hpointer, connectionCb, if_pos hlength]

theorem pointer_unknown (hop : x.request.stbbrOp = .opUnknown) : pointer x = none := if_pos hop

theorem pointer_known (hop : x.request.stbbrOp ≠ .opUnknown) :
    pointer x = some ⟨x.request.stbbrOp, x.chunks.flatten⟩ := if_neg hop

/-- The last call performs what is asked for, or refuses. -/
theorem call_last (hpointer : n.con_cls = pointer x) (hop : x.request.stbbrOp ≠ .opUnknown) :
    (∃ op, Asks x.request (str x) op ∧ n.call { x with closed := true } [] =
      (⟨pointer x, some { x with closed := true, operations := x.operations ++ [op] }⟩,
        some op)) ∨
    (Refused x.request ∧ n.call { x with closed := true } [] =
      (⟨pointer x, some { x with closed := true, responses := x.responses ++ [badRequest] }⟩,
        none)) := by
  have hcb : connectionCb x.request [] n.con_cls =
      (finish x.request ⟨x.request.stbbrOp, x.chunks.flatten⟩, pointer x) := by
    rw [hpointer, pointer_known hop]
    rfl
  by_cases hasks : ∃ op, Asks x.request (str x) op
  · obtain ⟨op, hasks⟩ := hasks
    refine Or.inl ⟨op, hasks, ?_⟩
    rw [Connection.call, hcb, finish_of_asks hasks]
  · have hfinish := (finish_cases x.request x.chunks.flatten).resolve_left hasks
    refine Or.inr ⟨refused_of_not (not_exists.mp hasks), ?_⟩
    rw [Connection.call, hcb, hfinish]

end Calls

section Responses
variable {x : Exchange}

theorem answered_unknown (hop : x.request.stbbrOp = .opUnknown)
    (hbad : x.responses = List.replicate (calls x) badRequest) : Answered x where
  unknown := fun _ => hbad
  waiting := fun hknown => (hknown hop).elim
  answered := fun hknown => (hknown hop).elim

theorem answered_waiting (hop : x.request.stbbrOp ≠ .opUnknown) (hopen : x.closed = false)
    (hnone : x.responses = []) : Answered x where
  unknown := fun hunknown => (hop hunknown).elim
  waiting := fun _ _ => hnone
  answered := by
    intro _ hclosed
    rw [hopen] at hclosed
    cases hclosed

theorem answered_once {response : Response} (hop : x.request.stbbrOp ≠ .opUnknown)
    (hclosed : x.closed = true) (hone : x.responses = [response])
    (hanswers : Answers x.request response) : Answered x where
  unknown := fun hunknown => (hop hunknown).elim
  waiting := by
    intro _ hopen
    rw [hclosed] at hopen
    cases hopen
  answered := fun _ _ => ⟨response, hone, hanswers⟩

/-- One more refusal of a request that was refused at once, at one more call. -/
theorem Answered.refuse (h : Answered x) (hop : x.request.stbbrOp = .opUnknown)
    (chunks : List (List UInt8)) (closed : Bool)
    (hcall : calls { x with chunks := chunks, closed := closed } = calls x + 1) :
    Answered { x with
      chunks := chunks, closed := closed, responses := x.responses ++ [badRequest] } := by
  refine answered_unknown (x := { x with
    chunks := chunks, closed := closed, responses := x.responses ++ [badRequest] }) hop ?_
  have hcalls : calls { x with
      chunks := chunks, closed := closed, responses := x.responses ++ [badRequest] } =
      calls x + 1 := hcall
  rw [hcalls, List.replicate_succ', ← h.unknown hop]

theorem not_verified_of_one {response : Response} (hone : x.responses = [response])
    (hne : response ≠ verdict true) : verified x = false := by
  refine decide_eq_false ?_
  rw [hone]
  exact fun h => hne (List.singleton_inj.mp h)

theorem not_verified_of_none (hnone : x.responses = []) : verified x = false := by
  rw [verified, hnone]
  rfl

/-- A request that was refused at once is never told of a stanza. -/
theorem Answered.unknown_unverified (h : Answered x) (hop : x.request.stbbrOp = .opUnknown) :
    verified x = false := by
  refine decide_eq_false ?_
  intro hone
  have hmem : verdict true ∈ List.replicate (calls x) badRequest := by
    rw [← h.unknown hop, hone]
    exact List.mem_cons_self
  cases List.eq_of_mem_replicate hmem

/-- Nor is one before its last call. -/
theorem Answered.unverified {n : Connection} (h : Answered x) (hx : n.exchange = some x)
    (hopen : x.closed = false) : Unverified n := by
  intro y hy
  rw [hx] at hy
  cases hy
  by_cases hop : x.request.stbbrOp = .opUnknown
  · exact h.unknown_unverified hop
  · exact not_verified_of_none (h.waiting hop hopen)

theorem known_of_posts {r : Request} (h : r.posts "/send".toList = true ∨
    r.posts "/for".toList = true ∨ r.posts "/verify".toList = true) : r.stbbrOp ≠ .opUnknown := by
  intro hop
  rcases h with hsend | hfor | hverify
  · rw [stbbrOp_send hsend] at hop
    cases hop
  · rw [stbbrOp_for hfor] at hop
    cases hop
  · rw [stbbrOp_verify hverify] at hop
    cases hop

theorem Pending.known (h : Pending x) : x.request.stbbrOp ≠ .opUnknown :=
  known_of_posts (Or.inr (Or.inr h.verify))

/-- The verification ends. -/
theorem Pending.answer (h : Pending x) (found : Bool) :
    Answered { x with responses := x.responses ++ [verdict found] } := by
  refine answered_once (x := { x with responses := x.responses ++ [verdict found] })
    h.known h.closed ?_ (.verify h.verify found)
  rw [h.responses]
  rfl

end Responses

section Daemon
variable {ι : Type} [DecidableEq ι] {S : Surroundings} {w w' : Httpd ι} {c : ι}

/-- Only the request that is being verified waits for its answer. -/
structure Answering (w : Httpd ι) : Prop where
  settled : ∀ c x, (w.connections c).exchange = some x →
    Answered x ∨ Pending x ∧ ∃ check, w.verifying = some (c, check)
  verifying : ∀ c check, w.verifying = some (c, check) →
    ∃ x, (w.connections c).exchange = some x ∧ Pending x
  completed : ∀ x ∈ w.completed, Answered x

theorem respond_self {x : Exchange} (hrunning : ¬ w.server.pc.isCrashed = true)
    (hx : (w.connections c).exchange = some x) (response : Response) :
    w.respond c response = { w with
      connections := Function.update w.connections c
        ⟨(w.connections c).con_cls,
          some { x with responses := x.responses ++ [response] }⟩ } := by
  rw [Httpd.respond, if_neg hrunning, Connection.respond, hx]
  rfl

namespace Answering

omit [DecidableEq ι] in
theorem serve (h : Answering w) (t : State) : Answering { w with server := t } :=
  ⟨h.settled, h.verifying, h.completed⟩

omit [DecidableEq ι] in
/-- Outside of a verification every request is answered. -/
theorem of_idle (h : Answering w) (hidle : w.verifying = none) {x : Exchange}
    (hx : (w.connections c).exchange = some x) : Answered x := by
  rcases h.settled c x hx with hanswered | ⟨-, check, hverifying⟩
  · exact hanswered
  · rw [hidle] at hverifying
    cases hverifying

/-- One connection goes on. -/
theorem update (h : Answering w) (hidle : w.verifying = none) {n : Connection}
    (hn : ∀ x, n.exchange = some x → Answered x) :
    Answering { w with connections := Function.update w.connections c n } := by
  constructor
  · intro c' x hx
    dsimp only at hx
    by_cases hc : c' = c
    · rw [hc, Function.update_self] at hx
      exact Or.inl (hn x hx)
    · rw [Function.update_of_ne hc] at hx
      exact Or.inl (h.of_idle hidle hx)
  · intro c' check hverifying
    dsimp only at hverifying
    rw [hidle] at hverifying
    cases hverifying
  · exact h.completed

/-- The verification ends with an answer. -/
theorem answer (h : Answering w) {check : Check} (hverifying : w.verifying = some (c, check))
    {t : State} (ht : ¬ t.pc.isCrashed = true) (found : Bool) :
    Answering ({ w with server := t, verifying := none }.respond c (verdict found)) := by
  obtain ⟨x, hx, hpending⟩ := h.verifying c check hverifying
  rw [respond_self (w := { w with server := t, verifying := none }) ht hx]
  constructor
  · intro c' y hy
    dsimp only at hy
    by_cases hc : c' = c
    · rw [hc, Function.update_self] at hy
      cases hy
      exact Or.inl (hpending.answer found)
    · rw [Function.update_of_ne hc] at hy
      rcases h.settled c' y hy with hanswered | ⟨-, check', hother⟩
      · exact Or.inl hanswered
      · rw [hverifying] at hother
        cases hother
        exact (hc rfl).elim
  · intro c' check' hnone
    cases hnone
  · exact h.completed

end Answering

/-- What a callback does. Only `request_completed` finds a request that has been told of a
stanza, and no callback tells it. -/
inductive Callback (S : Surroundings) (w : Httpd ι) (c : ι) : Httpd ι → Prop where
  | quiet {n : Connection} {y : Exchange} (hold : Unverified (w.connections c))
      (hn : n.exchange = some y) (hanswered : Answered y) (hnew : verified y = false) :
      Callback S w c { w with connections := Function.update w.connections c n }
  | serve {n : Connection} {y : Exchange} {a : Action} {t : State} {status_code : ℕ}
      (hold : Unverified (w.connections c)) (hn : n.exchange = some y)
      (hop : y.request.stbbrOp ≠ .opUnknown) (hclosed : y.closed = true)
      (hnone : y.responses = []) (hanswers : Answers y.request ⟨status_code, none⟩)
      (ha : ∀ template, a ≠ .verifyAny template true)
      (ht : Server.step S.toSetting w.server a = some t) :
      Callback S w c ({ w with
        server := t, connections := Function.update w.connections c n }.respond c
          ⟨status_code, none⟩)
  | verify {n : Connection} {y : Exchange} {check : Check} (hold : Unverified (w.connections c))
      (hn : n.exchange = some y) (hpending : Pending y) :
      Callback S w c { w with
        connections := Function.update w.connections c n, verifying := some (c, check) }
  | crash {n : Connection} : Callback S w c { w with
      server := w.server.crash, connections := Function.update w.connections c n }
  | completed {x : Exchange} (hx : (w.connections c).exchange = some x) :
      Callback S w c { w with
        connections := Function.update w.connections c .idle
        completed := w.completed ++ [x] }

theorem perform_cases {n : Connection} {x : Exchange} {op : Operation}
    (hold : Unverified (w.connections c))
    (hn : n.exchange = some { x with closed := true, operations := [op] })
    (hnone : x.responses = []) (hasks : Asks x.request (str x) op)
    (h : { w with connections := Function.update w.connections c n }.perform S c op = some w') :
    Callback S w c w' := by
  have hserve : ∀ {a : Action} {status_code : ℕ}, Answers x.request ⟨status_code, none⟩ →
      x.request.stbbrOp ≠ .opUnknown →
      { w with connections := Function.update w.connections c n }.serve S c a status_code =
        some w' → (∀ template, a ≠ .verifyAny template true) → Callback S w c w' := by
    intro a status_code hanswers hop hw' ha
    obtain ⟨t, ht, rfl⟩ := Option.map_eq_some_iff.mp hw'
    exact .serve hold hn hop rfl hnone hanswers ha ht
  have hstub : x.request.posts "/for".toList = true → Answers x.request ⟨201, none⟩ :=
    fun hurl => .stub hurl fun hrefused => hrefused _ _ hasks
  cases hasks with
  | send hurl => exact hserve (.send hurl) (known_of_posts (Or.inl hurl)) h fun _ => nofun
  | forId hurl hid hquery hxmlns =>
      exact hserve (hstub hurl) (known_of_posts (Or.inr (Or.inl hurl))) h fun _ => nofun
  | forQuery hurl hid hquery hxmlns =>
      exact hserve (hstub hurl) (known_of_posts (Or.inr (Or.inl hurl))) h fun _ => nofun
  | forXmlns hurl hid hquery hxmlns =>
      exact hserve (hstub hurl) (known_of_posts (Or.inr (Or.inl hurl))) h fun _ => nofun
  | verify hurl =>
      unfold Httpd.perform at h
      cases hparse : stanzaParse S.expat (S.text (str x)) with
      | error fault =>
          simp only [hparse] at h
          cases h
          exact .crash
      | ok template =>
          simp only [hparse] at h
          cases h
          exact .verify hold hn ⟨rfl, hurl, hnone⟩

/-- Every callback is one of these. -/
theorem callback_cases (hsound : Sound S w) (h : Answering w) (hidle : w.verifying = none)
    {a : Act ι} (hrequest : w.request S a = some w') : ∃ c, Callback S w c w' := by
  have hquiet : ∀ {c : ι} {x y : Exchange} {data : List UInt8} {con_cls : Option ConnectionInfo},
      Unverified (w.connections c) → (w.connections c).call x data = (⟨con_cls, some y⟩, none) →
      Answered y → verified y = false → w.callback S c x data = some w' →
      ∃ c, Callback S w c w' := by
    intro c x y data con_cls hold hcall hanswered hnew hw'
    rw [callback_quiet (by rw [hcall]) hw', hcall]
    exact ⟨c, .quiet hold rfl hanswered hnew⟩
  rcases request_cases hrequest with ⟨c, r, rfl, hx, hcall⟩ |
    ⟨c, chunk, x, rfl, hchunk, hx, hopen, hcall⟩ | ⟨c, x, rfl, hx, hopen, hcall⟩ |
    ⟨c, x, rfl, hx, rfl⟩
  · have hold : Unverified (w.connections c) := by
      intro y hy
      rw [hx] at hy
      cases hy
    have hpointer := tracked_none (hsound.connections c) hx
    by_cases hop : r.stbbrOp = .opUnknown
    · exact hquiet hold (call_unknown hpointer hop) (answered_unknown hop rfl) rfl hcall
    · exact hquiet hold (call_first hpointer hop) (answered_waiting hop rfl rfl) rfl hcall
  · have hpointer := (tracked_some (hsound.connections c) hx).1
    have hanswered := h.of_idle hidle hx
    have hold := hanswered.unverified hx hopen
    by_cases hop : x.request.stbbrOp = .opUnknown
    · rw [pointer_unknown hop] at hpointer
      have hmore : calls { x with chunks := x.chunks ++ [chunk] } = calls x + 1 := by
        unfold calls
        dsimp only
        rw [List.length_append, List.length_singleton]
        omega
      have hrefuse := hanswered.refuse hop (x.chunks ++ [chunk]) x.closed hmore
      exact hquiet hold
        (call_unknown (x := { x with chunks := x.chunks ++ [chunk] }) hpointer hop) hrefuse
        (hrefuse.unknown_unverified hop) hcall
    · rw [pointer_known hop] at hpointer
      have hwaiting := hanswered.waiting hop hopen
      exact hquiet hold (call_data hpointer hchunk)
        (answered_waiting (x := { x with chunks := x.chunks ++ [chunk] }) hop hopen hwaiting)
        (hold x hx) hcall
  · obtain ⟨hpointer, hexecuted⟩ := tracked_some (hsound.connections c) hx
    have hanswered := h.of_idle hidle hx
    have hold := hanswered.unverified hx hopen
    by_cases hop : x.request.stbbrOp = .opUnknown
    · rw [pointer_unknown hop] at hpointer
      have hmore : calls { x with closed := true } = calls x + 1 := by
        unfold calls
        rw [hopen]
        rfl
      have hrefuse := hanswered.refuse hop x.chunks true hmore
      exact hquiet hold (call_unknown (x := { x with closed := true }) hpointer hop) hrefuse
        (hrefuse.unknown_unverified hop) hcall
    · have hwaiting := hanswered.waiting hop hopen
      rcases call_last hpointer hop with ⟨op, hasks, hlast⟩ | ⟨hrefused, hlast⟩
      · have hperform := callback_perform (by rw [hlast]) hcall
        rw [hlast] at hperform
        refine ⟨c, perform_cases hold ?_ hwaiting hasks hperform⟩
        rw [hexecuted.waiting hopen]
        rfl
      · have hone : x.responses ++ [badRequest] = [badRequest] := by
          rw [hwaiting]
          rfl
        refine hquiet hold hlast (answered_once (x := { x with
          closed := true, responses := x.responses ++ [badRequest] }) hop rfl hone
            (.refused hrefused)) (not_verified_of_one hone nofun) hcall
  · exact ⟨c, .completed hx⟩

theorem answering_callback (h : Answering w) (hidle : w.verifying = none)
    (hcallback : Callback S w c w') : w'.server.pc.isCrashed = true ∨ Answering w' := by
  cases hcallback with
  | quiet hold hn hanswered hnew =>
      refine Or.inr (h.update hidle ?_)
      intro x hx
      rw [hn] at hx
      cases hx
      exact hanswered
  | @serve n y a t status_code hold hn hop hclosed hnone hanswers ha ht =>
      by_cases hcrash : t.pc.isCrashed = true
      · rw [respond_server]
        exact Or.inl hcrash
      · right
        have hself : (Function.update w.connections c n c).exchange = some y := by
          rw [Function.update_self, hn]
        rw [respond_self (w := { w with
          server := t, connections := Function.update w.connections c n }) hcrash hself]
        dsimp only
        rw [Function.update_idem]
        refine (h.serve t).update hidle ?_
        intro x hx
        cases hx
        have hone : y.responses ++ [⟨status_code, none⟩] = [⟨status_code, none⟩] := by
          rw [hnone]
          rfl
        exact answered_once hop hclosed hone hanswers
  | @verify n y check hold hn hpending =>
      right
      have hself : (Function.update w.connections c n c).exchange = some y := by
        rw [Function.update_self, hn]
      constructor
      · intro c' x hx
        dsimp only at hx
        by_cases hc : c' = c
        · rw [hc, hself] at hx
          cases hx
          rw [hc]
          exact Or.inr ⟨hpending, check, rfl⟩
        · rw [Function.update_of_ne hc] at hx
          exact Or.inl (h.of_idle hidle hx)
      · intro c' check' hverifying
        cases hverifying
        exact ⟨y, hself, hpending⟩
      · exact h.completed
  | crash => exact Or.inl rfl
  | @completed x hx =>
      right
      have hanswered := h.of_idle hidle hx
      have hupdated := h.update hidle (c := c) (n := .idle) nofun
      constructor
      · exact hupdated.settled
      · exact hupdated.verifying
      · intro y hy
        rcases List.mem_append.mp hy with hy | hy
        · exact h.completed y hy
        · rw [List.mem_singleton.mp hy]
          exact hanswered

theorem answering_step (hsound : Sound S w) (h : Answering w) {a : Act ι}
    (hstep : step S w a = some w') : w'.server.pc.isCrashed = true ∨ Answering w' := by
  obtain ⟨hrunning, hcases⟩ := step_cases hstep
  rcases hcases with ⟨b, t, _, _, rfl⟩ | ⟨_, hlook⟩ | ⟨_, htimeout⟩ | ⟨hidle, hrequest⟩
  · exact Or.inr (h.serve t)
  · unfold Httpd.look at hlook
    split at hlook
    next => cases hlook
    next c check hverifying =>
      split at hlook
      next =>
        cases hlook
        exact Or.inl rfl
      next store hfound =>
        cases hlook
        exact Or.inr (h.answer hverifying (t := { w.server with received_stanzas := store })
          hrunning true)
      next =>
        cases hlook
        exact Or.inr (h.serve _)
  · unfold Httpd.timeout at htimeout
    split at htimeout
    next => cases htimeout
    next c check hverifying =>
      cases htimeout
      exact Or.inr (h.answer hverifying hrunning false)
  · obtain ⟨c, hcallback⟩ := callback_cases hsound h hidle hrequest
    exact answering_callback h hidle hcallback

omit [DecidableEq ι] in
theorem answering_fresh (hw : Fresh w) : Answering w := by
  constructor
  · intro c x hx
    rw [hw.connections c] at hx
    cases hx
  · intro c check hverifying
    rw [hw.verifying] at hverifying
    cases hverifying
  · intro x hx
    rw [hw.completed] at hx
    cases hx

theorem answering_of_run {as : List (Act ι)} (hw : Fresh w) (h : run (step S) w as = some w') :
    w'.server.pc.isCrashed = true ∨ Answering w' := by
  have hinvariant := run_induction
    (P := fun _ u => Sound S u ∧ (u.server.pc.isCrashed = true ∨ Answering u))
    ⟨sound_fresh S hw, Or.inr (answering_fresh hw)⟩ ?_ h
  · exact hinvariant.2
  · intro _ a u v hu hstep
    refine ⟨sound_step hu.1 hstep, ?_⟩
    have hanswering := hu.2.resolve_left (step_cases hstep).1
    exact answering_step hu.1 hanswering hstep

/-- A step answers a `/verify` request with what it has seen in the store, or with the time
that is up. No other step answers one. -/
structure Judges (S : Surroundings) (w : Httpd ι) (a : Act ι) (w' : Httpd ι) : Prop where
  look : a = .look → ∀ c check, w.verifying = some (c, check) →
    Verifies S (w.connections c) check ∧ ∃ x found, (w.connections c).exchange = some x ∧
      Looks check.template w.server w'.server found ∧ (w'.connections c).exchange =
        some { x with responses := if found then [verdict true] else [] }
  timeout : a = .timeout → ∀ c check, w.verifying = some (c, check) →
    ∃ x, (w.connections c).exchange = some x ∧
      (w'.connections c).exchange = some { x with responses := [verdict false] }
  others : a ≠ .look → a ≠ .timeout → ∀ c x y, (w.connections c).exchange = some x →
    x.request.posts "/verify".toList = true → (w'.connections c).exchange = some y →
      y.responses = x.responses

theorem respond_pending {x : Exchange} (hrunning : ¬ w.server.pc.isCrashed = true)
    (hx : (w.connections c).exchange = some x) (hpending : Pending x) (response : Response) :
    ((w.respond c response).connections c).exchange =
      some { x with responses := [response] } := by
  rw [respond_self hrunning hx]
  dsimp only
  rw [Function.update_self, hpending.responses]
  rfl

/-- A look and the end of the time answer the request that is being verified. -/
theorem judges_check (hsound : Sound S w) (hanswering : Answering w) {check : Check}
    (hverifying : w.verifying = some (c, check)) {a : Act ι} (hstep : step S w a = some w')
    (ha : a = .look ∨ a = .timeout) : Judges S w a w' := by
  obtain ⟨x, hx, hpending⟩ := hanswering.verifying c check hverifying
  have hverifies := hsound.verifying c check hverifying
  obtain ⟨_, _, _, _, _, hlast, hclear⟩ := id hverifies
  have hrunning := (step_cases hstep).1
  have hsame : some x = some { x with responses := [] } := by
    rw [← hpending.responses]
  rcases ha with rfl | rfl
  · refine ⟨fun _ c' check' hverifying' => ?_, nofun, fun hne => (hne rfl).elim⟩
    rw [hverifying] at hverifying'
    cases hverifying'
    have hlook : w.look = some w' := by
      rw [step, if_neg hrunning] at hstep
      exact hstep
    unfold Httpd.look at hlook
    rw [hverifying] at hlook
    dsimp only at hlook
    split at hlook
    next fault hfault =>
      cases hlook
      exact ⟨hverifies, x, false, hx, looks_of_fault hlast hfault, hx.trans hsame⟩
    next store hfound =>
      cases hlook
      refine ⟨hverifies, x, true, hx, ?_, ?_⟩
      · rw [respond_server]
        exact looks_of_look hlast hclear hfound
      · exact respond_pending (w := { w with
          server := { w.server with received_stanzas := store }, verifying := none })
          hrunning hx hpending (verdict true)
    next store hmissed =>
      cases hlook
      exact ⟨hverifies, x, false, hx, looks_of_look hlast hclear hmissed, hx.trans hsame⟩
  · refine ⟨nofun, fun _ c' check' hverifying' => ?_, fun _ hne => (hne rfl).elim⟩
    rw [hverifying] at hverifying'
    cases hverifying'
    have htimeout : w.timeout = some w' := by
      rw [step, if_neg hrunning] at hstep
      exact hstep
    unfold Httpd.timeout at htimeout
    rw [hverifying] at htimeout
    cases htimeout
    exact ⟨x, hx, respond_pending (w := { w with verifying := none }) hrunning hx hpending
      (verdict false)⟩

theorem connections_verify {text : List UInt8} {clear : Bool}
    (h : w.perform S c (.verifyAny text clear) = some w') : w'.connections = w.connections := by
  unfold Httpd.perform at h
  cases hparse : stanzaParse S.expat (S.text text) with
  | error fault =>
      simp only [hparse] at h
      cases h
      rfl
  | ok template =>
      simp only [hparse] at h
      cases h
      rfl

/-- The last call of a `/verify` request answers nothing. -/
theorem responses_last {x y : Exchange} (hpointer : (w.connections c).con_cls = pointer x)
    (hverify : x.request.posts "/verify".toList = true)
    (hcall : w.callback S c { x with closed := true } [] = some w')
    (hy : (w'.connections c).exchange = some y) : y.responses = x.responses := by
  have hop := known_of_posts (Or.inr (Or.inr hverify))
  rcases call_last hpointer hop with ⟨op, hasks, hlast⟩ | ⟨hrefused, -⟩
  · have hperform := callback_perform (by rw [hlast]) hcall
    rw [hlast, asks_unique hasks (.verify hverify)] at hperform
    rw [connections_verify hperform] at hy
    dsimp only at hy
    rw [Function.update_self] at hy
    cases hy
    rfl
  · exact (hrefused [] _ (.verify hverify)).elim

theorem judges_step (hsound : Sound S w) (hanswering : Answering w) {a : Act ι}
    (hstep : step S w a = some w') : Judges S w a w' := by
  by_cases ha : a = .look ∨ a = .timeout
  · cases hverifying : w.verifying with
    | some p => exact judges_check hsound hanswering hverifying hstep ha
    | none =>
        constructor
        · intro _ c check hsome
          rw [hverifying] at hsome
          cases hsome
        · intro _ c check hsome
          rw [hverifying] at hsome
          cases hsome
        · exact fun hlook htimeout => (ha.elim hlook htimeout).elim
  · obtain ⟨hlook, htimeout⟩ := not_or.mp ha
    refine ⟨fun h => (hlook h).elim, fun h => (htimeout h).elim, fun _ _ c x y hx hverify hy => ?_⟩
    have hsame : w'.connections c = w.connections c → y.responses = x.responses := by
      intro hconnection
      rw [hconnection, hx] at hy
      cases hy
      rfl
    have hpointer := (tracked_some (hsound.connections c) hx).1
    obtain ⟨hrunning, hcases⟩ := step_cases hstep
    rcases hcases with ⟨b, t, -, -, rfl⟩ | ⟨rfl, -⟩ | ⟨rfl, -⟩ | ⟨hidle, hrequest⟩
    · exact hsame rfl
    · exact (hlook rfl).elim
    · exact (htimeout rfl).elim
    · obtain ⟨-, c', hc', hseparate⟩ := sound_request hsound hrunning hidle hrequest
      by_cases hc : c = c'
      · subst hc
        rcases request_cases hrequest with ⟨d, r, rfl, hnone, -⟩ |
          ⟨d, chunk, z, rfl, hchunk, hz, -, hcall⟩ | ⟨d, z, rfl, hz, -, hcall⟩ |
          ⟨d, z, rfl, -, rfl⟩
        · cases hc'
          rw [hx] at hnone
          cases hnone
        · cases hc'
          rw [hx] at hz
          cases hz
          have hop := known_of_posts (Or.inr (Or.inr hverify))
          rw [pointer_known hop] at hpointer
          have hdata := call_data (x := { x with chunks := x.chunks ++ [chunk] }) hpointer hchunk
          rw [callback_quiet (by rw [hdata]) hcall, hdata] at hy
          dsimp only at hy
          rw [Function.update_self] at hy
          cases hy
          rfl
        · cases hc'
          rw [hx] at hz
          cases hz
          exact responses_last hpointer hverify hcall hy
        · cases hc'
          dsimp only at hy
          rw [Function.update_self] at hy
          cases hy
      · exact hsame (hseparate.others c hc)

/-- However the callbacks and the looks at the store come, a request whose last call has
been made has one answer, and one that fits it, unless it is being verified, and what a
verification has seen is the answer to its request. Before its last call a request has none,
except that one with another method or path is refused at each call. -/
theorem answered_of_run {as : List (Act ι)} (hw : Fresh w) (h : run (step S) w as = some w')
    (hrunning : w'.server.pc.isCrashed = false) :
    (∀ x, Handled w' x → Answered x ∨ Pending x ∧
      ∃ c check, w'.verifying = some (c, check) ∧ (w'.connections c).exchange = some x) ∧
    ∀ a w'', step S w' a = some w'' → Judges S w' a w'' := by
  rcases answering_of_run hw h with hcrash | hanswering
  · rw [hrunning] at hcrash
    cases hcrash
  · refine ⟨?_, fun a w'' hstep => judges_step (sound_of_run hw h) hanswering hstep⟩
    rintro x (⟨c, hc⟩ | hcompleted)
    · rcases hanswering.settled c x hc with hanswered | ⟨hpending, check, hverifying⟩
      · exact Or.inl hanswered
      · exact Or.inr ⟨hpending, c, check, hverifying, hc⟩
    · exact Or.inl (hanswering.completed x hcompleted)

end Daemon

/-- Until the server is shut down, the store gets what arrives and loses what is cleared. -/
theorem store_step {S : Setting} {s t : State} {a : Action} (h : Server.step S s a = some t)
    (ha : ∀ template, a ≠ .verifyAny template true) (hrunning : t.stopped = false) :
    s.stopped = false ∧ ∃ new, t.arrived = s.arrived ++ new ∧
      t.received_stanzas = s.received_stanzas ++ new := by
  have hsame : ∀ {u : State}, u.stopped = s.stopped → u.arrived = s.arrived →
      u.received_stanzas = s.received_stanzas → u.stopped = false →
        s.stopped = false ∧ ∃ new, u.arrived = s.arrived ++ new ∧
          u.received_stanzas = s.received_stanzas ++ new := by
    intro u hstopped harrived hstore hu
    refine ⟨hstopped ▸ hu, [], ?_, ?_⟩
    · rw [harrived, List.append_nil]
    · rw [hstore, List.append_nil]
  cases Server.step_cases h with
  | crash a => cases hrunning
  | shutdown hw hpc hkill => cases hrunning
  | verifyAny template clear =>
      cases clear with
      | true => exact (ha template rfl).elim
      | false => exact hsame rfl rfl (stanzasVerifyAny_keep id template s.received_stanzas) hrunning
  | @call _ _ _ c _ _ _ hw hpc hclient hcall =>
      cases c with
      | add stanza => exact ⟨hrunning, [stanza], rfl, rfl⟩
      | streamStart | auth | id | query | xmlns => exact hsame rfl rfl rfl hrunning
  | quiet | send | stop | leave | connected | again | data | write | returned | lock | take
  | unlock | reply | event | next | streamEnd | kill => exact hsame rfl rfl rfl hrunning

/-! ## The ledger -/

section Ledger
variable {ι : Type} [DecidableEq ι] {S : Surroundings} {w w' : Httpd ι} {c : ι}

/-- The request asks for a stanza like this one. -/
def Matches (S : Surroundings) (x : Exchange) (stanza : XMPPStanza) : Prop :=
  x.request.posts "/verify".toList = true ∧ ∃ template,
    stanzaParse S.expat (S.text (str x)) = .ok (some template) ∧ stanzasEqual stanza template = 0

/-- The stanzas that requests have taken: one for each completed request that has been told
so, and one for each such request that is still there. -/
structure Ledger (S : Surroundings) (w : Httpd ι) (done : List XMPPStanza)
    (held : List (ι × XMPPStanza)) : Prop where
  completed : List.Forall₂ (Matches S) (w.completed.filter verified) done
  distinct : (held.map Prod.fst).Nodup
  holder : ∀ c stanza, (c, stanza) ∈ held →
    ∃ x, (w.connections c).exchange = some x ∧ verified x = true ∧ Matches S x stanza
  all : ∀ c x, (w.connections c).exchange = some x → verified x = true → c ∈ held.map Prod.fst
  balance : w.server.arrived.Perm (w.server.received_stanzas ++ (done ++ held.map Prod.snd))

namespace Ledger
variable {done : List XMPPStanza} {held : List (ι × XMPPStanza)}

omit [DecidableEq ι] in
/-- The server goes on. -/
theorem serve (h : Ledger S w done held) {t : State} {new : List XMPPStanza}
    (harrived : t.arrived = w.server.arrived ++ new)
    (hstore : t.received_stanzas = w.server.received_stanzas ++ new) :
    Ledger S { w with server := t } done held := by
  refine ⟨h.completed, h.distinct, h.holder, h.all, ?_⟩
  dsimp only
  rw [harrived, hstore, List.append_assoc]
  calc
    (w.server.arrived ++ new).Perm
        ((w.server.received_stanzas ++ (done ++ held.map Prod.snd)) ++ new) :=
      h.balance.append_right new
    _ = w.server.received_stanzas ++ ((done ++ held.map Prod.snd) ++ new) :=
      List.append_assoc _ _ _
    List.Perm _ (w.server.received_stanzas ++ (new ++ (done ++ held.map Prod.snd))) :=
      List.perm_append_comm.append_left _

omit [DecidableEq ι] in
/-- A connection goes on whose request has not been told of a stanza, and is not now. -/
theorem frame (h : Ledger S w done held) (hcompleted : w'.completed = w.completed)
    (hothers : ∀ c' ≠ c, w'.connections c' = w.connections c')
    (hold : Unverified (w.connections c)) (hnew : Unverified (w'.connections c))
    (hbalance : w'.server.arrived.Perm
      (w'.server.received_stanzas ++ (done ++ held.map Prod.snd))) : Ledger S w' done held := by
  constructor
  · rw [hcompleted]
    exact h.completed
  · exact h.distinct
  · intro c' stanza hmem
    obtain ⟨x, hx, hverified, hmatches⟩ := h.holder c' stanza hmem
    have hne : c' ≠ c := by
      rintro rfl
      rw [hold x hx] at hverified
      cases hverified
    exact ⟨x, by rw [hothers c' hne, hx], hverified, hmatches⟩
  · intro c' x hx hverified
    have hne : c' ≠ c := by
      rintro rfl
      rw [hnew x hx] at hverified
      cases hverified
    rw [hothers c' hne] at hx
    exact h.all c' x hx hverified
  · exact hbalance

/-- The verification for a connection has found a stanza. -/
theorem take (h : Ledger S w done held) {n : Connection} {x : Exchange} {t : State}
    {before after : List XMPPStanza} {stanza : XMPPStanza}
    (hold : Unverified (w.connections c)) (hn : n.exchange = some x)
    (hverified : verified x = true) (hmatches : Matches S x stanza)
    (harrived : t.arrived = w.server.arrived)
    (hstore : w.server.received_stanzas = before ++ stanza :: after)
    (hstore' : t.received_stanzas = before ++ after) :
    Ledger S { w with
      server := t, verifying := none, connections := Function.update w.connections c n }
      done ((c, stanza) :: held) := by
  have hfree : c ∉ held.map Prod.fst := by
    intro hmem
    obtain ⟨⟨c', stanza'⟩, hheld, rfl⟩ := List.mem_map.mp hmem
    obtain ⟨y, hy, hverified', -⟩ := h.holder c' stanza' hheld
    rw [hold y hy] at hverified'
    cases hverified'
  constructor
  · exact h.completed
  · rw [List.map_cons]
    exact List.nodup_cons.mpr ⟨hfree, h.distinct⟩
  · intro c' stanza' hmem
    rcases List.mem_cons.mp hmem with hhead | hheld
    · cases hhead
      refine ⟨x, ?_, hverified, hmatches⟩
      dsimp only
      rw [Function.update_self, hn]
    · have hne : c' ≠ c := by
        rintro rfl
        exact hfree (List.mem_map_of_mem hheld)
      dsimp only
      rw [Function.update_of_ne hne]
      exact h.holder c' stanza' hheld
  · intro c' y hy hverified'
    dsimp only at hy
    by_cases hc : c' = c
    · rw [hc]
      exact List.mem_cons_self
    · rw [Function.update_of_ne hc] at hy
      exact List.mem_cons_of_mem _ (h.all c' y hy hverified')
  · have hbalance := h.balance
    rw [hstore, List.append_assoc] at hbalance
    dsimp only
    rw [harrived, hstore', List.map_cons, List.append_assoc]
    calc
      w.server.arrived.Perm (before ++ stanza :: (after ++ (done ++ held.map Prod.snd))) := hbalance
      List.Perm _ (before ++ (after ++ stanza :: (done ++ held.map Prod.snd))) :=
        (List.perm_middle.symm).append_left before
      List.Perm _ (before ++ (after ++ (done ++ stanza :: held.map Prod.snd))) :=
        ((List.perm_middle.symm).append_left after).append_left before

/-- A request is completed. -/
theorem complete (h : Ledger S w done held) {x : Exchange}
    (hx : (w.connections c).exchange = some x) : ∃ done held, Ledger S { w with
      connections := Function.update w.connections c .idle
      completed := w.completed ++ [x] } done held := by
  have hidle : Unverified Connection.idle := nofun
  cases hverified : verified x with
  | false =>
      have hold : Unverified (w.connections c) := by
        intro y hy
        rw [hx] at hy
        cases hy
        exact hverified
      have hself : Unverified (Function.update w.connections c .idle c) := by
        rw [Function.update_self]
        exact hidle
      have hframe : Ledger S { w with connections := Function.update w.connections c .idle }
          done held :=
        h.frame rfl (fun c' hne => Function.update_of_ne hne _ _) hold hself h.balance
      refine ⟨done, held, ?_, hframe.distinct, hframe.holder, hframe.all, hframe.balance⟩
      have hfilter : (w.completed ++ [x]).filter verified = w.completed.filter verified := by
        rw [List.filter_append, List.filter_singleton, hverified]
        exact List.append_nil _
      dsimp only
      rw [hfilter]
      exact h.completed
  | true =>
      obtain ⟨⟨c', stanza⟩, hheld, hc⟩ := List.mem_map.mp (h.all c x hx hverified)
      obtain rfl : c' = c := hc
      obtain ⟨before, after, hsplit⟩ := List.append_of_mem hheld
      have hdistinct := h.distinct
      rw [hsplit, List.map_append, List.map_cons] at hdistinct
      obtain ⟨hfree, hrest⟩ := List.nodup_cons.mp (List.nodup_middle.mp hdistinct)
      have hstill : ∀ p ∈ before ++ after, p ∈ held := by
        intro p hp
        rw [hsplit]
        rcases List.mem_append.mp hp with hp | hp
        · exact List.mem_append_left _ hp
        · exact List.mem_append_right _ (List.mem_cons_of_mem _ hp)
      refine ⟨done ++ [stanza], before ++ after, ?_, ?_, ?_, ?_, ?_⟩
      · obtain ⟨y, hy, -, hmatches⟩ := h.holder c' stanza hheld
        rw [hx] at hy
        cases hy
        have hfilter : (w.completed ++ [x]).filter verified =
            w.completed.filter verified ++ [x] := by
          rw [List.filter_append, List.filter_singleton, hverified]
          rfl
        dsimp only
        rw [hfilter]
        exact List.rel_append h.completed (.cons hmatches .nil)
      · rw [List.map_append]
        exact hrest
      · intro c'' stanza' hmem
        have hne : c'' ≠ c' := by
          rintro rfl
          rw [← List.map_append] at hfree
          exact hfree (List.mem_map.mpr ⟨_, hmem, rfl⟩)
        dsimp only
        rw [Function.update_of_ne hne]
        exact h.holder c'' stanza' (hstill _ hmem)
      · intro c'' y hy hverified'
        dsimp only at hy
        by_cases hc : c'' = c'
        · rw [hc, Function.update_self] at hy
          cases hy
        · rw [Function.update_of_ne hc] at hy
          have hmem := h.all c'' y hy hverified'
          rw [hsplit, List.map_append, List.map_cons] at hmem
          rw [List.map_append]
          rcases List.mem_append.mp hmem with hmem | hmem
          · exact List.mem_append_left _ hmem
          · rcases List.mem_cons.mp hmem with hself | hmem
            · exact (hc hself).elim
            · exact List.mem_append_right _ hmem
      · have hbalance := h.balance
        rw [hsplit, List.map_append, List.map_cons] at hbalance
        refine hbalance.trans (List.Perm.append_left _ ?_)
        rw [List.map_append, List.append_assoc]
        exact List.perm_middle.append_left done

end Ledger

/-- There is a ledger until the server is shut down. -/
def Accounted (S : Surroundings) (w : Httpd ι) : Prop :=
  w.server.stopped = false → ∃ done held, Ledger S w done held

omit [DecidableEq ι] in
theorem accounted_serve (h : Accounted S w) {a : Action} {t : State}
    (ht : Server.step S.toSetting w.server a = some t)
    (ha : ∀ template, a ≠ .verifyAny template true) : Accounted S { w with server := t } := by
  intro hrunning
  obtain ⟨hbefore, new, harrived, hstore⟩ := store_step ht ha hrunning
  obtain ⟨done, held, hledger⟩ := h hbefore
  exact ⟨done, held, hledger.serve harrived hstore⟩

/-- One connection goes on that has not been told of a stanza. -/
theorem accounted_update (h : Accounted S w) {n : Connection} {verifying : Option (ι × Check)}
    (hold : Unverified (w.connections c)) (hnew : Unverified n) :
    Accounted S { w with
      connections := Function.update w.connections c n, verifying := verifying } := by
  intro hrunning
  obtain ⟨done, held, hledger⟩ := h hrunning
  refine ⟨done, held, hledger.frame rfl (fun c' hne => Function.update_of_ne hne _ _) hold ?_
    hledger.balance⟩
  dsimp only
  rw [Function.update_self]
  exact hnew

theorem accounted_callback (h : Accounted S w) (hcallback : Callback S w c w') :
    Accounted S w' := by
  cases hcallback with
  | @quiet n y hold hn hanswered hnew =>
      refine accounted_update h hold ?_
      intro x hx
      rw [hn] at hx
      cases hx
      exact hnew
  | @serve n y a t status_code hold hn hop hclosed hnone hanswers ha ht =>
      have hserved := accounted_serve h ht ha
      by_cases hcrash : t.pc.isCrashed = true
      · rw [Httpd.respond, if_pos hcrash]
        refine accounted_update hserved hold ?_
        intro x hx
        rw [hn] at hx
        cases hx
        exact not_verified_of_none hnone
      · have hself : (Function.update w.connections c n c).exchange = some y := by
          rw [Function.update_self, hn]
        rw [respond_self (w := { w with
          server := t, connections := Function.update w.connections c n }) hcrash hself]
        dsimp only
        rw [Function.update_idem]
        refine accounted_update hserved hold ?_
        intro x hx
        cases hx
        have hone : y.responses ++ [⟨status_code, none⟩] = [⟨status_code, none⟩] := by
          rw [hnone]
          rfl
        exact not_verified_of_one hone nofun
  | @verify n y check hold hn hpending =>
      refine accounted_update h hold ?_
      intro x hx
      rw [hn] at hx
      cases hx
      exact not_verified_of_none hpending.responses
  | crash =>
      intro hrunning
      cases hrunning
  | completed hx =>
      intro hrunning
      obtain ⟨done, held, hledger⟩ := h hrunning
      exact hledger.complete hx

/-- A verification ends without a stanza. -/
theorem accounted_missed (h : Accounted S w) {check : Check}
    (hverifying : w.verifying = some (c, check)) (hanswering : Answering w)
    (hrunning : ¬ w.server.pc.isCrashed = true) :
    Accounted S ({ w with verifying := none }.respond c (verdict false)) := by
  obtain ⟨x, hx, hpending⟩ := hanswering.verifying c check hverifying
  rw [respond_self (w := { w with verifying := none }) hrunning hx]
  have hold : Unverified (w.connections c) := by
    intro y hy
    rw [hx] at hy
    cases hy
    exact not_verified_of_none hpending.responses
  have hone : x.responses ++ [verdict false] = [verdict false] := by
    rw [hpending.responses]
    rfl
  refine accounted_update h hold ?_
  intro y hy
  cases hy
  exact not_verified_of_one hone (by decide)

/-- A verification ends with one. -/
theorem accounted_found (h : Accounted S w) {check : Check} {t : State}
    (hverifying : w.verifying = some (c, check)) (hsound : Sound S w) (hanswering : Answering w)
    (hrunning : ¬ w.server.pc.isCrashed = true) (hlooks : Looks check.template w.server t true) :
    Accounted S ({ w with server := t, verifying := none }.respond c (verdict true)) := by
  obtain ⟨x, hx, hpending⟩ := hanswering.verifying c check hverifying
  obtain ⟨y, hy, hasks, -, hparse, -⟩ := hsound.verifying c check hverifying
  rw [hx] at hy
  cases hy
  cases hlooks with
  | @found template stanza before after htemplate hsplit hfirst hmatch =>
      rw [respond_self (w := { w with
        server := { w.server with received_stanzas := before ++ after }, verifying := none })
          hrunning hx]
      have hold : Unverified (w.connections c) := by
        intro y hy
        rw [hx] at hy
        cases hy
        exact not_verified_of_none hpending.responses
      have hone : x.responses ++ [verdict true] = [verdict true] := by
        rw [hpending.responses]
        rfl
      intro hstopped
      obtain ⟨done, held, hledger⟩ := h hstopped
      refine ⟨done, (c, stanza) :: held, ?_⟩
      refine hledger.take (x := { x with responses := x.responses ++ [verdict true] })
        (t := { w.server with received_stanzas := before ++ after }) hold rfl
        (decide_eq_true hone) ⟨hpending.verify, template, ?_, hmatch⟩ rfl hsplit rfl
      rw [← htemplate]
      exact hparse

theorem server_of_missed {template : Option XMPPStanza} {s t : State}
    (h : Looks template s t false) (ht : ¬ t.pc.isCrashed = true) : t = s := by
  cases h with
  | missed | empty => rfl
  | fault => exact (ht rfl).elim

/-- Nothing but a `/verify` request clears. -/
def Spares (a : Act ι) : Prop := ∀ template, a ≠ .server (.verifyAny template true)

theorem accounted_step (hsound : Sound S w) (hanswering : Answering w) (h : Accounted S w)
    {a : Act ι} (ha : Spares a) (hstep : step S w a = some w') : Accounted S w' := by
  obtain ⟨hrunning, hcases⟩ := step_cases hstep
  rcases hcases with ⟨b, t, rfl, ht, rfl⟩ | ⟨_, hlook⟩ | ⟨_, htimeout⟩ | ⟨hidle, hrequest⟩
  · refine accounted_serve h ht ?_
    intro template hb
    exact ha template (congrArg Act.server hb)
  · unfold Httpd.look at hlook
    split at hlook
    next => cases hlook
    next c check hverifying =>
      split at hlook
      next =>
        cases hlook
        intro hstopped
        cases hstopped
      next store hfound =>
        cases hlook
        obtain ⟨_, _, _, _, _, hlast, hclear⟩ := hsound.verifying c check hverifying
        exact accounted_found h hverifying hsound hanswering hrunning
          (looks_of_look hlast hclear hfound)
      next store hmissed =>
        cases hlook
        obtain ⟨_, _, _, _, _, hlast, hclear⟩ := hsound.verifying c check hverifying
        rw [server_of_missed (looks_of_look hlast hclear hmissed) hrunning]
        exact h
  · unfold Httpd.timeout at htimeout
    split at htimeout
    next => cases htimeout
    next c check hverifying =>
      cases htimeout
      exact accounted_missed h hverifying hanswering hrunning
  · obtain ⟨c, hcallback⟩ := callback_cases hsound hanswering hidle hrequest
    exact accounted_callback h hcallback

omit [DecidableEq ι] in
theorem accounted_fresh (hw : Fresh w) (hserver : w.server.received_stanzas = w.server.arrived) :
    Accounted S w := by
  intro _
  refine ⟨[], [], ?_⟩
  constructor
  · rw [hw.completed]
    exact .nil
  · exact List.nodup_nil
  · intro c stanza hmem
    cases hmem
  · intro c x hx
    rw [hw.connections c] at hx
    cases hx
  · rw [hserver, List.map_nil, List.append_nil, List.append_nil]

/-- In every run, until a shutdown, the stanzas that have arrived are those in the store and
those that requests have taken: each request that has been told that its stanza was found has
one of them, which matches its body, and no two requests have the same. -/
theorem ledger_of_run {as : List (Act ι)} (hw : Fresh w)
    (hserver : w.server.received_stanzas = w.server.arrived) (has : ∀ a ∈ as, Spares a)
    (h : run (step S) w as = some w') (hstopped : w'.server.stopped = false) :
    ∃ done held, Ledger S w' done held := by
  have hinvariant := run_induction (P := fun as u => (∀ a ∈ as, Spares a) → Sound S u ∧
    (u.server.pc.isCrashed = true ∨ Answering u) ∧ Accounted S u) ?_ ?_ h
  · exact (hinvariant has).2.2 hstopped
  · exact fun _ => ⟨sound_fresh S hw, Or.inr (answering_fresh hw), accounted_fresh hw hserver⟩
  · intro as a u v hu hstep has
    obtain ⟨hsound, hanswering, haccounted⟩ := hu fun b hb => has b (List.mem_append_left _ hb)
    have hanswering := hanswering.resolve_left (step_cases hstep).1
    have ha := has a (List.mem_append_right _ List.mem_cons_self)
    exact ⟨sound_step hsound hstep, answering_step hsound hanswering hstep,
      accounted_step hsound hanswering haccounted ha hstep⟩

end Ledger

def verifyRequest : Request := ⟨utf8 "/verify".toList, utf8 "POST".toList, fun _ => none⟩

/-- A request that looks for a presence. -/
def verification (c : ℕ) : List (Act ℕ) :=
  [.first c verifyRequest, .data c (utf8 "<presence/>".toList), .last c, .look]

/-- A presence has arrived. The second request for one waits until its time is up. -/
def onePresence : List (Act ℕ) :=
  (Server.connect Retention.openStream ++ Retention.oneStanza).map .server ++ verification 0 ++
    verification 1 ++ [.timeout, .completed 1]

/-- The first request is told of the stanza, and the second is not. -/
def onlyFirst (w : Httpd ℕ) : Bool :=
  (w.connections 0).exchange.any verified && w.completed.map Exchange.responses = [[verdict false]]
    && !w.server.stopped && !w.server.pc.isCrashed

theorem run_onePresence : ∃ w', run (step Surroundings.plain) atStart onePresence = some w' ∧
    onlyFirst w' = true := by
  have hrun : (run (step Surroundings.plain) atStart onePresence).any onlyFirst = true := by
    decide +kernel
  obtain ⟨w', hw', htest⟩ := (Option.any_eq_true _ _).mp hrun
  exact ⟨w', hw', htest⟩

theorem answered_onePresence : ∃ w', run (step Surroundings.plain) atStart onePresence = some w' ∧
    ∀ x ∈ w'.completed, Answered x := by
  obtain ⟨w', hw', htest⟩ := run_onePresence
  simp only [onlyFirst, Bool.and_eq_true, Bool.not_eq_true', decide_eq_true_eq] at htest
  obtain ⟨⟨⟨-, hresponses⟩, -⟩, hrunning⟩ := htest
  refine ⟨w', hw', ?_⟩
  intro x hx
  rcases (answered_of_run fresh_atStart hw' hrunning).1 x (Or.inr hx) with
    hanswered | ⟨hpending, -⟩
  · exact hanswered
  · have hmem : x.responses ∈ w'.completed.map Exchange.responses := List.mem_map_of_mem hx
    rw [hresponses, hpending.responses] at hmem
    cases List.mem_singleton.mp hmem

theorem spares_onePresence : ∀ a ∈ onePresence, Spares a := by
  intro a ha template heq
  rw [heq] at ha
  simp [onePresence, verification, Server.connect, Retention.oneStanza, Server.written] at ha

theorem ledger_onePresence : ∃ w' done held,
    run (step Surroundings.plain) atStart onePresence = some w' ∧
    Ledger Surroundings.plain w' done held ∧ 0 ∈ held.map Prod.fst := by
  obtain ⟨w', hw', htest⟩ := run_onePresence
  simp only [onlyFirst, Bool.and_eq_true, Bool.not_eq_true'] at htest
  obtain ⟨⟨⟨hfirst, -⟩, hstopped⟩, -⟩ := htest
  obtain ⟨x, hx, hverified⟩ := (Option.any_eq_true _ _).mp hfirst
  obtain ⟨done, held, hledger⟩ := ledger_of_run (S := Surroundings.plain) fresh_atStart rfl
    spares_onePresence hw' hstopped
  exact ⟨w', done, held, hw', hledger, hledger.all 0 x hx hverified⟩

end Stabber.HttpAnswers
