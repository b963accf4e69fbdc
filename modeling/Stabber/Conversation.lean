import Stabber.ClientView

/-!
# The answers to a client

A client that sends a stream reads the replies that the stub book has for its stanzas, each
once and in order, among the texts that are sent to it.
-/

namespace Stabber.Conversation
open XmlDocument XmlReader XmlReading Stanza StanzaParse StanzaRoundTrip StanzaHistory
open StreamParser StreamTree Priming Callbacks StubReplies ReplyIds Utf8 ReadStream Transition
open Server State Sessions Answers ReplyStanzas StubBook WrittenReplies SendQueue ClientView
open XmlStreams

/-- The session that the calls make has given these replies, and kept what callbacks read. -/
def Gives (x : Session) (result : Except Fault Session) : Option (List Reply) → Prop
  | some replies => ∃ y, result = .ok y ∧ y.replies = x.replies ++ replies.map Reply.text ∧
      y.primed = x.primed ∧ y.received_stanzas = x.received_stanzas
  | none => ∃ fault, result = .error fault

section Session
variable {S : Setting} {x : Session}

theorem gives_nil : Gives x (x.calls S []) (some []) :=
  ⟨x, rfl, (List.append_nil _).symm, rfl, rfl⟩

theorem gives_one {c : Call XMPPStanza} {replies : Option (List Reply)}
    (h : Says (callback (x.context S) c) replies) (hc : x.stored c = x.received_stanzas) :
    Gives x (x.calls S [c]) replies := by
  cases replies with
  | none =>
      obtain ⟨fault, hfault⟩ := h
      refine ⟨fault, ?_⟩
      unfold Session.calls Session.call
      rw [hfault]
      rfl
  | some replies =>
      obtain ⟨client, hok⟩ := h
      refine ⟨{ x with client := client, replies := x.replies ++ replies.map Reply.text }, ?_, rfl,
        rfl, rfl⟩
      unfold Session.calls Session.call
      rw [hok, hc]
      rfl

theorem Gives.append {cs ds : List (Call XMPPStanza)} {first second : Option (List Reply)}
    (h : Gives x (x.calls S cs) first)
    (h' : ∀ y : Session, y.primed = x.primed → y.received_stanzas = x.received_stanzas →
      Gives y (y.calls S ds) second) :
    Gives x (x.calls S (cs ++ ds))
      (first.bind fun replies => second.map fun more => replies ++ more) := by
  rw [calls_append]
  cases first with
  | none =>
      obtain ⟨fault, hfault⟩ := h
      rw [hfault]
      exact ⟨fault, rfl⟩
  | some replies =>
      obtain ⟨y, hy, hreplies, hprimed, hstore⟩ := h
      rw [hy]
      have hrest := h' y hprimed hstore
      cases second with
      | none => exact hrest
      | some more =>
          obtain ⟨z, hz, hmore, hprimed', hstore'⟩ := hrest
          refine ⟨z, hz, ?_, hprimed'.trans hprimed, hstore'.trans hstore⟩
          rw [hmore, hreplies, List.append_assoc, List.map_append]

end Session

section Requests
variable {S : Setting}

theorem gives_id (x : Session) (hprimed : PlainPrimed x.primed) (name : Str) (id : Option Str) :
    Gives x (x.calls S (id.map (.id name)).toList)
      (some ((bookOf S.order x.primed).byId name id)) := by
  cases id with
  | none => exact gives_nil
  | some i => exact gives_one (says_id (x.context S) hprimed name i) rfl

theorem gives_query (x : Session) (hprimed : PlainPrimed x.primed) (query id : Option Str) :
    Gives x (x.calls S (query.map (.query · id)).toList)
      ((bookOf S.order x.primed).byQuery S.env x.received_stanzas query id) := by
  cases query with
  | none => exact gives_nil
  | some query => exact gives_one (says_query (x.context S) hprimed query id) rfl

theorem gives_xmlns (x : Session) (hprimed : PlainPrimed x.primed) (xmlns id : Option Str) :
    Gives x (x.calls S (xmlns.map (.xmlns · id)).toList)
      ((bookOf S.order x.primed).byXmlns xmlns id) := by
  cases xmlns with
  | none => exact gives_nil
  | some xmlns => exact gives_one (says_xmlns (x.context S) hprimed xmlns id) rfl

theorem gives_dispatch (x : Session) (hprimed : PlainPrimed x.primed) (request : XMPPStanza) :
    Gives x (x.calls S (dispatch request request))
      ((bookOf S.order x.primed).answer S.env x.received_stanzas request) := by
  unfold Book.answer
  cases hauth : stanzaGetChildByNs (some request) "jabber:iq:auth".toList with
  | some query =>
      rw [dispatch_of_auth request hauth]
      exact gives_one (says_auth (x.context S) hauth) rfl
  | none =>
      rw [dispatch_of_not_auth request hauth, List.append_assoc]
      refine Gives.append (gives_id x hprimed _ _) fun y hy hystore => ?_
      rw [← hy] at hprimed
      rw [← hy, ← hystore]
      refine Gives.append (gives_query y hprimed _ _) fun z hz _ => ?_
      rw [← hz] at hprimed
      rw [← hz]
      exact gives_xmlns z hprimed _ _

/-- The stanza is in the store when its callbacks run. -/
theorem answer_gives (x : Session) (hprimed : PlainPrimed x.primed) (request : XMPPStanza) :
    Gives { x with received_stanzas := x.received_stanzas ++ [request] }
      (Answers.answer S x request) ((bookOf S.order x.primed).answer S.env
        (x.received_stanzas ++ [request]) request) := by
  have hadd : x.call S (.add request) = .ok { x with
      received_stanzas := x.received_stanzas ++ [request]
      replies := x.replies ++ [] } := rfl
  unfold Answers.answer
  rw [Session.calls, hadd, List.append_nil]
  exact gives_dispatch { x with received_stanzas := x.received_stanzas ++ [request] } hprimed
    request

/-- The session has given these replies. Where there are none, it has ended with a fault. -/
def GivesAll (x : Session) (result : Except Fault Session) : Option (List Reply) → Prop
  | some replies => ∃ y, result = .ok y ∧ y.replies = x.replies ++ replies.map Reply.text
  | none => ∃ fault, result = .error fault

/-- The replies to all stanzas are those of the book. -/
theorem answers_give (x : Session) (hprimed : PlainPrimed x.primed) (requests : List XMPPStanza) :
    GivesAll x (Answers.answers S x requests)
      ((bookOf S.order x.primed).answers S.env x.received_stanzas requests) := by
  induction requests generalizing x with
  | nil => exact ⟨x, rfl, (List.append_nil _).symm⟩
  | cons request requests ih =>
      have hgives := answer_gives (S := S) x hprimed request
      unfold Book.answers Answers.answers
      cases hfirst : (bookOf S.order x.primed).answer S.env
          (x.received_stanzas ++ [request]) request with
      | none =>
          rw [hfirst] at hgives
          obtain ⟨fault, hfault⟩ := hgives
          rw [hfault]
          exact ⟨fault, rfl⟩
      | some replies =>
          rw [hfirst] at hgives
          obtain ⟨y, hy, hreplies, hyprimed, hystore⟩ := hgives
          dsimp only at hreplies hyprimed hystore
          rw [← hyprimed] at hprimed
          have hrest := ih y hprimed
          rw [hyprimed, hystore] at hrest
          rw [hy, Option.bind_some]
          cases hmore : (bookOf S.order x.primed).answers S.env (x.received_stanzas ++ [request])
            requests with
          | none =>
              rw [hmore] at hrest
              exact hrest
          | some more =>
              rw [hmore] at hrest
              obtain ⟨z, hz, hzreplies⟩ := hrest
              refine ⟨z, hz, ?_⟩
              rw [hzreplies, hreplies, List.append_assoc, List.map_append]

end Requests

/-! ## Replies are read from their texts -/

/-- What the parser makes of a plain stanza's text. -/
theorem stanza_of_text {text : Str} {x y : XMPPStanza} (hx : Plain x)
    (htext : stanzaToString x = text) (h : stanzaParse .reference text = .ok (some y)) : x = y := by
  rw [← htext, stanzaParse_stanzaToString .reference hx] at h
  exact Option.some.inj (Except.ok.inj h)

/-- These texts are no documents. -/
theorem not_stanza {text : Str} (h : (Reader.init.feed text).all (fun r => !r.1.complete) = true)
    {x : XMPPStanza} (hx : Plain x) : stanzaToString x ≠ text := by
  intro htext
  obtain ⟨r, hfeed, hcomplete⟩ := denotes_stanzaToString hx
  rw [← htext, hfeed, Option.all_some, hcomplete] at h
  cases h

theorem text_inj {r r' : Reply} (hr : r.IsPlain) (hr' : r'.IsPlain) (h : r.text = r'.text) :
    r = r' := by
  have hend : (Reader.init.feed STREAM_END).all (fun r => !r.1.complete) = true := by decide +kernel
  cases r with
  | stanza x =>
      cases r' with
      | stanza y =>
          rw [stanza_of_text hr h (stanzaParse_stanzaToString .reference hr')]
      | streamEnd => exact (not_stanza hend hr h).elim
  | streamEnd =>
      cases r' with
      | stanza y => exact (not_stanza hend hr' h.symm).elim
      | streamEnd => rfl

theorem replies_inj {rs rs' : List Reply} (hrs : ∀ r ∈ rs, r.IsPlain) (hrs' : ∀ r ∈ rs', r.IsPlain)
    (h : rs.map (fun r => utf8 r.text) = rs'.map fun r => utf8 r.text) : rs = rs' := by
  induction rs generalizing rs' with
  | nil =>
      cases rs' with
      | nil => rfl
      | cons r' rs' => cases h
  | cons r rs ih =>
      cases rs' with
      | nil => cases h
      | cons r' rs' =>
          rw [List.map_cons, List.map_cons, List.cons.injEq] at h
          rw [List.forall_mem_cons] at hrs hrs'
          rw [text_inj hrs.1 hrs'.1 (utf8_inj h.1), ih hrs.2 hrs'.2 h.2]

/-- The header is no reply to a stanza. -/
theorem text_ne_header {r : Reply} (hr : r.IsPlain) : r.text ∉ streamStartCallback := by
  have hopen : ∀ m ∈ [XML_START, STREAM_RESP],
      (Reader.init.feed m).all (fun r => !r.1.complete) = true := by decide +kernel
  have hfeatures : Denotes FEATURES (.elem "stream:features".toList [] []) :=
    ⟨⟨.outside false, [], true, false⟩, by decide +kernel, rfl⟩
  intro hmem
  cases r with
  | streamEnd =>
      have hend : STREAM_END ∉ streamStartCallback := by decide
      exact hend hmem
  | stanza x =>
      have hmem' : stanzaToString x ∈ [XML_START, STREAM_RESP] ++ [FEATURES] := hmem
      rcases List.mem_append.mp hmem' with hheader | hfeature
      · exact not_stanza (hopen _ hheader) hr rfl
      · have htext := List.mem_singleton.mp hfeature
        obtain rfl := stanza_of_text hr htext (stanzaParse_stub .reference hfeatures)
        have hshort : stanzaToString (StubReplies.stanza "stream:features".toList [] []) ≠
            FEATURES := by decide +kernel
        exact hshort htext

/-- What has come from one of the two sides. -/
def said (origin : Origin) (heard : List (Origin × XMPPStanza)) : List XMPPStanza :=
  (heard.filter fun m => m.1 = origin).map Prod.snd

/-- A text given to `server_send`, as it is read. -/
def Sent (m : List UInt8) (x : XMPPStanza) : Prop :=
  ∃ text d, m = utf8 text ∧ Spelled text d ∧ stanzaOf d = some x

theorem exists_sent {ms : List (List UInt8)} (h : ∀ m ∈ ms, IsDocument m) :
    ∃ sent, List.Forall₂ Sent ms sent := by
  induction ms with
  | nil => exact ⟨[], .nil⟩
  | cons m ms ih =>
      rw [List.forall_mem_cons] at h
      obtain ⟨text, n, as, ks, hm, hspelled⟩ := h.1
      obtain ⟨sent, hsent⟩ := ih h.2
      exact ⟨_, .cons ⟨text, _, hm, hspelled, rfl⟩ hsent⟩

/-- What the messages mean, and where they come from. -/
structure Heard (ms : List Message) (heard : List (Origin × XMPPStanza)) : Prop where
  replies : (ms.filter fun m => m.1 = .reply).map Prod.snd =
    (said .reply heard).map fun x => utf8 (stanzaToString x)
  plain : ∀ x ∈ said .reply heard, Plain x
  queued : List.Forall₂ Sent (queued ms) (said .queued heard)

theorem exists_heard {ms : List Message} {xs : List XMPPStanza} (h : List.Forall₂ Means ms xs) :
    ∃ heard, heard.map Prod.snd = xs ∧ Heard ms heard := by
  induction h with
  | nil => exact ⟨[], rfl, rfl, by simp [said], .nil⟩
  | @cons m x ms xs hm _ ih =>
      obtain ⟨heard, rfl, hreplies, hplain, hqueued⟩ := ih
      cases hm with
      | reply hx =>
          refine ⟨(.reply, x) :: heard, rfl, ?_, ?_, hqueued⟩
          · exact congrArg (utf8 (stanzaToString x) :: ·) hreplies
          · exact List.forall_mem_cons.mpr ⟨hx, hplain⟩
      | queued hd hx =>
          refine ⟨(.queued, x) :: heard, rfl, hreplies, hplain, ?_⟩
          exact .cons ⟨_, _, rfl, hd, hx⟩ hqueued

theorem plainParser_deliver {p q : TreeParser} {es : List Event} (hp : PlainParser p)
    (hes : ∀ e ∈ es, PlainEvent e) (h : deliver TreeParser.handle p es = .ok q) :
    PlainParser q := by
  induction es generalizing p with
  | nil =>
      cases h
      exact hp
  | cons e es ih =>
      rw [List.forall_mem_cons] at hes
      cases he : p.handle e with
      | error fault =>
          rw [deliver, he] at h
          cases h
      | ok r =>
          rw [deliver_cons r es he] at h
          exact ih (plainParser_handle hp hes.1 he) hes.2 h

theorem plain_events {as : List Action} (has : ∀ a ∈ as, PlainAction a) :
    ∀ e ∈ eventsOf as, PlainEvent e := by
  intro e he
  obtain ⟨a, ha, he⟩ := List.mem_flatMap.mp he
  split at he
  next chunk events => exact has _ ha e he
  next => cases he

section Stream
variable {S : Setting} {s t : State} {as : List Action} {attributes : List (Str × Str)}
  {ks : List Node} {us : List Token}

theorem plain_requests (hparser : PlainParser s.parser) (has : ∀ a ∈ as, PlainAction a)
    (hnames : ForestNamed (fun n => ¬ TreeParser.isStreamName n) ks)
    (hu : us <+: forestTokens ks ++ [.stop "stream:stream".toList])
    (hreports : Reports (eventsOf as) (.start "stream:stream".toList attributes :: us)) :
    ∀ x ∈ stanzasOf (closedWithin ks us.length), PlainHead x := by
  obtain ⟨p, hp, harrivals⟩ :=
    TreeParser.deliver_stream (start s).parser rfl attributes ks hnames hu
  have hevents : deliver TreeParser.handle (start s).parser (eventsOf as) = .ok p := by
    rw [deliver_reports TreeParser.handle_cut _ hreports]
    exact hp
  have hstart : PlainParser (start s).parser := ⟨hparser.curr_stanza, by simp [start]⟩
  have hplain := plainParser_deliver hstart (plain_events has) hevents
  intro x hx
  refine hplain.arrivals x ?_
  rw [harrivals]
  exact List.mem_append_right _ (List.mem_cons_of_mem _ (List.mem_map_of_mem hx))

end Stream

/-! ## The whole conversation -/

/-- The replies of the server, after the header. -/
def replyTexts (replies : List Reply) : List (List UInt8) := replies.map fun r => utf8 r.text

/-- There is one header: replies to stanzas are none. -/
theorem header_once {replies : List Reply} (hreplies : ∀ r ∈ replies, r.IsPlain) {m : Str}
    (hm : m ∈ streamStartCallback) :
    (streamStartCallback.map utf8 ++ replyTexts replies).count (utf8 m) ≤ 1 := by
  have honce : ∀ m ∈ streamStartCallback, (streamStartCallback.map utf8).count (utf8 m) ≤ 1 := by
    decide +kernel
  have hnone : (replyTexts replies).count (utf8 m) = 0 := by
    refine List.count_eq_zero.mpr fun hmem => ?_
    obtain ⟨r, hr, htext⟩ := List.mem_map.mp hmem
    rw [← utf8_inj htext] at hm
    exact text_ne_header (hreplies r hr) hm
  rw [List.count_append, hnone, Nat.add_zero]
  exact honce m hm

/-- What the client has read: the replies to its stanzas by the book, and among them the texts
that were sent to it. Each of the two is complete and in order. All its stanzas are stored. -/
structure Conversed (S : Setting) (s t : State) (requests : List XMPPStanza)
    (replies ending : List Reply) (heard : List (Origin × XMPPStanza)) (closed : Bool)
    (sent : List XMPPStanza) : Prop where
  answers : (bookOf S.order s.primed).answers S.env s.received_stanzas requests = some replies
  /-- The end of the stream is answered by one. -/
  ended : ending = [] ∨ ending = [.streamEnd] ∧ (t.pc = .ending ∨ t.kill_recv = true)
  replied : replies ++ ending =
    (said .reply heard).map .stanza ++ if closed then [.streamEnd] else []
  accepted : List.Forall₂ Sent t.accepted sent
  queued : said .queued heard <+: sent
  stream : Receives (t.wire.map Prod.snd) closed (featuresStanza :: heard.map Prod.snd)
  stored : t.stopped = false → t.received_stanzas = s.received_stanzas ++ requests

/-- The messages by their origin. -/
theorem messages_of_entered {s : State} {ms closing : List Message}
    {heard : List (Origin × XMPPStanza)} (hentered : s.entered = headerMessages ++ ms ++ closing)
    (hclosing : closing = [] ∨ closing = [closingMessage]) (hheard : Heard ms heard) :
    replied s = streamStartCallback.map utf8 ++ replyTexts ((said .reply heard).map .stanza ++
      if decide (closing ≠ []) then [.streamEnd] else []) ∧ queued s.entered = queued ms := by
  have hreplies : (ms.filter fun m => m.1 = .reply).map Prod.snd =
      replyTexts ((said .reply heard).map .stanza) := by
    rw [hheard.replies, replyTexts, List.map_map]
    rfl
  have hclose : (closing.filter fun m => m.1 = .reply).map Prod.snd =
        replyTexts (if decide (closing ≠ []) then [.streamEnd] else []) ∧ queued closing = [] := by
    rcases hclosing with rfl | rfl
    · exact ⟨rfl, rfl⟩
    · exact ⟨rfl, rfl⟩
  constructor
  · unfold replied
    rw [hentered, List.filter_append, List.filter_append, List.map_append, List.map_append,
      hreplies, hclose.1, List.append_assoc]
    unfold replyTexts
    rw [List.map_append]
    rfl
  · rw [hentered, queued_append, queued_append, hclose.2, List.append_nil]
    rfl

theorem conversed_of_speaking {S : Setting} {s t : State} {requests : List XMPPStanza}
    {replies ending : List Reply} (hspeaking : Speaking t) (ht : Answered t)
    (hlast : ∀ before after, t.entered = before ++ closingMessage :: after → after = [])
    (hanswers : (bookOf S.order s.primed).answers S.env s.received_stanzas requests = some replies)
    (hplain : ∀ r ∈ replies, r.IsPlain)
    (hending : ending = [] ∨ ending = [.streamEnd] ∧ (t.pc = .ending ∨ t.kill_recv = true))
    (hreplied : replied t = streamStartCallback.map utf8 ++ replyTexts (replies ++ ending))
    (hstored : t.stopped = false → t.received_stanzas = s.received_stanzas ++ requests) :
    ∃ heard closed sent, Conversed S s t requests replies ending heard closed sent := by
  have hall : ∀ r ∈ replies ++ ending, r.IsPlain := by
    rw [List.forall_mem_append]
    refine ⟨hplain, ?_⟩
    rcases hending with rfl | ⟨rfl, -⟩
    · simp
    · exact List.forall_mem_singleton.mpr trivial
  have hone : OneStream t := by
    refine ⟨fun m hm => ?_, hlast⟩
    rw [hreplied]
    exact header_once hall hm
  obtain ⟨ms, xs, closing, hentered, hclosing, hmeans, hreceives⟩ :=
    receives_of_speaking hspeaking ht hone
  obtain ⟨heard, rfl, hheard⟩ := exists_heard hmeans
  obtain ⟨htexts, hqueued⟩ := messages_of_entered hentered hclosing hheard
  -- the texts that have been written are the first of those that were accepted
  obtain ⟨whole, hordered⟩ := hspeaking.ordered
  obtain ⟨later, haccepted⟩ := hordered.unbroken.order
  rw [hqueued] at haccepted
  obtain ⟨more, hmore⟩ := exists_sent fun m (hm : m ∈ later) =>
    hspeaking.accepted m (haccepted ▸ List.mem_append_right _ hm)
  refine ⟨heard, closing ≠ [], said .queued heard ++ more, hanswers, hending, ?_, ?_,
    List.prefix_append _ _, hreceives, hstored⟩
  · rw [hreplied] at htexts
    refine replies_inj hall ?_ (List.append_cancel_left htexts)
    rw [List.forall_mem_append]
    constructor
    · intro r hr
      obtain ⟨x, hx, rfl⟩ := List.mem_map.mp hr
      exact hheard.plain x hx
    · split_ifs
      · exact List.forall_mem_singleton.mpr trivial
      · simp
  · rw [← haccepted]
    exact List.rel_append hheard.queued hmore

/-- The session of a stream, by the book. -/
theorem session_by_book (S : Setting) {s : State} (hprimed : PlainPrimed s.primed)
    (requests : List XMPPStanza) :
    (∀ y, Answers.answers S (greeted (start s)) requests = .ok y → ∃ replies,
      (bookOf S.order s.primed).answers S.env s.received_stanzas requests = some replies ∧
      y.replies = streamStartCallback ++ replies.map Reply.text) ∧
    (∀ fault, Answers.answers S (greeted (start s)) requests = .error fault →
      (bookOf S.order s.primed).answers S.env s.received_stanzas requests = none) := by
  have hgives := answers_give (S := S) (greeted (start s)) hprimed requests
  change GivesAll _ _ ((bookOf S.order s.primed).answers S.env s.received_stanzas _) at hgives
  cases hreplies : (bookOf S.order s.primed).answers S.env s.received_stanzas requests with
  | none =>
      rw [hreplies] at hgives
      obtain ⟨fault, hfault⟩ := hgives
      refine ⟨fun y hy => ?_, fun _ _ => rfl⟩
      rw [hfault] at hy
      cases hy
  | some replies =>
      rw [hreplies] at hgives
      obtain ⟨y, hy, htexts⟩ := hgives
      refine ⟨fun y' hy' => ?_, fun fault hfault => ?_⟩
      · rw [hy] at hy'
        cases hy'
        exact ⟨replies, rfl, htexts⟩
      · rw [hy] at hfault
        cases hfault

/-- In every run in which the client opens its stream first, no `write` fails and nothing is
primed or taken from the store: a client that needs no escapes reads the replies that the book
has for its stanzas, and among them the texts sent to it, as one stream. The server crashes
only where the book has no reply. -/
theorem client_answered {S : Setting} {s t : State} {as : List Action} (hs : Started s)
    (hprimed : PlainPrimed s.primed) (hstore : ∀ x ∈ s.received_stanzas, PlainHead x)
    (hparser : PlainParser s.parser) (h : Runs (step S) Speaks s as t)
    (hquiet : ∀ a ∈ as, changes a = false) {attributes : List (Str × Str)} {ks : List Node}
    {us : List Token} (hnames : ForestNamed (fun n => ¬ TreeParser.isStreamName n) ks)
    (hu : us <+: forestTokens ks ++ [.stop "stream:stream".toList])
    (hreports : Reports (eventsOf as) (.start "stream:stream".toList attributes :: us)) :
    (t.pc = .crashed → (bookOf S.order s.primed).answers S.env s.received_stanzas
      (stanzasOf (closedWithin ks us.length)) = none) ∧
    (Answered t → (∀ before after, t.entered = before ++ closingMessage :: after → after = []) →
      ∃ replies ending heard closed sent, Conversed S s t (stanzasOf (closedWithin ks us.length))
        replies ending heard closed sent) := by
  have hrun := h.to_run
  have hfollows := follows_of_runs hs (runs_of_run hrun fun a ha u _ => hquiet a ha)
  obtain ⟨hanswered, hfaulty⟩ := stream_session hs hrun hquiet hnames hu hreports
  obtain ⟨hbook, hnone⟩ := session_by_book S hprimed (stanzasOf (closedWithin ks us.length))
  constructor
  · intro hcrash
    obtain ⟨fault, hfault⟩ := hfollows.faulty hcrash
    obtain ⟨fault', hfault'⟩ := hfaulty fault hfault
    exact hnone fault' hfault'
  · intro ht hlast
    obtain ⟨x, hx, hreplied, hended, hstate⟩ := hfollows.level ht.handling ht.crashed
    obtain ⟨y, closing, hy, hsame, hstored, hclosing⟩ := hanswered x hx
    obtain ⟨replies, hreplies, htexts⟩ := hbook y hy
    have hplain := Book.answers_plain (plainBook_bookOf S.order hprimed) hstore
      (plain_requests hparser (h.each fun u a hok => hok.plain) hnames hu hreports) hreplies
    have hspeaking := speaking_of_runs hs hprimed hstore hparser h
    obtain ⟨ending, rfl, hending⟩ : ∃ ending : List Reply, closing = ending.map Reply.text ∧
        (ending = [] ∨ ending = [.streamEnd] ∧ (t.pc = .ending ∨ t.kill_recv = true)) := by
      rcases hclosing with rfl | ⟨rfl, hend⟩
      · exact ⟨[], rfl, Or.inl rfl⟩
      · exact ⟨[.streamEnd], rfl, Or.inr ⟨rfl, hended hend⟩⟩
    refine ⟨replies, ending, conversed_of_speaking hspeaking ht hlast hreplies hplain hending ?_
      fun hstopped => (hstate hstopped).2.trans hstored⟩
    rw [hreplied, hsame, htexts, List.append_assoc, ← List.map_append, List.map_append,
      List.map_map]
    rfl

theorem client_answered_toTheEnd : ∃ t, run (step .plain) stubbed toTheEnd = some t ∧
    ∃ replies ending heard closed sent,
      Conversed .plain stubbed t (stanzasOf [request]) replies ending heard closed sent := by
  have hrun : (run (fun u a => if speaks u a then step .plain u a else none) stubbed
      toTheEnd).any (fun t => answered t && oneStream t) = true := by decide +kernel
  obtain ⟨t, ht, htest⟩ := (Option.any_eq_true _ _).mp hrun
  rw [Bool.and_eq_true] at htest
  have hruns := runs_of_checked (fun _ _ h => speaks_of_test h) ht
  have hprimed : PlainPrimed stubbed.primed :=
    plainPrimed_primeForId (plainPrimed_primeInit (plainPrimed_none none)) plainStub_a _
  have hquiet : ∀ a ∈ toTheEnd, changes a = false := by decide
  have hreports : Reports (eventsOf toTheEnd) (.start "stream:stream".toList [] ::
      (forestTokens [request] ++ [.stop "stream:stream".toList])) := ⟨by decide, by decide⟩
  refine ⟨t, hruns.to_run, (client_answered started_stubbed hprimed ?_ ?_ hruns hquiet
    names_request List.prefix_rfl hreports).2 (answered_of_test htest.1)
    (oneStream_of_test htest.2).closing⟩
  · intro x hx
    cases hx
  · constructor
    · intro c hc
      cases hc
    · intro x hx
      cases hx

end Stabber.Conversation
