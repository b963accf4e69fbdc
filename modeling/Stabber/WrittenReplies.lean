import Stabber.Answers
import Stabber.PrimedTexts
import Stabber.StubBook

/-!
# Every reply is a stanza written out

With plain stubs, ids and addresses, each message that answers a stanza is what
`stanza_to_string` writes for some plain stanza, the default replies and the answers to an
authentication included; only a failed authentication also ends the stream.
-/

namespace Stabber.WrittenReplies
open XmlDocument XmlReader XmlReading Stanza StanzaParse Stanzas StanzaRoundTrip StreamParser
open StanzaHistory Priming Callbacks ReplyIds StreamTree Utf8 ReadStream WriteStream Transition
open Server State Sessions Answers ReplyStanzas StubBook

/-! ## The replies of the callbacks -/

/-- A part of the stream's header or its end, or what `stanza_to_string` writes for a plain
stanza. -/
def Spoken (m : Str) : Prop :=
  m ∈ streamStartCallback ∨ m = STREAM_END ∨ ∃ x, Plain x ∧ m = stanzaToString x

/-- What a call is made with. -/
def PlainCall : Call XMPPStanza → Prop
  | .streamStart => True
  | .add stanza => PlainHead stanza
  | .auth stanza => PlainHead stanza ∧
      (stanzaGetChildByNs (some stanza) "jabber:iq:auth".toList).isSome
  | .id _ id => PlainValue id
  | .query _ id => ∀ i, id = some i → PlainValue i
  | .xmlns _ id => ∀ i, id = some i → PlainValue i

theorem spoken_of_says {result : Except Fault (XMPPClient × List Str)}
    {replies : Option (List Reply)} (hbook : Says result replies)
    (hplain : ∀ rs, replies = some rs → ∀ r ∈ rs, r.IsPlain) {client : XMPPClient}
    {messages : List Str} (h : result = .ok (client, messages)) : ∀ m ∈ messages, Spoken m := by
  cases replies with
  | none =>
      obtain ⟨fault, hfault⟩ := hbook
      rw [hfault] at h
      cases h
  | some rs =>
      obtain ⟨client', hok⟩ := hbook
      rw [hok] at h
      cases h
      intro m hm
      obtain ⟨r, hr, rfl⟩ := List.mem_map.mp hm
      have hr := hplain rs rfl r hr
      cases r with
      | stanza x => exact Or.inr (Or.inr ⟨x, hr, rfl⟩)
      | streamEnd => exact Or.inr (Or.inl rfl)

/-- The replies are those of the book. -/
theorem spoken_callback {ctx : Context} (hprimed : PlainPrimed ctx.primed)
    (hstore : ∀ s ∈ ctx.received, PlainHead s) {c : Call XMPPStanza} (hc : PlainCall c)
    {client : XMPPClient} {messages : List Str}
    (h : callback ctx c = .ok (client, messages)) : ∀ m ∈ messages, Spoken m := by
  have hbook := plainBook_bookOf ctx.order hprimed
  cases c with
  | streamStart =>
      cases h
      exact fun m hm => Or.inl hm
  | add stanza =>
      cases h
      simp
  | auth stanza =>
      obtain ⟨hhead, hauth⟩ := hc
      obtain ⟨query, hquery⟩ := Option.isSome_iff_exists.mp hauth
      exact spoken_of_says (says_auth ctx hquery)
        (fun rs hrs => Book.authentication_plain (plainValue_getD hhead.id) hrs) h
  | id name id =>
      refine spoken_of_says (says_id ctx hprimed name id) ?_ h
      rintro rs ⟨⟩
      refine Book.byId_plain hbook ?_ name
      rintro i ⟨⟩
      exact hc
  | query query id =>
      exact spoken_of_says (says_query ctx hprimed query id)
        (fun rs hrs => Book.byQuery_plain hbook hstore hc hrs) h
  | xmlns xmlns id =>
      exact spoken_of_says (says_xmlns ctx hprimed xmlns id)
        (fun rs hrs => Book.byXmlns_plain hbook hc hrs) h

theorem plainCall_dispatch {s : XMPPStanza} (hs : PlainHead s) :
    ∀ c ∈ dispatch s s, PlainCall c := by
  intro c hc
  cases hauth : stanzaGetChildByNs (some s) "jabber:iq:auth".toList with
  | some query =>
      rw [dispatch_of_auth s hauth, List.mem_singleton] at hc
      rw [hc]
      exact ⟨hs, Option.isSome_iff_exists.mpr ⟨query, hauth⟩⟩
  | none =>
      rcases (mem_dispatch s hauth).mp hc with ⟨i, hi, rfl⟩ | ⟨query, -, rfl⟩ | ⟨xmlns, -, rfl⟩
      · exact hs.id i hi
      · exact hs.id
      · exact hs.id

theorem plainCall_arrivals {arrivals : List (Arrival XMPPStanza)}
    (h : ∀ s, .stanza s ∈ arrivals → PlainHead s) : ∀ c ∈ arrivalCalls arrivals, PlainCall c := by
  intro c hc
  obtain ⟨a, ha, hc⟩ := List.mem_flatMap.mp hc
  cases a with
  | header =>
      rw [List.mem_singleton.mp hc]
      trivial
  | stanza s =>
      rcases List.mem_cons.mp hc with rfl | hc
      · exact h s ha
      · exact plainCall_dispatch (h s ha) c hc

/-! ## What the client sends -/

/-- The ids and addresses that Expat reports need no escape. -/
def PlainEvent : Event → Prop
  | .start _ attributes =>
      ∀ a ∈ attributes, (a.1 = "id".toList ∨ a.1 = "to".toList) → PlainValue a.2
  | _ => True

/-- The stub calls have plain documents, and the client sends plain ids and addresses. -/
def PlainAction : Action → Prop
  | .forId _ stream => PlainStub stream
  | .forQuery _ stream => PlainStub stream
  | .forXmlns _ stream => PlainStub stream
  | .recv (.data _ events) => ∀ e ∈ events, PlainEvent e
  | _ => True

theorem plainPrimed_step {S : Setting} {s t : State} {a : Action} (hs : PlainPrimed s.primed)
    (ha : PlainAction a) (h : step S s a = some t) : PlainPrimed t.primed := by
  cases hgiven : PrimedTexts.given a with
  | none =>
      rcases PrimedTexts.step_primed hgiven h with hsame | hfree | ⟨password, hpassword⟩
      · rw [hsame]
        exact hs
      · rw [hfree]
        exact plainPrimed_none none
      · rw [hpassword]
        exact ⟨hs.ids, hs.queries, hs.xmlns⟩
  | some p =>
      unfold step at h
      rw [if_neg (running_of_step h)] at h
      cases a with
      | forId id stream =>
          cases h
          exact plainPrimed_primeForId hs ha id
      | forQuery query stream =>
          cases h
          cases hprime : primeForQuery S.expat query stream s.primed with
          | error fault => exact hs
          | ok primed => exact plainPrimed_primeForQuery hs ha query hprime
      | forXmlns xmlns stream =>
          cases h
          cases hprime : primeForXmlns S.expat xmlns stream s.primed with
          | error fault => exact hs
          | ok primed => exact plainPrimed_primeForXmlns hs ha xmlns hprime
      | _ => cases hgiven

/-- The stanzas that are open, and those that have been received. -/
structure PlainParser (p : TreeParser) : Prop where
  curr_stanza : ∀ c, p.curr_stanza = some c → PlainHead c.node ∧ ∀ s ∈ c.above, PlainHead s
  arrivals : ∀ s, .stanza s ∈ p.arrivals → PlainHead s

theorem plainHead_stanzaNew {element : Str} {attributes : List (Str × Str)}
    (h : PlainEvent (.start element attributes)) : PlainHead (stanzaNew element attributes) := by
  have hvalue : ∀ k v, (k = "id".toList ∨ k = "to".toList) →
      stanzaGetAttr (stanzaNew element attributes) k = some v → PlainValue v := by
    intro k v hk hv
    obtain ⟨a, ha, rfl⟩ := Option.map_eq_some_iff.mp hv
    have hname : a.name = k := by simpa using List.find?_some ha
    obtain ⟨b, hb, rfl⟩ := List.mem_map.mp (List.mem_of_find?_eq_some ha)
    obtain rfl := hname
    exact h b hb hk
  exact ⟨fun i hi => hvalue _ i (Or.inl rfl) hi, fun jid hjid => hvalue _ jid (Or.inr rfl) hjid⟩

theorem PlainParser.parents {p : TreeParser} (hp : PlainParser p) :
    ∀ s ∈ p.parents, PlainHead s := by
  intro s hs
  unfold TreeParser.parents at hs
  split_ifs at hs
  · cases hs
  · split at hs
    next c hc =>
      obtain ⟨hnode, habove⟩ := hp.curr_stanza c hc
      rcases List.mem_cons.mp hs with rfl | hs
      · exact hnode
      · exact habove s hs
    next => cases hs

theorem plainParser_handle {p q : TreeParser} (hp : PlainParser p) {e : Event}
    (he : PlainEvent e) (h : p.handle e = .ok q) : PlainParser q := by
  cases e with
  | start element attributes =>
      cases h
      constructor
      · rintro c ⟨⟩
        exact ⟨plainHead_stanzaNew he, hp.parents⟩
      · intro s hs
        rcases List.mem_append.mp hs with hs | hs
        · exact hp.arrivals s hs
        · unfold TreeParser.header at hs
          split_ifs at hs
          · cases List.mem_singleton.mp hs
          · cases hs
  | stop element =>
      change p.endElement = .ok q at h
      unfold TreeParser.endElement at h
      split_ifs at h
      · split at h
        next node parent above hc =>
          cases h
          obtain ⟨-, habove⟩ := hp.curr_stanza _ hc
          constructor
          · rintro c ⟨⟩
            exact ⟨(habove parent List.mem_cons_self).of_attrs rfl,
              fun s hs => habove s (List.mem_cons_of_mem _ hs)⟩
          · exact hp.arrivals
        next => cases h
      · split at h
        next node above hc =>
          cases h
          obtain ⟨hnode, habove⟩ := hp.curr_stanza _ hc
          constructor
          · intro c hc'
            dsimp only at habove hc'
            cases above with
            | nil => cases hc'
            | cons s above =>
                cases hc'
                exact ⟨habove s List.mem_cons_self,
                  fun s hs => habove s (List.mem_cons_of_mem _ hs)⟩
          · intro s hs
            rcases List.mem_append.mp hs with hs | hs
            · exact hp.arrivals s hs
            · cases List.mem_singleton.mp hs
              exact hnode
        next => cases h
      · cases h
        exact ⟨hp.curr_stanza, hp.arrivals⟩
  | data text =>
      change p.handleData text = .ok q at h
      unfold TreeParser.handleData at h
      split_ifs at h
      · split at h
        next c hc =>
          cases h
          obtain ⟨hnode, habove⟩ := hp.curr_stanza c hc
          constructor
          · rintro c ⟨⟩
            exact ⟨hnode.of_attrs rfl, habove⟩
          · exact hp.arrivals
        next => cases h
      · cases h
        exact hp

structure PlainFeeding (events : List Event) (calls : List (Call XMPPStanza))
    (replies : List Str) : Prop where
  events : ∀ e ∈ events, PlainEvent e
  calls : ∀ c ∈ calls, PlainCall c
  replies : ∀ m ∈ replies, Spoken m

/-- Tables, stanzas and all that is still to be handled are plain, and all replies so far
have been spoken. -/
structure PlainState (s : State) : Prop where
  primed : PlainPrimed s.primed
  received_stanzas : ∀ x ∈ s.received_stanzas, PlainHead x
  parser : PlainParser s.parser
  feeding : ∀ chunk events calls replies, s.pc = .feeding chunk events calls replies →
    PlainFeeding events calls replies
  replied : ∀ m ∈ replied s, ∃ r, Spoken r ∧ m = utf8 r

namespace PlainState
variable {S : Setting} {s t : State} (h : PlainState s)
include h

/-- Another place of the thread. -/
theorem at_pc {pc : Pc} (hpc : ∀ chunk events calls replies,
    pc = .feeding chunk events calls replies → PlainFeeding events calls replies) :
    PlainState { s with pc := pc } :=
  ⟨h.primed, h.received_stanzas, h.parser, hpc, h.replied⟩

theorem elsewhere {pc : Pc} (hpc : isHandling pc = false) : PlainState { s with pc := pc } := by
  refine h.at_pc ?_
  rintro chunk events calls replies rfl
  cases hpc

theorem begin_reply {m : Str} (hm : Spoken m) : PlainState (s.begin .reply (utf8 m)) := by
  refine ⟨h.primed, h.received_stanzas, h.parser, h.feeding, ?_⟩
  intro m' hm'
  unfold Sessions.replied State.begin at hm'
  rw [List.filter_append, List.map_append, List.mem_append] at hm'
  rcases hm' with hm' | hm'
  · exact h.replied m' hm'
  · exact ⟨m, hm, List.mem_singleton.mp hm'⟩

theorem begin_queued (stream : List UInt8) : PlainState (s.begin .queued stream) := by
  refine ⟨h.primed, h.received_stanzas, h.parser, h.feeding, ?_⟩
  intro m hm
  unfold Sessions.replied State.begin at hm
  rw [List.filter_append, List.map_append, List.mem_append] at hm
  rcases hm with hm | hm
  · exact h.replied m hm
  · cases hm

theorem record {c : Call XMPPStanza} (hc : PlainCall c) : PlainState (s.record c) := by
  cases c with
  | add stanza =>
      refine ⟨h.primed, ?_, h.parser, h.feeding, h.replied⟩
      intro x hx
      rcases List.mem_append.mp hx with hx | hx
      · exact h.received_stanzas x hx
      · rw [List.mem_singleton.mp hx]
        exact hc
  | streamStart => exact ⟨h.primed, h.received_stanzas, h.parser, h.feeding, h.replied⟩
  | auth | id | query | xmlns => exact h

end PlainState

theorem mem_of_storeAfter {store : List XMPPStanza} {template : XMPPStanza} {clear : Bool}
    {x : XMPPStanza} (hx : x ∈ storeAfter store (.verifyAny template clear)) : x ∈ store := by
  rcases stanzasVerifyAny_cases id template clear store with
    ⟨_, h⟩ | ⟨before, r, after, hstore, _, _, h⟩
  · have hsame : storeAfter store (.verifyAny template clear) = store := congrArg Prod.snd h
    rwa [hsame] at hx
  · have hsnd : storeAfter store (.verifyAny template clear) =
        if clear then before ++ after else store := congrArg Prod.snd h
    rw [hsnd] at hx
    split_ifs at hx
    · rw [hstore]
      rcases List.mem_append.mp hx with hx | hx
      · exact List.mem_append_left _ hx
      · exact List.mem_append_right _ (List.mem_cons_of_mem _ hx)
    · exact hx

theorem plainState_start {s : State} (hs : Started s) (hprimed : PlainPrimed s.primed)
    (hstore : ∀ x ∈ s.received_stanzas, PlainHead x) (hparser : PlainParser s.parser) :
    PlainState s := by
  refine ⟨hprimed, hstore, hparser, ?_, ?_⟩
  · rw [hs.pc]
    intro chunk events calls replies hpc
    cases hpc
  · unfold replied
    rw [hs.entered]
    simp

theorem plainState_step {S : Setting} {s t : State} {a : Action} (hs : PlainState s)
    (ha : PlainAction a) (h : step S s a = some t) : PlainState t := by
  have hprimed := plainPrimed_step hs.primed ha h
  cases step_cases h with
  | quiet a primed timeout hchunk =>
      exact ⟨hprimed, hs.received_stanzas, hs.parser, hs.feeding, hs.replied⟩
  | crash a =>
      have hcrash : PlainState { s with pc := .crashed } := hs.elsewhere rfl
      exact ⟨hcrash.primed, hcrash.received_stanzas, hcrash.parser, hcrash.feeding, hcrash.replied⟩
  | send stream hlock =>
      exact ⟨hs.primed, hs.received_stanzas, hs.parser, hs.feeding, hs.replied⟩
  | verifyAny template clear =>
      exact ⟨hs.primed, fun x hx => hs.received_stanzas x (mem_of_storeAfter hx),
        hs.parser, hs.feeding, hs.replied⟩
  | stop => exact ⟨hs.primed, hs.received_stanzas, hs.parser, hs.feeding, hs.replied⟩
  | leave a hpc => exact hs.elsewhere rfl
  | connected hpc =>
      have htop : PlainState { s with pc := .top } := hs.elsewhere rfl
      exact ⟨htop.primed, htop.received_stanzas, ⟨hs.parser.curr_stanza, hs.parser.arrivals⟩,
        htop.feeding, htop.replied⟩
  | again hpc => exact hs.elsewhere rfl
  | data chunk events hpc =>
      refine hs.at_pc ?_
      rintro _ _ _ _ ⟨⟩
      exact ⟨ha, by simp, by simp⟩
  | write hw hwrite => exact ⟨hs.primed, hs.received_stanzas, hs.parser, hs.feeding, hs.replied⟩
  | returned hw hsend => exact ⟨hs.primed, hs.received_stanzas, hs.parser, hs.feeding, hs.replied⟩
  | shutdown hw hpc hkill =>
      have hend : PlainState { s with pc := .finished } := hs.elsewhere rfl
      exact ⟨hprimed, by simp [shutdown], hs.parser, hend.feeding, hs.replied⟩
  | lock hw hpc hkill => exact hs.elsewhere rfl
  | take hw hpc => exact (hs.begin_queued _).elsewhere rfl
  | unlock hw hpc =>
      have hreceiving : PlainState { s with pc := .receiving } := hs.elsewhere rfl
      exact ⟨hs.primed, hs.received_stanzas, hs.parser, hreceiving.feeding, hs.replied⟩
  | reply hw hpc =>
      obtain ⟨hevents, hcalls, hreplies⟩ := hs.feeding _ _ _ _ hpc
      refine (hs.begin_reply (hreplies _ List.mem_cons_self)).at_pc ?_
      rintro _ _ _ _ ⟨⟩
      exact ⟨hevents, hcalls, fun m hm => hreplies m (List.mem_cons_of_mem _ hm)⟩
  | @call chunk events calls c client client' messages hw hpc hclient hcall =>
      obtain ⟨hevents, hcalls, -⟩ := hs.feeding _ _ _ _ hpc
      have hspoken := @spoken_callback (s.context S client) hs.primed hs.received_stanzas c
        (hcalls c List.mem_cons_self) client' messages hcall
      have hrecord : PlainState { s.record c with pc := .feeding chunk events calls messages } := by
        refine (hs.record (hcalls c List.mem_cons_self)).at_pc ?_
        rintro _ _ _ _ ⟨⟩
        exact ⟨hevents, fun d hd => hcalls d (List.mem_cons_of_mem _ hd), hspoken⟩
      exact ⟨hrecord.primed, hrecord.received_stanzas, hrecord.parser, hrecord.feeding,
        hrecord.replied⟩
  | @event chunk events e parser hw hpc hevent =>
      obtain ⟨hevents, -, -⟩ := hs.feeding _ _ _ _ hpc
      have hempty : PlainParser { s.parser with arrivals := [] } :=
        ⟨hs.parser.curr_stanza, by simp⟩
      have hparser := plainParser_handle hempty (hevents e List.mem_cons_self) hevent
      have hcalls : PlainFeeding events (arrivalCalls parser.arrivals) [] :=
        ⟨fun d hd => hevents d (List.mem_cons_of_mem _ hd),
          plainCall_arrivals hparser.arrivals, by simp⟩
      refine ⟨hs.primed, hs.received_stanzas, hparser, ?_, hs.replied⟩
      rintro _ _ _ _ ⟨⟩
      exact hcalls
  | next hw hpc hend =>
      have htop : PlainState { s with pc := .top } := hs.elsewhere rfl
      exact ⟨hs.primed, hs.received_stanzas, hs.parser, htop.feeding, hs.replied⟩
  | streamEnd hw hpc hend =>
      have hending : PlainState { s.begin .reply (utf8 STREAM_END) with pc := .ending } :=
        (hs.begin_reply (Or.inr (Or.inl rfl))).elsewhere rfl
      exact ⟨hending.primed, hending.received_stanzas, hending.parser, hending.feeding,
        hending.replied⟩
  | kill hw hpc =>
      have htop : PlainState { s with pc := .top } := hs.elsewhere rfl
      exact ⟨htop.primed, htop.received_stanzas, htop.parser, htop.feeding, htop.replied⟩

/-- With plain stubs, and a client whose ids and addresses need no escape, every reply is
the header of the stream, its end, or a stanza as `stanza_to_string` writes it. -/
theorem replies_written {S : Setting} {s t : State} {as : List Action} (hs : Started s)
    (hprimed : PlainPrimed s.primed) (hstore : ∀ x ∈ s.received_stanzas, PlainHead x)
    (hparser : PlainParser s.parser) (h : run (step S) s as = some t)
    (has : ∀ a ∈ as, PlainAction a) :
    ∀ m ∈ replied t, ∃ r, m = utf8 r ∧
      (r ∈ streamStartCallback ∨ r = STREAM_END ∨ ∃ x, Plain x ∧ r = stanzaToString x) := by
  have hruns : Runs (step S) (fun _ a => PlainAction a) s as t :=
    runs_of_run h fun a ha _ => has a ha
  have ht := hruns.invariant (plainState_start hs hprimed hstore hparser)
    fun u a v hu ha huv => plainState_step hu ha huv
  intro m hm
  obtain ⟨r, hr, heq⟩ := ht.replied m hm
  exact ⟨r, heq, hr⟩

theorem plainStub_a : PlainStub "<a/>".toList :=
  ⟨"a".toList, [], [], ⟨⟨.outside false, [], true, false⟩, rfl, rfl⟩,
    .mk (by simp) (by simp [contentOf, addContent, textOf]) (by simp [stanzasOf])⟩

def isPlainEvent : Event → Bool
  | .start _ attributes => attributes.all fun a => decide (PlainValue a.2)
  | _ => true

/-- No stub call, and plain attributes. -/
def isPlainAction : Action → Bool
  | .recv (.data _ events) => events.all isPlainEvent
  | a => (PrimedTexts.given a).isNone

theorem plainEvent_of_test {e : Event} (h : isPlainEvent e = true) : PlainEvent e := by
  cases e with
  | start element attributes =>
      intro a ha _
      exact of_decide_eq_true (List.all_eq_true.mp h a ha)
  | stop | data => trivial

theorem plainAction_of_test {a : Action} (h : isPlainAction a = true) : PlainAction a := by
  cases a with
  | recv result =>
      cases result with
      | data chunk events =>
          intro e he
          exact plainEvent_of_test (List.all_eq_true.mp h e he)
      | closed | again | failed => trivial
  | forId | forQuery | forXmlns => cases h
  | _ => trivial

theorem replies_written_inOneChunk : ∃ t, run (step .plain) stubbed inOneChunk = some t ∧
    ∀ m ∈ replied t, ∃ r, m = utf8 r ∧
      (r ∈ streamStartCallback ∨ r = STREAM_END ∨ ∃ x, Plain x ∧ r = stanzaToString x) := by
  obtain ⟨t, ht, -⟩ := run_inOneChunk
  have hactions : ∀ a ∈ inOneChunk, isPlainAction a = true := by decide +kernel
  have hprimed : PlainPrimed stubbed.primed :=
    plainPrimed_primeForId (plainPrimed_primeInit (plainPrimed_none none)) plainStub_a _
  refine ⟨t, ht, replies_written started_stubbed hprimed ?_ ?_ ht fun a ha =>
    plainAction_of_test (hactions a ha)⟩
  · intro x hx
    cases hx
  · constructor
    · intro c hc
      cases hc
    · intro s hs
      cases hs

end Stabber.WrittenReplies
