import Stabber.SendQueue
import Stabber.StreamHeader
import Stabber.TreeBuilders
import Stabber.WrittenReplies
import Stabber.XmlStreams

/-!
# What the client reads

All bytes on a connection are one XML stream: the header, and then one document for each
message, in the order in which they were given to `write_stream`. A client that reads it
gets the stanza of each reply and the stanza of each text given to `server_send`.
-/

namespace Stabber.ClientView
open XmlDocument XmlReader XmlReading XmlContext XmlStreams Stanza StanzaParse StanzaRoundTrip
open StreamParser StreamTree StreamParsing TreeBuilders Priming Callbacks Utf8 ReadStream
open WriteStream Transition Server State SendQueue StreamHeader Sessions Answers ReplyIds
open ReplyStanzas WrittenReplies

def STREAM : Str := "stream:stream".toList

/-- The element that comes with the header. -/
def featuresNode : Node := .elem "stream:features".toList [] []

theorem openStream_header : OpenStream streamStartCallback.flatten STREAM [featuresNode] := by
  refine ⟨0, false, [("from".toList, "localhost".toList), ("id".toList, "stream1".toList),
    ("xml:lang".toList, "en".toList), ("version".toList, "1.0".toList),
    ("xmlns".toList, "jabber:client".toList),
    ("xmlns:stream".toList, "http://etherx.jabber.org/streams".toList)],
    [.start "stream:features".toList [], .stop "stream:features".toList], ?_, rfl, rfl⟩
  decide +kernel

/-- A stanza does not begin like an XML declaration. -/
theorem undeclared_stanzaToString {s : XMPPStanza} (hs : Plain s) :
    ¬ Declares (stanzaToString s) := by
  rcases hs with ⟨named, -, -, -, -⟩
  rename_i name attrs children content
  obtain ⟨c, cs, rfl⟩ : ∃ c cs, name = c :: cs := by
    cases name with
    | nil => cases named
    | cons c cs => exact ⟨c, cs, rfl⟩
  have hstart : ∃ rest, stanzaToString ⟨c :: cs, attrs, children, content⟩ = '<' :: c :: rest := by
    rcases content with _ | text
    · rcases children with _ | ⟨k, ks⟩
      · exact ⟨_, rfl⟩
      · exact ⟨_, rfl⟩
    · exact ⟨_, rfl⟩
  obtain ⟨rest, hrest⟩ := hstart
  rintro ⟨d, more, -, hdeclares⟩
  rw [hrest] at hdeclares
  obtain rfl : c = '?' := by
    injection hdeclares with _ htail
    injection htail
  rw [isName, Bool.and_eq_true] at named
  cases named.1

theorem spelled_stanza {s : XMPPStanza} (hs : Plain s) : Spelled (stanzaToString s) (nodeOf s) :=
  ⟨denotes_stanzaToString hs, undeclared_stanzaToString hs⟩

/-- The message is the text of a document, which is no reply of the server's own. -/
inductive Means : Message → XMPPStanza → Prop
  | reply {x : XMPPStanza} (hx : Plain x) : Means (.reply, utf8 (stanzaToString x)) x
  | queued {text : Str} {d : Node} {x : XMPPStanza} (hd : Spelled text d)
      (hx : stanzaOf d = some x) : Means (.queued, utf8 text) x

theorem Means.spelled {m : Message} {x : XMPPStanza} (h : Means m x) :
    ∃ text d, m.2 = utf8 text ∧ Spelled text d ∧ stanzaOf d = some x := by
  cases h with
  | reply hx => exact ⟨_, _, rfl, spelled_stanza hx, stanzaOf_nodeOf hx⟩
  | queued hd hx => exact ⟨_, _, rfl, hd, hx⟩

/-- The texts of some messages, as documents in a stream. -/
theorem spelled_messages {ms : List Message} {xs : List XMPPStanza} (h : List.Forall₂ Means ms xs) :
    ∃ texts ds, List.Forall₂ Spelled texts ds ∧ stanzasOf ds = xs ∧
      ms.flatMap Prod.snd = utf8 texts.flatten := by
  induction h with
  | nil => exact ⟨[], [], .nil, rfl, rfl⟩
  | @cons m x ms xs hm _ ih =>
      obtain ⟨texts, ds, hall, hxs, hbytes⟩ := ih
      obtain ⟨text, d, hm, hspelled, hx⟩ := hm.spelled
      refine ⟨text :: texts, d :: ds, .cons hspelled hall, ?_, ?_⟩
      · rw [stanzasOf, hx, hxs]
        rfl
      · rw [List.flatMap_cons, List.flatten_cons, utf8_append, hm, hbytes]

/-- The bytes are a stream with these stanzas, for a parser like that of the server. The
stream is a whole document just if it is closed. -/
def Receives (bytes : List UInt8) (closed : Bool) (stanzas : List XMPPStanza) : Prop :=
  ∃ text r ts, bytes = utf8 text ∧ Reader.init.feed text = some (r, ts) ∧ r.complete = closed ∧
    ∀ es, Reports es ts → ∃ p, deliver TreeParser.handle ⟨0, none, []⟩ es = .ok p ∧
      taken p.arrivals = stanzas

theorem hasReceived_inner (root : Str) (as : List (Str × Str)) {us : List Token} {ds : List Node}
    (h : innerTokens 0 us = forestTokens ds) : ∃ p,
      deliver TreeParser.handle ⟨0, none, []⟩ ((Token.start root as :: us).map Token.event) = .ok p ∧
      HasReceived p (stanzaNew root as) (stanzasOf ds) := by
  let opened := (⟨0, none, []⟩ : TreeParser).startElement root as
  have hopened : forget opened = TreeParser.between (stanzaNew root as) ([].map .stanza) := by
    change forget ⟨1, some ⟨stanzaNew root as, []⟩, [] ++ TreeParser.header root⟩ = _
    rw [forget, List.nil_append, taken_header]
    rfl
  have hstart : TreeParser.handle ⟨0, none, []⟩ (Token.event (.start root as)) = .ok opened := rfl
  have hdepth : opened.depth - 1 = 0 := rfl
  have hquiet := deliver_quiet opened ((forestTokens ds).map Token.event)
  rw [hopened, quiet_children] at hquiet
  rw [List.map_cons, deliver_cons opened _ hstart, deliver_inner, hdepth, h]
  cases hdeliver : deliver TreeParser.handle opened ((forestTokens ds).map Token.event) with
  | error fault =>
      rw [hdeliver] at hquiet
      cases hquiet
  | ok p => exact ⟨p, rfl, hasReceived_children hdeliver⟩

theorem receives_openStream {text root : Str} {ds : List Node} (h : OpenStream text root ds) :
    Receives (utf8 text) false (stanzasOf ds) := by
  obtain ⟨k, cr, as, us, hfeed, hinner, -⟩ := h
  refine ⟨text, _, _, rfl, hfeed, rfl, ?_⟩
  intro es hes
  obtain ⟨p, hp, hreceived⟩ := hasReceived_inner root as hinner
  rw [deliver_reports TreeParser.handle_cut _ hes]
  exact ⟨p, hp, hreceived.taken⟩

theorem receives_closedStream {text root : Str} {ds : List Node} (h : ClosedStream text root ds) :
    Receives (utf8 text) true (stanzasOf ds) := by
  obtain ⟨r, as, us, hfeed, hc, hinner⟩ := h
  refine ⟨text, r, _, rfl, hfeed, hc, ?_⟩
  intro es hes
  obtain ⟨p, hp, hreceived⟩ := hasReceived_inner root as hinner
  -- the end tag of the root only closes it
  have hstop : p.handle (.stop root) = .ok { p with depth := 0 } := by
    change p.endElement = _
    unfold TreeParser.endElement
    rw [hreceived.depth, Int.sub_self, if_neg (by decide), if_neg (by decide)]
  refine ⟨{ p with depth := 0 }, ?_, hreceived.taken⟩
  rw [deliver_reports TreeParser.handle_cut _ hes, ← List.cons_append, List.map_append]
  exact deliver_trans hp (deliver_cons _ [] hstop)

/-! ## The header before the other messages -/

def headerMessages : List Message := streamStartCallback.map fun m => (.reply, utf8 m)

/-- A text given to `server_send` is a document. -/
def IsDocument (m : List UInt8) : Prop :=
  ∃ text n as ks, m = utf8 text ∧ Spelled text (.elem n as ks)

theorem IsDocument.ne_nil {m : List UInt8} (h : IsDocument m) : m ≠ [] := by
  obtain ⟨text, n, as, ks, rfl, ⟨r, hfeed, -⟩, -⟩ := h
  intro hnil
  cases text with
  | nil => cases hfeed
  | cons c cs =>
      rw [utf8_cons] at hnil
      exact String.utf8EncodeChar_ne_nil (List.append_eq_nil_iff.mp hnil).1

/-- What the rest of a run is asked to do. -/
structure Speaks (s : State) (a : Action) : Prop where
  orderly : Orderly s a
  fits : Fits s a
  plain : PlainAction a
  document : ∀ m, a = .send m → IsDocument m

/-- The messages of the header come before all others. -/
inductive Greeting (s : State) : Prop where
  | before (h : Before s) (hentered : s.entered = [])
  | during {chunk : List UInt8} {events : List Event} {calls : List (Call XMPPStanza)}
      {replies : List Str} (hpc : s.pc = .feeding chunk events calls replies)
      (h : s.entered ++ replies.map (fun m => (.reply, utf8 m)) = headerMessages)
  | after (h : headerMessages <+: s.entered)
  | crashed (hpc : s.pc = .crashed)

section Steps
variable {S : Setting} {s t : State} {a : Action}

theorem entered_grows (h : Step S s a t) : s.entered <+: t.entered := by
  cases h with
  | take | reply | streamEnd => exact List.prefix_append _ _
  | @call _ _ _ c _ _ _ hw hpc hclient hcall => cases c <;> exact List.prefix_rfl
  | _ => exact List.prefix_rfl

theorem accepted_step (h : Step S s a t) (hs : ∀ m ∈ s.accepted, IsDocument m)
    (ha : ∀ m, a = .send m → IsDocument m) : ∀ m ∈ t.accepted, IsDocument m := by
  cases h with
  | send stream hlock =>
      intro m hm
      rcases List.mem_append.mp hm with hm | hm
      · exact hs m hm
      · rw [List.mem_singleton.mp hm]
        exact ha stream rfl
  | @call _ _ _ c _ _ _ hw hpc hclient hcall => cases c <;> exact hs
  | _ => exact hs

/-- A document that fits is not silent. -/
theorem not_silent {m : List UInt8} (hm : IsDocument m) (hlen : m.length < 2 ^ 31) :
    ¬ (writeStream m).to_send ≤ 0 := by
  intro hsend
  unfold writeStream at hsend
  rw [toInt_of_lt hlen] at hsend
  have hzero : (m.length : ℤ) ≤ 0 := hsend
  exact hm.ne_nil (List.length_eq_zero_iff.mp (by omega))

/-- Before the header nothing enters `write_stream`. -/
theorem greeting_before (h : Before s) (hentered : s.entered = []) (hok : Speaks s a)
    {whole : List Message} (hordered : Ordered s whole) (haccepted : ∀ m ∈ s.accepted, IsDocument m)
    (hstep : Step S s a t) : Greeting t := by
  have hwait := h.pc
  have hphase := before_step h hok.orderly hstep
  have hwaits : t.greeted = s.greeted → t.failed = s.failed → t.wire = s.wire →
      t.entered = s.entered → Greeting t := by
    intro hgreeted hfailed hwire hsame
    cases hphase with
    | before ht => exact .before ht (hsame.trans hentered)
    | during ht =>
        have hno := ht.greeted
        rw [hgreeted, h.greeted] at hno
        cases hno
    | after ht =>
        have hne : headerWire ≠ [] := by decide +kernel
        rw [hwire, h.wire] at ht
        exact (hne (List.prefix_nil.mp ht)).elim
    | broken ht =>
        have hno := ht.failed
        rw [hfailed, h.failed] at hno
        cases hno
    | crashed hpc ht => exact .crashed hpc
  cases hstep with
  | @write _ origin w _ _ hw hwrite =>
      have hpos := (Writing.write_cases hwrite).1
      have hsend := h.writing origin w hw
      omega
  | @take stream rest hw hpc =>
      have hentering : entering s = some stream := by
        unfold entering
        rw [hw, hpc]
      have hmem : stream ∈ s.accepted := by
        rw [← hordered.draining _ hpc]
        exact List.mem_append_right _ List.mem_cons_self
      rw [hpc] at hwait
      exact (not_silent (haccepted stream hmem) (hok.fits.2 stream hentering)
        (hwait stream List.mem_cons_self)).elim
  | reply hw hpc =>
      rw [hpc] at hwait
      cases hwait.1
  | @call chunk events calls c client client' messages hw hpc hclient hcall =>
      rw [hpc] at hwait
      rcases hwait.2 with ⟨hnil, _⟩ | hcalls
      · cases hnil
      · cases hcalls
        cases hcall
        refine .during rfl ?_
        change s.entered ++ headerMessages = headerMessages
        rw [hentered, List.nil_append]
  | streamEnd hw hpc hend =>
      rw [hok.orderly.ended _ rfl hw hpc h.greeted] at hend
      cases hend
  | _ => exact hwaits rfl rfl rfl rfl

theorem greeting_during {chunk : List UInt8} {events : List Event} {calls : List (Call XMPPStanza)}
    {replies : List Str} (hpc : s.pc = .feeding chunk events calls replies)
    (h : s.entered ++ replies.map (fun m => (.reply, utf8 m)) = headerMessages)
    (hstep : Step S s a t) : Greeting t := by
  have hafter : ∀ {cs es ds}, s.pc = .feeding cs es ds [] → Greeting t := by
    intro cs es ds hend
    rw [hpc] at hend
    cases hend
    rw [List.map_nil, List.append_nil] at h
    refine .after ?_
    rw [← h]
    exact entered_grows hstep
  cases hstep with
  | quiet | send | verifyAny | stop | write | returned => exact .during hpc h
  | crash a => exact .crashed rfl
  | leave a hpc' => simp [hpc] at hpc'
  | connected hpc' => simp [hpc] at hpc'
  | again hpc' => simp [hpc] at hpc'
  | data chunk events hpc' => simp [hpc] at hpc'
  | shutdown hw hpc' hkill => simp [hpc] at hpc'
  | lock hw hpc' hkill => simp [hpc] at hpc'
  | take hw hpc' => simp [hpc] at hpc'
  | unlock hw hpc' => simp [hpc] at hpc'
  | kill hw hpc' => simp [hpc] at hpc'
  | @reply chunk' events' calls' m replies' hw hpc' =>
      rw [hpc] at hpc'
      cases hpc'
      refine .during rfl ?_
      rw [← h, List.map_cons]
      exact List.append_assoc _ _ _
  | call hw hpc' hclient hcall => exact hafter hpc'
  | event hw hpc' hevent => exact hafter hpc'
  | next hw hpc' hend => exact hafter hpc'
  | streamEnd hw hpc' hend => exact hafter hpc'

end Steps

/-- All that is known of a run that speaks. -/
structure Speaking (s : State) : Prop where
  plain : PlainState s
  ordered : ∃ whole, Ordered s whole
  accepted : ∀ m ∈ s.accepted, IsDocument m
  greeting : Greeting s

theorem speaking_step {S : Setting} {s t : State} {a : Action} (h : Speaking s) (hok : Speaks s a)
    (hstep : step S s a = some t) : Speaking t := by
  have hcases := step_cases hstep
  obtain ⟨whole, hordered⟩ := h.ordered
  refine ⟨plainState_step h.plain hok.plain hstep, ordered_step hordered hok.fits hcases,
    accepted_step hcases h.accepted hok.document, ?_⟩
  cases h.greeting with
  | before hbefore hentered =>
      exact greeting_before hbefore hentered hok hordered h.accepted hcases
  | during hpc hduring => exact greeting_during hpc hduring hcases
  | after hafter => exact .after (hafter.trans (entered_grows hcases))
  | crashed hpc =>
      have hcrash := running_of_step hstep
      rw [hpc] at hcrash
      exact (hcrash rfl).elim

/-! ## The whole connection -/

/-- The bytes of the messages, without where they come from. -/
theorem bytes_of_messages (ms : List Message) :
    (ms.flatMap tagged).map Prod.snd = ms.flatMap Prod.snd := by
  induction ms with
  | nil => rfl
  | cons m ms ih =>
      have hm : (tagged m).map Prod.snd = m.2 := by
        unfold tagged
        rw [List.map_map]
        exact List.map_id _
      rw [List.flatMap_cons, List.flatMap_cons, List.map_append, hm, ih]

theorem bytes_of_texts (texts : List Str) :
    (texts.map fun m => ((Origin.reply, utf8 m) : Message)).flatMap Prod.snd =
      utf8 texts.flatten := by
  induction texts with
  | nil => rfl
  | cons m texts ih => rw [List.map_cons, List.flatMap_cons, ih, List.flatten_cons, utf8_append]

def closingMessage : Message := (.reply, utf8 STREAM_END)

/-- The header is written once, and nothing after the end of the stream. -/
structure OneStream (s : State) : Prop where
  header : ∀ m ∈ streamStartCallback, (replied s).count (utf8 m) ≤ 1
  closing : ∀ before after, s.entered = before ++ closingMessage :: after → after = []

theorem one_of_count {α : Type} [BEq α] [LawfulBEq α] {x : α} {xs ys : List α} (hx : x ∈ xs)
    (hcount : (xs ++ ys).count x ≤ 1) : x ∉ ys := by
  intro hy
  rw [List.count_append] at hcount
  have hxs := List.count_pos_iff.mpr hx
  have hys := List.count_pos_iff.mpr hy
  omega

/-- Each message after the header means a stanza, or ends the stream. -/
theorem means_of_speaking {s : State} (h : Speaking s) (hone : OneStream s) {rest : List Message}
    (hentered : s.entered = headerMessages ++ rest) :
    ∀ m ∈ rest, m = closingMessage ∨ ∃ x, Means m x := by
  intro m hm
  rcases m with ⟨origin, bytes⟩
  have hmem : (origin, bytes) ∈ s.entered := by
    rw [hentered]
    exact List.mem_append_right _ hm
  cases origin with
  | queued =>
      obtain ⟨whole, hordered⟩ := h.ordered
      have hqueued : bytes ∈ queued s.entered :=
        List.mem_map.mpr ⟨_, List.mem_filter.mpr ⟨hmem, rfl⟩, rfl⟩
      have haccepted := hordered.unbroken.order.subset hqueued
      obtain ⟨text, n, as, ks, rfl, hspelled⟩ := h.accepted bytes haccepted
      exact Or.inr ⟨_, .queued hspelled rfl⟩
  | reply =>
      have hreplied : bytes ∈ replied s :=
        List.mem_map.mpr ⟨_, List.mem_filter.mpr ⟨hmem, rfl⟩, rfl⟩
      obtain ⟨r, hr, rfl⟩ := h.plain.replied bytes hreplied
      rcases hr with hheader | rfl | ⟨x, hx, rfl⟩
      · have hcount := hone.header r hheader
        have hsplit : replied s = streamStartCallback.map utf8 ++
            (rest.filter fun m => m.1 = .reply).map Prod.snd := by
          unfold replied
          rw [hentered, List.filter_append, List.map_append]
          rfl
        have hlater : utf8 r ∈ (rest.filter fun m => m.1 = .reply).map Prod.snd :=
          List.mem_map.mpr ⟨(.reply, utf8 r), List.mem_filter.mpr ⟨hm, rfl⟩, rfl⟩
        rw [hsplit] at hcount
        exact (one_of_count (List.mem_map_of_mem hheader) hcount hlater).elim
      · exact Or.inl rfl
      · exact Or.inr ⟨x, .reply hx⟩

theorem exists_means {ms : List Message} (h : ∀ m ∈ ms, ∃ x, Means m x) :
    ∃ xs, List.Forall₂ Means ms xs := by
  induction ms with
  | nil => exact ⟨[], .nil⟩
  | cons m ms ih =>
      obtain ⟨x, hx⟩ := h m List.mem_cons_self
      obtain ⟨xs, hxs⟩ := ih fun n hn => h n (List.mem_cons_of_mem _ hn)
      exact ⟨x :: xs, .cons hx hxs⟩

/-- The stanza of the features. -/
def featuresStanza : XMPPStanza := ⟨"stream:features".toList, [], [], none⟩

theorem openStream_messages {ms : List Message} {xs : List XMPPStanza}
    (h : List.Forall₂ Means ms xs) : ∃ text ds, OpenStream text STREAM ds ∧
      stanzasOf ds = featuresStanza :: xs ∧ (headerMessages ++ ms).flatMap Prod.snd = utf8 text := by
  obtain ⟨texts, ds, hall, hxs, hbytes⟩ := spelled_messages h
  refine ⟨_, _, openStream_header.documents hall, ?_, ?_⟩
  · rw [List.singleton_append, stanzasOf, hxs]
    rfl
  · rw [List.flatMap_append, hbytes, utf8_append]
    exact congrArg (· ++ _) (bytes_of_texts streamStartCallback)

/-- The thread is between two chunks, with nothing in `write_stream`, and the header has been
answered. -/
structure Answered (s : State) : Prop where
  greeted : s.greeted = true
  writing : s.writing = none
  handling : isHandling s.pc = false
  crashed : s.pc ≠ .crashed

theorem header_of_speaking {s : State} (h : Speaking s) (hs : Answered s) :
    headerMessages <+: s.entered := by
  cases h.greeting with
  | before hbefore hentered =>
      have hno := hbefore.greeted
      rw [hs.greeted] at hno
      cases hno
  | during hpc hduring =>
      have hno := hs.handling
      rw [hpc] at hno
      cases hno
  | after hafter => exact hafter
  | crashed hpc => exact (hs.crashed hpc).elim

theorem receives_of_speaking {s : State} (h : Speaking s) (hs : Answered s) (hone : OneStream s) :
    ∃ ms xs closing, s.entered = headerMessages ++ ms ++ closing ∧
      (closing = [] ∨ closing = [closingMessage]) ∧ List.Forall₂ Means ms xs ∧
      Receives (s.wire.map Prod.snd) (closing ≠ []) (featuresStanza :: xs) := by
  obtain ⟨rest, hentered⟩ := header_of_speaking h hs
  obtain ⟨whole, hordered⟩ := h.ordered
  have hmeans := means_of_speaking h hone hentered.symm
  have hwire : s.wire.map Prod.snd = s.entered.flatMap Prod.snd := by
    rw [hordered.wire, hordered.entered, Ordered.current_of_idle hs.writing,
      Ordered.inFlight_of_idle hs.writing, List.append_nil, List.append_nil, bytes_of_messages]
  by_cases hclosed : closingMessage ∈ rest
  · obtain ⟨ms, after, rfl, hfirst⟩ := List.eq_append_cons_of_mem hclosed
    have hlast : after = [] := by
      refine hone.closing (headerMessages ++ ms) after ?_
      rw [← hentered, List.append_assoc]
    subst hlast
    have hstanzas : ∀ m ∈ ms, ∃ x, Means m x := by
      intro m hm
      rcases hmeans m (List.mem_append_left _ hm) with rfl | hx
      · exact (hfirst hm).elim
      · exact hx
    obtain ⟨xs, hxs⟩ := exists_means hstanzas
    obtain ⟨text, ds, hstream, hds, hbytes⟩ := openStream_messages hxs
    have hall : s.entered = headerMessages ++ ms ++ [closingMessage] := by
      rw [← hentered, List.append_assoc]
    refine ⟨ms, xs, [closingMessage], hall, Or.inr rfl, hxs, ?_⟩
    have hclose := receives_closedStream (hstream.close (rfl : isName STREAM = true))
    rw [hds, utf8_append] at hclose
    rw [hwire, hall, List.flatMap_append, hbytes, List.flatMap_singleton]
    exact hclose
  · have hstanzas : ∀ m ∈ rest, ∃ x, Means m x := by
      intro m hm
      rcases hmeans m hm with rfl | hx
      · exact (hclosed hm).elim
      · exact hx
    obtain ⟨xs, hxs⟩ := exists_means hstanzas
    obtain ⟨text, ds, hstream, hds, hbytes⟩ := openStream_messages hxs
    refine ⟨rest, xs, [], ?_, Or.inl rfl, hxs, ?_⟩
    · rw [List.append_nil, hentered]
    · have hopen := receives_openStream hstream
      rw [hds] at hopen
      rw [hwire, ← hentered, hbytes]
      exact hopen

/-- Every run that speaks. -/
theorem speaking_of_runs {S : Setting} {s t : State} {as : List Action} (hs : Started s)
    (hprimed : PlainPrimed s.primed) (hstore : ∀ x ∈ s.received_stanzas, PlainHead x)
    (hparser : PlainParser s.parser) (h : Runs (step S) Speaks s as t) : Speaking t := by
  have hstart : Speaking s := by
    refine ⟨plainState_start hs hprimed hstore hparser, ⟨[], ordered_start hs⟩, ?_, ?_⟩
    · rw [hs.accepted]
      simp
    · refine .before ⟨hs.greeted, hs.failed, hs.wire, ?_, ?_⟩ hs.entered
      · rw [hs.pc]
        trivial
      · intro origin w hw
        rw [hs.writing] at hw
        cases hw
  exact h.invariant hstart fun u a v hu hok huv => speaking_step hu hok huv

/-- In every run in which the header comes first, no `write` fails, stubs, ids and addresses
are plain and documents are sent, the client reads one stream: the stanza of each reply and
of each text sent, once, in the order in which `write_stream` got them. -/
theorem client_receives {S : Setting} {s t : State} {as : List Action} (hs : Started s)
    (hprimed : PlainPrimed s.primed) (hstore : ∀ x ∈ s.received_stanzas, PlainHead x)
    (hparser : PlainParser s.parser) (h : Runs (step S) Speaks s as t) (ht : Answered t)
    (hone : OneStream t) : ∃ ms xs closing, t.entered = headerMessages ++ ms ++ closing ∧
      (closing = [] ∨ closing = [closingMessage]) ∧ List.Forall₂ Means ms xs ∧
      Receives (t.wire.map Prod.snd) (closing ≠ []) (featuresStanza :: xs) :=
  receives_of_speaking (speaking_of_runs hs hprimed hstore hparser h) ht hone

/-- After the two chunks the client ends its stream. -/
def toTheEnd : List Action :=
  inTwoChunks ++ [.thread, .thread,
    .recv (.data (utf8 "</stream:stream>".toList) [.stop "stream:stream".toList]),
    .thread, .thread, .write (.sent (utf8 STREAM_END).length), .thread]

def fits (s : State) (a : Action) : Bool :=
  (match a with
    | .write .failed => false
    | _ => true) && (entering s).all fun m => decide (m.length < 2 ^ 31)

theorem fits_of_test {s : State} {a : Action} (h : fits s a = true) : Fits s a := by
  unfold fits at h
  rw [Bool.and_eq_true] at h
  constructor
  · rintro rfl
    cases h.1
  · intro m hm
    have hall := h.2
    rw [hm] at hall
    exact of_decide_eq_true hall

/-- The only text that is sent. -/
def sends (a : Action) : Bool :=
  match a with
  | .send m => decide (m = utf8 "<b/>".toList)
  | _ => true

theorem document_of_test {a : Action} (h : sends a = true) : ∀ m, a = .send m → IsDocument m := by
  rintro m rfl
  refine ⟨"<b/>".toList, "b".toList, [], [], of_decide_eq_true h,
    ⟨⟨.outside false, [], true, false⟩, rfl, rfl⟩, ?_⟩
  rintro ⟨c, rest, -, hdeclares⟩
  cases hdeclares

def speaks (s : State) (a : Action) : Bool := orderly s a && fits s a && isPlainAction a && sends a

theorem speaks_of_test {s : State} {a : Action} (h : speaks s a = true) : Speaks s a := by
  simp only [speaks, Bool.and_eq_true] at h
  exact ⟨orderly_of_test h.1.1.1, fits_of_test h.1.1.2, plainAction_of_test h.1.2,
    document_of_test h.2⟩

def oneStream (s : State) : Bool :=
  streamStartCallback.all (fun m => (replied s).count (utf8 m) ≤ 1) &&
    decide (closingMessage ∉ s.entered.dropLast)

theorem oneStream_of_test {s : State} (h : oneStream s = true) : OneStream s := by
  rw [oneStream, Bool.and_eq_true] at h
  constructor
  · intro m hm
    exact of_decide_eq_true (List.all_eq_true.mp h.1 m hm)
  · intro before after hentered
    by_contra hafter
    have hlast := of_decide_eq_true h.2
    rw [hentered, List.dropLast_append_of_ne_nil (List.cons_ne_nil _ _),
      List.dropLast_cons_of_ne_nil hafter] at hlast
    exact hlast (List.mem_append_right _ List.mem_cons_self)

def answered (s : State) : Bool :=
  s.greeted && s.writing.isNone && !isHandling s.pc && !s.pc.isCrashed

theorem answered_of_test {s : State} (h : answered s = true) : Answered s := by
  simp only [answered, Bool.and_eq_true, Bool.not_eq_true', Option.isNone_iff_eq_none] at h
  refine ⟨h.1.1.1, h.1.1.2, h.1.2, ?_⟩
  intro hpc
  have hcrash := h.2
  rw [hpc] at hcrash
  cases hcrash

theorem client_receives_toTheEnd : ∃ t, run (step .plain) stubbed toTheEnd = some t ∧
    ∃ ms xs closing, t.entered = headerMessages ++ ms ++ closing ∧
      (closing = [] ∨ closing = [closingMessage]) ∧ List.Forall₂ Means ms xs ∧
      Receives (t.wire.map Prod.snd) (closing ≠ []) (featuresStanza :: xs) := by
  have hrun : (run (fun u a => if speaks u a then step .plain u a else none) stubbed
      toTheEnd).any (fun t => answered t && oneStream t) = true := by decide +kernel
  obtain ⟨t, ht, htest⟩ := (Option.any_eq_true _ _).mp hrun
  rw [Bool.and_eq_true] at htest
  have hruns := runs_of_checked (fun _ _ h => speaks_of_test h) ht
  have hprimed : PlainPrimed stubbed.primed :=
    plainPrimed_primeForId (plainPrimed_primeInit (plainPrimed_none none)) plainStub_a _
  refine ⟨t, hruns.to_run, client_receives started_stubbed hprimed ?_ ?_ hruns
    (answered_of_test htest.1) (oneStream_of_test htest.2)⟩
  · intro x hx
    cases hx
  · constructor
    · intro c hc
      cases hc
    · intro x hx
      cases hx

end Stabber.ClientView
