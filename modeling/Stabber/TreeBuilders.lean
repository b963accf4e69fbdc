import Stabber.StreamParsing
import Stabber.XmlContext

/-!
# The two tree builders agree

`stanza_parse` and the stream parser build the same tree from the text of an
element, on its own for the one and in an open stream for the other.
-/

namespace Stabber.TreeBuilders
open XmlDocument XmlReader XmlTree XmlContext Stanza StanzaParse StreamParser StreamTree
  StreamParsing

/-! ## Character data between stanzas -/

theorem level_inner (l : ℤ) (ts : List Token) : level (innerTokens l ts) = level ts := by
  induction ts generalizing l with
  | nil => rfl
  | cons t ts ih =>
      cases t with
      | start n as => rw [innerTokens, level_cons, level_cons, ih]
      | stop n => rw [innerTokens, level_cons, level_cons, ih]
      | char c =>
          rw [innerTokens]
          split_ifs
          · rw [ih, level_cons, Token.level, Int.zero_add]
          · rw [level_cons, level_cons, ih]

/-- No prefix of an element and the characters around it closes more than it opens. -/
theorem level_prefix_inner {d : Node} {us vs : List Token} (h : innerTokens 0 us = d.tokens)
    (hv : vs <+: us) : 0 ≤ level vs := by
  obtain ⟨ws, rfl⟩ := hv
  rw [inner_append] at h
  rw [← level_inner 0 vs]
  exact d.level_prefix ⟨_, h⟩

/-- Between stanzas the parser ignores character data. -/
theorem deliver_inner (s : TreeParser) (ts : List Token) :
    deliver TreeParser.handle s (ts.map Token.event) =
      deliver TreeParser.handle s ((innerTokens (s.depth - 1) ts).map Token.event) := by
  induction ts generalizing s with
  | nil => rfl
  | cons t ts ih =>
      have hstep : ∀ us, (∀ s', s.handle t.event = .ok s' → us = innerTokens (s'.depth - 1) ts) →
          deliver TreeParser.handle s ((t :: ts).map Token.event) =
            deliver TreeParser.handle s ((t :: us).map Token.event) := by
        intro us hus
        rw [List.map_cons, List.map_cons, deliver, deliver]
        rcases hs : s.handle t.event with f | s'
        · rfl
        · rw [hus s' hs]
          exact ih s'
      cases t with
      | start n as =>
          apply hstep
          intro s' hs'
          have hdepth : s'.depth - 1 = s.depth - 1 + 1 := by
            rw [TreeParser.handle_depth (.start n as) hs', Token.level]
            omega
          rw [hdepth]
      | stop n =>
          apply hstep
          intro s' hs'
          have hdepth : s'.depth - 1 = s.depth - 1 - 1 := by
            rw [TreeParser.handle_depth (.stop n) hs', Token.level]
            omega
          rw [hdepth]
      | char c =>
          by_cases hd : s.depth - 1 = 0
          · have hs : s.handle (.data [c]) = .ok s := if_neg (by omega)
            rw [innerTokens, if_pos hd, List.map_cons, ← ih s]
            exact deliver_cons s _ hs
          · rw [innerTokens, if_neg hd]
            apply hstep
            intro s' hs'
            have hdepth : s'.depth - 1 = s.depth - 1 := by
              rw [TreeParser.handle_depth (.char c) hs', Token.level, Int.add_zero]
            rw [hdepth]

/-! ## The stanzas that have arrived -/

/-- The parser without the headers in its log. -/
def forget (s : TreeParser) : TreeParser :=
  { s with arrivals := (taken s.arrivals).map .stanza }

def quiet (s : TreeParser) (e : Event) : Except Fault TreeParser := (s.handle e).map forget

theorem taken_stanzas (log : List XMPPStanza) : taken (log.map Arrival.stanza) = log := by
  induction log with
  | nil => rfl
  | cons t ts ih => exact congrArg (t :: ·) ih

theorem quiet_forget (s : TreeParser) (e : Event) : quiet (forget s) e = quiet s e := by
  rcases s with ⟨depth, pointer, log⟩
  have hlog : ∀ xs, taken ((taken log).map Arrival.stanza ++ xs) = taken (log ++ xs) := by
    intro xs
    rw [taken_append, taken_append, taken_stanzas]
  have hidem : taken ((taken log).map Arrival.stanza) = taken log := taken_stanzas _
  change (TreeParser.handle ⟨depth, pointer, (taken log).map .stanza⟩ e).map forget = _
  cases e with
  | start n as =>
      simp only [quiet, TreeParser.handle, TreeParser.startElement, TreeParser.parents, forget,
        Except.map, hlog]
  | stop n =>
      simp only [quiet, TreeParser.handle, TreeParser.endElement]
      by_cases h₁ : depth - 1 > 1
      · rw [if_pos h₁, if_pos h₁]
        rcases pointer with _ | ⟨node, _ | ⟨parent, above⟩⟩
        · rfl
        · rfl
        · simp only [Except.map, forget, hidem]
      rw [if_neg h₁, if_neg h₁]
      by_cases h₂ : depth - 1 = 1
      · rw [if_pos h₂, if_pos h₂]
        rcases pointer with _ | ⟨node, above⟩
        · rfl
        · simp only [Except.map, forget, hlog]
      · rw [if_neg h₂, if_neg h₂]
        simp only [Except.map, forget, hidem]
  | data text =>
      simp only [quiet, TreeParser.handle, TreeParser.handleData]
      by_cases hd : depth > 1
      · rw [if_pos hd, if_pos hd]
        rcases pointer with _ | c
        · rfl
        · simp only [Except.map, forget, hidem]
      · rw [if_neg hd, if_neg hd]
        simp only [Except.map, forget, hidem]

theorem deliver_quiet (s : TreeParser) (es : List Event) :
    deliver quiet (forget s) es = (deliver TreeParser.handle s es).map forget := by
  induction es generalizing s with
  | nil => rfl
  | cons e es ih =>
      rw [deliver, deliver, quiet_forget, quiet]
      rcases s.handle e with f | s'
      · rfl
      · exact ih s'

/-- Every element is built, whatever it is called. -/
theorem quiet_builds (log : List XMPPStanza) :
    Builds quiet (fun _ => True) fun k c => ⟨(k : ℤ) + 2, some c, log.map .stanza⟩ := by
  have hlog : ∀ xs : List (Arrival XMPPStanza), taken xs = [] →
      taken (log.map Arrival.stanza ++ xs) = log := by
    intro xs hxs
    rw [taken_append, taken_stanzas, hxs, List.append_nil]
  constructor
  · intro k c n as _
    have hne : (k : ℤ) + 2 ≠ 0 := by omega
    have hd : (k : ℤ) + 2 + 1 = ((k + 1 : ℕ) : ℤ) + 2 := by omega
    simp only [quiet, TreeParser.handle, TreeParser.startElement, TreeParser.parents, forget,
      Except.map, if_neg hne, hlog _ (taken_header n), hd]
  · intro k node parent above n
    have hd : ((k + 1 : ℕ) : ℤ) + 2 - 1 = (k : ℤ) + 2 := by omega
    have hpos : (k : ℤ) + 2 > 1 := by omega
    simp only [quiet, TreeParser.handle, TreeParser.endElement, hd]
    rw [if_pos hpos]
    simp only [Except.map, forget, taken_stanzas]
  · intro k c text
    have hpos : (k : ℤ) + 2 > 1 := by omega
    simp only [quiet, TreeParser.handle, TreeParser.handleData]
    rw [if_pos hpos]
    simp only [Except.map, forget, taken_stanzas]

theorem quiet_child (root : XMPPStanza) (log : List XMPPStanza) (k : Node) :
    deliver quiet (TreeParser.between root (log.map .stanza)) (k.tokens.map Token.event) =
      .ok (TreeParser.between root ((log ++ (stanzaOf k).toList).map .stanza)) := by
  have hlog : ∀ xs : List XMPPStanza,
      taken (log.map Arrival.stanza ++ xs.map Arrival.stanza) = log ++ xs := by
    intro xs
    rw [taken_append, taken_stanzas, taken_stanzas]
  cases k with
  | elem n as ks =>
      have hstart : quiet (TreeParser.between root (log.map .stanza)) (.start n as) =
          .ok ⟨2, some ⟨stanzaNew n as, [root]⟩, log.map .stanza⟩ := by
        change Except.ok _ = _
        rw [forget]
        simp only [TreeParser.startElement, TreeParser.between, taken_append, taken_stanzas,
          taken_header, List.append_nil]
        rfl
      have hinner := (quiet_builds log).forest 0 (stanzaNew n as) [root] ks (forestNamed_true ks)
      have hstop : quiet ⟨2, some ⟨fill (stanzaNew n as) ks, [root]⟩, log.map .stanza⟩ (.stop n) =
          .ok (TreeParser.between root ((log ++ [fill (stanzaNew n as) ks]).map .stanza)) := by
        change Except.ok (forget ⟨1, some ⟨root, []⟩,
          log.map .stanza ++ [fill (stanzaNew n as) ks].map .stanza⟩) = _
        rw [forget, hlog]
        rfl
      rw [Node.events_elem, deliver_cons _ _ hstart, fill_stanzaNew]
      exact deliver_trans hinner (deliver_cons _ [] hstop)
  | char c =>
      change Except.ok (forget (TreeParser.between root (log.map .stanza))) = _
      simp only [forget, TreeParser.between, taken_stanzas, stanzaOf, Option.toList,
        List.append_nil]

theorem quiet_children (root : XMPPStanza) (log : List XMPPStanza) (ks : List Node) :
    deliver quiet (TreeParser.between root (log.map .stanza)) ((forestTokens ks).map Token.event) =
      .ok (TreeParser.between root ((log ++ stanzasOf ks).map .stanza)) := by
  induction ks generalizing log with
  | nil =>
      rw [stanzasOf, List.append_nil]
      rfl
  | cons k ks ih =>
      rw [forestTokens, stanzasOf, List.map_append, ← List.append_assoc]
      exact deliver_trans (quiet_child root log k) (ih _)

/-- The parser is between two stanzas, and these have arrived. -/
def HasReceived (s : TreeParser) (root : XMPPStanza) (stanzas : List XMPPStanza) : Prop :=
  forget s = TreeParser.between root (stanzas.map .stanza)

theorem HasReceived.depth {s : TreeParser} {root : XMPPStanza} {stanzas : List XMPPStanza}
    (h : HasReceived s root stanzas) : s.depth = 1 := congrArg TreeParser.depth h

theorem HasReceived.taken {s : TreeParser} {root : XMPPStanza} {stanzas : List XMPPStanza}
    (h : HasReceived s root stanzas) : taken s.arrivals = stanzas := by
  have harrivals : (StreamParsing.taken s.arrivals).map Arrival.stanza = stanzas.map .stanza :=
    congrArg TreeParser.arrivals h
  have htaken := congrArg StreamParsing.taken harrivals
  rw [taken_stanzas, taken_stanzas] at htaken
  exact htaken

theorem HasReceived.deliver {s s' : TreeParser} {root : XMPPStanza} {stanzas more : List XMPPStanza}
    {es : List Event} (h : HasReceived s root stanzas)
    (hquiet : deliver quiet (TreeParser.between root (stanzas.map .stanza)) es =
      .ok (TreeParser.between root (more.map .stanza)))
    (hs : deliver TreeParser.handle s es = .ok s') : HasReceived s' root more := by
  have hforget := deliver_quiet s es
  rw [h, hquiet, hs] at hforget
  exact (Except.ok.inj hforget).symm

/-- The root's start tag and whole children. -/
theorem hasReceived_children {s : TreeParser} {root : Str} {as : List (Str × Str)}
    {ks : List Node} (h : deliver TreeParser.handle
      ((⟨0, none, []⟩ : TreeParser).startElement root as) ((forestTokens ks).map Token.event) =
        .ok s) : HasReceived s (stanzaNew root as) (stanzasOf ks) := by
  have hstart : HasReceived ((⟨0, none, []⟩ : TreeParser).startElement root as)
      (stanzaNew root as) [] := by
    change forget ⟨1, some ⟨stanzaNew root as, []⟩, [] ++ TreeParser.header root⟩ = _
    rw [forget, List.nil_append, taken_header]
    rfl
  exact hstart.deliver (quiet_children _ [] ks) h

/-- One more child, with characters around it. -/
theorem hasReceived_child {s s' : TreeParser} {root : XMPPStanza} {stanzas : List XMPPStanza}
    (h : HasReceived s root stanzas) {d : Node} {us : List Token}
    (hus : innerTokens 0 us = d.tokens)
    (hs : deliver TreeParser.handle s (us.map Token.event) = .ok s') :
    HasReceived s' root (stanzas ++ (stanzaOf d).toList) := by
  rw [deliver_inner, h.depth, Int.sub_self, hus] at hs
  exact h.deliver (quiet_child root stanzas d) hs

/-! ## The store -/

theorem handle_received {s s' : Parser} {e : Event} (h : StreamParser.handle s e = .ok s') :
    s.received_stanzas <+: s'.received_stanzas := by
  cases e with
  | start n as =>
      cases h
      exact List.prefix_rfl
  | stop n =>
      simp only [StreamParser.handle, StreamParser.endElement] at h
      split_ifs at h
      · rcases hload : load s.heap s.curr_stanza with f | ⟨a, cell⟩
        · rw [hload] at h
          cases h
        · rw [hload] at h
          change (load s.heap cell.parent).bind _ = _ at h
          rcases hparent : load s.heap cell.parent with f | ⟨p, parent⟩
          · rw [hparent] at h
            cases h
          · rw [hparent] at h
            cases h
            exact List.prefix_rfl
      · rcases hload : load s.heap s.curr_stanza with f | ⟨a, cell⟩
        · rw [hload] at h
          cases h
        · rw [hload] at h
          change (shallow s.heap cell).bind _ = _ at h
          rcases hshallow : shallow s.heap cell with f | stanza
          · rw [hshallow] at h
            cases h
          · rw [hshallow] at h
            cases h
            exact List.prefix_append _ _
      · cases h
        exact List.prefix_rfl
  | data text =>
      simp only [StreamParser.handle, StreamParser.handleData] at h
      split_ifs at h
      · rcases hload : load s.heap s.curr_stanza with f | ⟨a, cell⟩
        · rw [hload] at h
          cases h
        · rw [hload] at h
          cases h
          exact List.prefix_rfl
      · cases h
        exact List.prefix_rfl

/-- What is in the store stays there, in order. -/
theorem deliver_received {s s' : Parser} {es : List Event}
    (h : deliver StreamParser.handle s es = .ok s') :
    s.received_stanzas <+: s'.received_stanzas := by
  induction es generalizing s with
  | nil =>
      cases h
      exact List.prefix_rfl
  | cons e es ih =>
      rw [deliver] at h
      rcases hs : StreamParser.handle s e with f | t
      · rw [hs] at h
        cases h
      · rw [hs] at h
        exact (handle_received hs).trans (ih h)

/-- A list of pairs that has one second component more, and goes on with the same first
components, has one pair more. -/
theorem last_pair {α β : Type} {xs ys : List (α × β)} {t : β}
    (hsnd : ys.map Prod.snd = xs.map Prod.snd ++ [t])
    (hfst : xs.map Prod.fst <+: ys.map Prod.fst) :
    ∃ a, ys.map Prod.fst = xs.map Prod.fst ++ [a] ∧ (a, t) ∈ ys := by
  obtain ⟨zs, ws, rfl, hzs, hws⟩ := List.map_eq_append_iff.mp hsnd
  obtain ⟨e, rest, rfl, rfl, hrest⟩ := List.map_eq_cons_iff.mp hws
  have hnil := List.map_eq_nil_iff.mp hrest
  subst hnil
  have hlength : (xs.map Prod.fst).length = (zs.map Prod.fst).length := by
    have := congrArg List.length hzs
    simp only [List.length_map] at this ⊢
    omega
  rw [List.map_append] at hfst
  have hbelow : xs.map Prod.fst <+: zs.map Prod.fst :=
    List.prefix_of_prefix_length_le hfst (List.prefix_append _ _) (Nat.le_of_eq hlength)
  have hsame : xs.map Prod.fst = zs.map Prod.fst := hbelow.eq_of_length hlength
  exact ⟨e.1, by rw [List.map_append, hsame]; rfl, by simp⟩

/-- The root with some children, and one more element with characters around it: the
store has one more address, where the stanza of the element lies. -/
theorem child_received (before : Parser) (root : Str) (as : List (Str × Str)) (ks : List Node)
    {d : Node} {t : XMPPStanza} (ht : stanzaOf d = some t) {us : List Token}
    (hus : innerTokens 0 us = d.tokens) :
    ∃ s s' a, deliver StreamParser.handle (parserInit before)
        ((Token.start root as :: forestTokens ks).map Token.event) = .ok s ∧
      deliver StreamParser.handle (parserInit before)
        ((Token.start root as :: forestTokens ks ++ us).map Token.event) = .ok s' ∧
      s'.received_stanzas = s.received_stanzas ++ [a] ∧
      Represents (fun a => s'.heap[a]?) a (some before.heap.length) t := by
  obtain ⟨s, z, new, busy, c, hs, hz, hsim⟩ :=
    (Simulates.root_started before root as).run (forestTokens ks) (by
      intro vs hvs
      have hlevel := level_prefix_forest ks hvs
      change 1 ≤ 1 + level vs
      omega)
  have hreceived := hasReceived_children hz
  obtain ⟨s', z', new', busy', c', hs', hz', hsim'⟩ := hsim.run us (by
    intro vs hvs
    have hlevel := level_prefix_inner hus hvs
    rw [hreceived.depth]
    omega)
  have hmore := hasReceived_child hreceived hus hz'
  have hgrows := deliver_received hs'
  have hstanzas : (taken new').map Prod.snd = (taken new).map Prod.snd ++ [t] := by
    have hmap : ∀ xs : List (Arrival (Addr × XMPPStanza)),
        taken (xs.map (Arrival.map Prod.snd)) = (taken xs).map Prod.snd := by
      intro xs
      simp only [taken, List.filterMap_map, List.map_filterMap]
      congr 1
      funext x
      cases x <;> rfl
    rw [← hmap, ← hmap, ← hsim.arrivals, ← hsim'.arrivals, hreceived.taken, hmore.taken, ht]
    rfl
  rw [hsim.received, hsim'.received, List.prefix_append_right_inj] at hgrows
  obtain ⟨a, ha, hmem⟩ := last_pair hstanzas hgrows
  have hrep := (hsim'.stored _ hmem).mono (away_extends_heap _ _)
  have hbegin : deliver StreamParser.handle (parserInit before)
      ((Token.start root as :: forestTokens ks).map Token.event) = .ok s := hs
  refine ⟨s, s', a, hbegin, ?_, ?_, hrep⟩
  · rw [List.map_append]
    exact deliver_trans hbegin hs'
  · rw [hsim.received, hsim'.received, ha, List.append_assoc]

/-- The text of an element parses to the stanza that the stream parser adds to the store
when the text comes as a child of an open root, wherever character data is cut. The text is
one that the reader covers: no byte order mark, no declaration of another encoding and no
document type declaration, and names with the characters that Expat takes. -/
theorem builders_agree (E : Expat) {text n : Str} {as : List (Str × Str)} {ks : List Node}
    (h : Denotes text (.elem n as ks)) (hd : ¬ Declares text) {p : Str} {r : Reader}
    {ts : List Token} {root : Str} {k : ℕ} (hp : Reader.init.feed p = some (r, ts))
    (hmode : r.mode = .content k) (hstack : r.stack = [root]) :
    ∃ t u us, stanzaParse E text = .ok (some t) ∧
      Reader.init.feed (p ++ text) = some (u, ts ++ us) ∧
      (∃ k', u.mode = .content k') ∧ u.stack = [root] ∧
      ∀ before es fs, Reports es ts → Reports fs (ts ++ us) → ∃ s s' a,
        parserFeed (parserInit before) es = .ok s ∧
        parserFeed (parserInit before) fs = .ok s' ∧
        s'.received_stanzas = s.received_stanzas ++ [a] ∧
        Represents (fun a => s'.heap[a]?) a (some before.heap.length) t := by
  have hnested := (XmlNesting.nested_feed XmlNesting.nested_init hp).1
  have hopen : r.stack ≠ [] := by
    rw [hstack]
    exact List.cons_ne_nil _ _
  obtain ⟨k', cr, us, hfeed, hus, -⟩ := feed_document hmode hopen (hnested.seen hopen) h hd
  obtain ⟨bs, ls, rfl⟩ := tokens_of_root_open hp hstack
  refine ⟨_, ⟨.content k', r.stack, true, cr⟩, us, stanzaParse_document E h, ?_, ⟨k', rfl⟩,
    hstack, ?_⟩
  · rw [feed_append text hp, hfeed]
    rfl
  · intro before es fs hes hfs
    rw [parserFeed, parserFeed, deliver_reports handle_cut _ hes, deliver_reports handle_cut _ hfs]
    exact child_received before root bs ls (fill_stanzaNew n as ks) hus

/-- A message with mixed content, in a stream that has had some white space. -/
theorem builders_agree_on_message :
    ∃ t u us, stanzaParse Expat.reference "<message>a<b/>c</message>".toList = .ok (some t) ∧
      Reader.init.feed ("<stream:stream> ".toList ++ "<message>a<b/>c</message>".toList) =
        some (u, [.start "stream:stream".toList [], .char ' '] ++ us) ∧
      (∃ k', u.mode = .content k') ∧ u.stack = ["stream:stream".toList] ∧
      ∀ before es fs, Reports es [.start "stream:stream".toList [], .char ' '] →
        Reports fs ([.start "stream:stream".toList [], .char ' '] ++ us) → ∃ s s' a,
          parserFeed (parserInit before) es = .ok s ∧
          parserFeed (parserInit before) fs = .ok s' ∧
          s'.received_stanzas = s.received_stanzas ++ [a] ∧
          Represents (fun a => s'.heap[a]?) a (some before.heap.length) t := by
  have hdoc : Denotes "<message>a<b/>c</message>".toList (.elem "message".toList []
      [.char 'a', .elem "b".toList [] [], .char 'c']) :=
    ⟨⟨.outside false, [], true, false⟩, by decide +kernel, by decide +kernel⟩
  have hdecl : ¬ Declares "<message>a<b/>c</message>".toList := by
    rintro ⟨c, rest, -, h⟩
    cases h
  exact builders_agree Expat.reference hdoc hdecl
    (r := ⟨.content 0, ["stream:stream".toList], true, false⟩) (by decide +kernel) rfl rfl

end Stabber.TreeBuilders
