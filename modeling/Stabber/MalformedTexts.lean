import Stabber.StanzaParse
import Stabber.XmlTree
import Mathlib.Data.List.Induction

/-!
# Texts that are no documents

The result of `stanza_parse` on a text, from the events of the longest prefix that
a document can begin with: nothing before the first start tag is complete, the
innermost open element while some are open, and the root after that. Which XML Expat reads
is a parameter. Where a text has no byte order mark, no document type declaration and no
declaration of another version or encoding, it is that of the reader.
-/

namespace Stabber.MalformedTexts
open XmlDocument XmlReader XmlNesting XmlTree Stanza StanzaParse

theorem tokens_append {r s : Reader} {cs : Str} {ts : List Token} (ds : Str)
    (h : r.feed cs = some (s, ts)) : r.tokens (cs ++ ds) = ts ++ s.tokens ds := by
  induction cs generalizing r ts with
  | nil =>
      cases h
      rfl
  | cons c cs ih =>
      obtain ⟨r', us, vs, hstep, hfeed, rfl⟩ := feed_cons_eq_some h
      rw [List.cons_append, Reader.tokens, hstep]
      dsimp only
      rw [ih hfeed, List.append_assoc]

/-- The tokens are those of some prefix that can be read. -/
theorem tokens_prefix (r : Reader) (text : Str) :
    ∃ cs s, cs <+: text ∧ r.feed cs = some (s, r.tokens text) := by
  induction text generalizing r with
  | nil => exact ⟨[], r, List.prefix_rfl, rfl⟩
  | cons c text ih =>
      cases hstep : r.step c with
      | none =>
          refine ⟨[], r, List.nil_prefix, ?_⟩
          rw [Reader.tokens, hstep]
          rfl
      | some p =>
          have hrest := ih p.1
          obtain ⟨cs, s, hpre, hfeed⟩ := hrest
          refine ⟨c :: cs, s, List.cons_prefix_cons.mpr ⟨rfl, hpre⟩, ?_⟩
          rw [Reader.feed, Reader.tokens, hstep]
          simp only [Option.bind_eq_bind, Option.bind_some, hfeed]

/-- After the root element there is nothing more to return. -/
theorem tokens_of_closed {r : Reader} (hn : Nested r) (hc : r.closed = true) (text : Str) :
    r.tokens text = [] := by
  induction text generalizing r with
  | nil => rfl
  | cons c text ih =>
      rw [Reader.tokens]
      split
      next => rfl
      next s ts hstep =>
        have hclosed := closed_iff.mp hc
        have hmoved := moved_step hn hstep
        have hs := (nested_step c hn s ts hstep).1
        cases hmoved with
        | characters hstack hseen _ hopen =>
            have hts : ts = [] := hopen.resolve_right fun hne => hne hclosed.2
            have hafter : s.closed = true :=
              closed_iff.mpr ⟨hseen.trans hclosed.1, hstack.trans hclosed.2⟩
            rw [hts, ih hs hafter]
            rfl
        | opened n as _ _ hroot => exact (hroot ⟨hclosed.2, hclosed.1⟩).elim
        | empty n as _ _ hroot => exact (hroot ⟨hclosed.2, hclosed.1⟩).elim
        | closed n hstack _ =>
            rw [hclosed.2] at hstack
            cases hstack

/-- The tokens of a document up to some point in it. -/
inductive Begins : List Token → Prop
  | nothing : Begins []
  | inside {stack : List Str} {ts : List Token} : Open stack ts → Begins ts
  | whole (n : Str) (as : List (Str × Str)) (ks : List Node) : Begins (Node.elem n as ks).tokens

theorem begins_tokens (text : Str) : Begins (Reader.init.tokens text) := by
  obtain ⟨cs, r, _, hfeed⟩ := tokens_prefix Reader.init text
  have hreading := reading_init hfeed
  generalize Reader.init.tokens text = ts at hreading
  cases hreading with
  | before _ _ => exact .nothing
  | inside hopen => exact .inside hopen
  | after n as ks _ _ => exact .whole n as ks

/-- A document that begins so is an element. -/
theorem elem_of_begins {d : Node} (h : Begins d.tokens) : ∃ n as ks, d = .elem n as ks := by
  cases d with
  | elem n as ks => exact ⟨n, as, ks, rfl⟩
  | char c =>
      generalize hts : (Node.char c).tokens = ts at h
      rcases h with _ | hopen | _
      · cases hts
      · obtain ⟨n, as, us, rfl⟩ := hopen.starts
        cases hts
      · cases hts

/-- What follows a document in a text is not reported. -/
theorem tokens_after_document {text : Str} {d : Node} (h : Denotes text d) (rest : Str) :
    Reader.init.tokens (text ++ rest) = d.tokens := by
  obtain ⟨r, hfeed, hc⟩ := h
  have hnested := (nested_feed nested_init hfeed).1
  have hclosed : r.closed = true := by
    rw [Reader.complete, Bool.and_eq_true] at hc
    exact hc.1
  rw [tokens_append rest hfeed, tokens_of_closed hnested hclosed, List.append_nil]

/-- The document of a text is an element. -/
theorem denotes_elem {text : Str} {d : Node} (h : Denotes text d) :
    ∃ n as ks, d = .elem n as ks := by
  obtain ⟨r, hfeed, -⟩ := h
  have hbegins := begins_tokens text
  rw [tokens_of_feed hfeed] at hbegins
  exact elem_of_begins hbegins

/-! ## Expat on any text -/

/-- Where the reader stops and Expat may go on: at a document type declaration, and at the
end of an XML declaration for another version or another encoding. -/
def leaves (r : Reader) (text : Str) : Bool :=
  !r.seen && match r.mode with
    | .outside _ => "<!DOCTYPE".toList.isPrefixOf text
    | .instruction true body true => text.head? = some '>' && !isDeclaration body
    | _ => false

def covers (r : Reader) : Str → Bool
  | [] => true
  | c :: cs => !leaves r (c :: cs) && (r.step c).all fun p => covers p.1 cs

/-- No byte order mark, and nothing in the prolog that the reader leaves out. -/
def InScope (text : Str) : Prop :=
  text.head? ≠ some (Char.ofNat 0xFEFF) ∧ covers Reader.init text = true

instance (text : Str) : Decidable (InScope text) := inferInstanceAs (Decidable (_ ∧ _))

/-- The same up to characters at the end, in an element that is still open. -/
inductive UpToText : List Token → List Token → Prop
  | same (ts : List Token) : UpToText ts ts
  | ends (common : List Token) {xs ys : List Token} : 0 < level common →
      (∀ t ∈ xs, IsCharacter t) → (∀ t ∈ ys, IsCharacter t) →
      UpToText (common ++ xs) (common ++ ys)

/-- An XML: the tokens of the longest well-formed prefix of each text, and which texts are
whole documents. Document type declarations and encodings are its own. -/
structure Xml where
  tokens : Str → List Token
  document : Str → Node → Prop
  begins : ∀ text, Begins (tokens text)
  tokens_document : ∀ text d, document text d → tokens text = d.tokens
  tokens_inScope : ∀ text, InScope text → tokens text = Reader.init.tokens text
  document_inScope : ∀ text d, InScope text → (document text d ↔ Denotes text d)

/-- An Expat that reports the events of the longest well-formed prefix of its text. The
characters just before the text ends or goes wrong may be held back, and the first bracket
after them in a CDATA section be reported early. -/
structure PrefixExpat extends Expat where
  xml : Xml
  reports_prefix : ∀ text, ∃ ts, UpToText (xml.tokens text) ts ∧ Reports (report text) ts

/-- The XML of the reader alone. -/
def Xml.reference : Xml where
  tokens := Reader.init.tokens
  document := Denotes
  begins := begins_tokens
  tokens_document text d h := by
    obtain ⟨r, h, -⟩ := h
    exact tokens_of_feed h
  tokens_inScope _ _ := rfl
  document_inScope _ _ _ := Iff.rfl

def PrefixExpat.reference : PrefixExpat where
  toExpat := Expat.reference
  xml := Xml.reference
  reports_prefix text := ⟨_, .same _, reports_map_event (Reader.init.tokens text)⟩

theorem leaves_of_seen {r : Reader} (h : r.seen = true) (text : Str) : leaves r text = false := by
  rw [leaves, h]
  rfl

theorem seen_of_moved {r r' : Reader} {ts : List Token} (h : Moved r r' ts)
    (hseen : r.seen = true) : r'.seen = true := by
  cases h with
  | characters _ hsame => exact hsame.trans hseen
  | opened _ _ _ hnow => exact hnow
  | empty _ _ _ hnow => exact hnow
  | closed _ _ hsame => exact hsame.trans hseen

theorem covers_of_seen {r : Reader} (hn : Nested r) (hseen : r.seen = true) (text : Str) :
    covers r text = true := by
  induction text generalizing r with
  | nil => rfl
  | cons c text ih =>
      rw [covers, leaves_of_seen hseen]
      cases hstep : r.step c with
      | none => rfl
      | some p =>
          have hnext := (nested_step c hn p.1 p.2 hstep).1
          exact ih hnext (seen_of_moved (moved_step hn hstep) hseen)

/-- A text that leads on to the root element has not left the scope. -/
theorem not_leaves {r u : Reader} {cs : Str} {ts : List Token} (hn : Nested r)
    (hfeed : r.feed cs = some (u, ts)) (hseen : u.seen = true) (rest : Str) :
    leaves r (cs ++ rest) = false := by
  rcases r with ⟨mode, stack, seen, cr⟩
  cases seen with
  | true => exact leaves_of_seen rfl _
  | false =>
      rw [Bool.eq_false_iff]
      intro hleaves
      cases cs with
      | nil =>
          cases hfeed
          cases hseen
      | cons c cs =>
          obtain ⟨r₁, us, vs, hstep, hrest, -⟩ := feed_cons_eq_some hfeed
          unfold leaves at hleaves
          dsimp only at hleaves
          split at hleaves
          next first =>
            -- after `<!` only a comment can be read there
            have hstack : stack = [] := hn.mode
            subst hstack
            have hshape : "<!DOCTYPE".toList = '<' :: '!' :: 'D' :: "OCTYPE".toList := by decide
            rw [hshape] at hleaves
            have hpre := List.isPrefixOf_iff_prefix.mp hleaves
            rw [List.cons_append, List.cons_prefix_cons] at hpre
            obtain ⟨rfl, hpre⟩ := hpre
            rcases cs with _ | ⟨d, _ | ⟨e, cs⟩⟩
            · cases hfeed
              cases hseen
            · obtain rfl : '!' = d := (List.cons_prefix_cons.mp hpre).1
              cases hfeed
              cases hseen
            · rw [List.cons_append, List.cons_append, List.cons_prefix_cons,
                List.cons_prefix_cons] at hpre
              obtain ⟨rfl, rfl, -⟩ := hpre
              cases hfeed
          next body =>
            simp only [Bool.not_false, Bool.true_and, List.cons_append, List.head?_cons,
              Option.some.injEq, Bool.and_eq_true, decide_eq_true_eq] at hleaves
            obtain ⟨rfl, hdecl⟩ := hleaves
            rw [Bool.not_eq_true'] at hdecl
            have hnone : (⟨.instruction true body true, stack, false, cr⟩ : Reader).step '>' =
                none := by
              change Reader.inInstruction _ true body true '>' = none
              unfold Reader.inInstruction
              rw [if_pos ⟨rfl, rfl⟩, if_pos ⟨rfl, by rw [hdecl]; rfl⟩]
            rw [hnone] at hstep
            cases hstep
          next => cases hleaves

theorem covers_of_feed {r u : Reader} {cs : Str} {ts : List Token} (hn : Nested r)
    (hfeed : r.feed cs = some (u, ts)) (hseen : u.seen = true) (rest : Str) :
    covers r (cs ++ rest) = true := by
  induction cs generalizing r ts with
  | nil =>
      cases hfeed
      exact covers_of_seen hn hseen rest
  | cons c cs ih =>
      have hstay := not_leaves hn hfeed hseen rest
      obtain ⟨r₁, us, vs, hstep, hrest, -⟩ := feed_cons_eq_some hfeed
      rw [List.cons_append] at hstay ⊢
      rw [covers, hstay, hstep]
      exact ih (nested_step c hn r₁ us hstep).1 hrest

/-- Whatever follows a document, the text is in scope. -/
theorem inScope_of_denotes {text : Str} {d : Node} (h : Denotes text d) (rest : Str) :
    InScope (text ++ rest) := by
  obtain ⟨r, hfeed, hc⟩ := h
  have hseen : r.seen = true := by
    rw [Reader.complete, Reader.closed, Bool.and_eq_true, Bool.and_eq_true] at hc
    exact hc.1.1
  refine ⟨?_, covers_of_feed nested_init hfeed hseen rest⟩
  cases text with
  | nil =>
      have hinit : Reader.init = r := congrArg Prod.fst (Option.some.inj hfeed)
      rw [← hinit] at hseen
      cases hseen
  | cons c text =>
      rw [List.cons_append, List.head?_cons, Ne, Option.some.injEq]
      rintro rfl
      have hnone : Reader.init.step (Char.ofNat 0xFEFF) = none := by decide
      obtain ⟨_, _, _, hstep, -⟩ := feed_cons_eq_some hfeed
      rw [hnone] at hstep
      cases hstep

/-- A character at the end can be taken away. -/
theorem open_of_snoc {stack : List Str} {us : List Token} {c : Char}
    (h : Open stack (us ++ [.char c])) : Open stack us := by
  have hinner : ∀ (front : List Token) (n : Str) (as : List (Str × Str)) (ks : List Node),
      us ++ [.char c] = front ++ .start n as :: forestTokens ks →
        ∃ ls, us = front ++ .start n as :: forestTokens ls := by
    intro front n as ks heq
    rcases List.eq_nil_or_concat ks with rfl | ⟨ls, k, rfl⟩
    · cases (List.append_inj' heq rfl).2
    · rw [List.concat_eq_append, forestTokens_append, forestTokens, forestTokens,
        List.append_nil] at heq
      cases k with
      | char d =>
          rw [Node.tokens, ← List.cons_append, ← List.append_assoc] at heq
          exact ⟨ls, (List.append_inj' heq rfl).1⟩
      | elem m bs ms =>
          rw [Node.tokens, ← List.cons_append, ← List.cons_append, ← List.append_assoc,
            ← List.append_assoc] at heq
          cases (List.append_inj' heq rfl).2
  generalize hts : us ++ [.char c] = ts at h
  cases h with
  | root n as ks =>
      obtain ⟨ls, rfl⟩ := hinner [] n as ks hts
      exact .root n as ls
  | child n as ks hbelow =>
      obtain ⟨ls, rfl⟩ := hinner _ n as ks hts
      exact .child n as ls hbelow

theorem open_of_characters {stack : List Str} {us xs : List Token}
    (hxs : ∀ t ∈ xs, IsCharacter t) (h : Open stack (us ++ xs)) : Open stack us := by
  induction xs using List.reverseRecOn with
  | nil => rwa [List.append_nil] at h
  | append_singleton xs x ih =>
      obtain ⟨c, rfl⟩ := hxs x (List.mem_append_right xs List.mem_cons_self)
      rw [← List.append_assoc] at h
      exact ih (fun t ht => hxs t (List.mem_append_left _ ht)) (open_of_snoc h)

/-- A whole element has no characters after it. -/
theorem UpToText.of_tokens {n : Str} {as : List (Str × Str)} {ks : List Node} {us : List Token}
    (h : UpToText (Node.elem n as ks).tokens us) : us = (Node.elem n as ks).tokens := by
  generalize hts : (Node.elem n as ks).tokens = ts at h
  cases h with
  | same ts => rfl
  | @ends common xs ys hlevel hxs hys =>
      rcases List.eq_nil_or_concat xs with rfl | ⟨zs, x, rfl⟩
      · rw [List.append_nil] at hts
        rw [← hts, Node.level_tokens] at hlevel
        exact (Int.lt_irrefl _ hlevel).elim
      · rw [List.concat_eq_append] at hts hxs
        obtain ⟨c, rfl⟩ := hxs x (List.mem_append_right zs List.mem_cons_self)
        rw [Node.tokens, ← List.cons_append, ← List.append_assoc] at hts
        cases (List.append_inj' hts rfl).2

theorem UpToText.nil_iff {ts us : List Token} (h : UpToText ts us) : us = [] ↔ ts = [] := by
  cases h with
  | same ts => rfl
  | ends common hlevel _ _ =>
      have hne : common ≠ [] := by
        rintro rfl
        exact Int.lt_irrefl _ hlevel
      simp [hne]

/-- With elements open, elements stay open. -/
theorem UpToText.open_of_begins {ts us : List Token} (h : UpToText ts us) (hts : Begins ts) :
    us = ts ∨ ∃ stack, Open stack us := by
  cases h with
  | same ts => exact Or.inl rfl
  | @ends common xs ys hlevel hxs hys =>
      right
      generalize heq : common ++ xs = ts at hts
      cases hts with
      | nothing =>
          rw [(List.append_eq_nil_iff.mp heq).1] at hlevel
          exact (Int.lt_irrefl _ hlevel).elim
      | @inside stack _ hopen =>
          rw [← heq] at hopen
          obtain ⟨ks, rfl⟩ := forestTokens_characters hys
          exact ⟨stack, (open_of_characters hxs hopen).append ks⟩
      | whole n as ks =>
          have hnone : ∀ t ∈ ([] : List Token), IsCharacter t := fun t ht =>
            (List.not_mem_nil ht).elim
          have hends := UpToText.ends common hlevel hxs hnone
          rw [heq, List.append_nil] at hends
          rw [hends.of_tokens, Node.level_tokens] at hlevel
          exact (Int.lt_irrefl _ hlevel).elim

namespace PrefixExpat
variable (E : PrefixExpat)

/-- Some start tag is complete in the longest well-formed prefix. -/
def Opens (text : Str) : Prop := E.xml.tokens text ≠ []

def WellFormed (text : Str) : Prop := ∃ d, E.xml.document text d

variable {E} {text : Str}

/-- Whether a text in scope opens an element or is a document, the reader decides. -/
theorem opens_iff (hscope : InScope text) : E.Opens text ↔ Reader.init.tokens text ≠ [] := by
  rw [Opens, E.xml.tokens_inScope text hscope]

theorem wellFormed_iff (hscope : InScope text) : E.WellFormed text ↔ ∃ d, Denotes text d :=
  exists_congr fun d => E.xml.document_inScope text d hscope

theorem opens_of_wellFormed (h : E.WellFormed text) : E.Opens text := by
  obtain ⟨d, hd⟩ := h
  rw [Opens, E.xml.tokens_document text d hd]
  exact d.tokens_ne_nil

end PrefixExpat

/-- With elements open, the pointer is on the innermost of them. -/
theorem deliver_open {stack : List Str} {ts : List Token} (h : Open stack ts) :
    ∃ n as ks above, deliver handle ⟨0, none⟩ (ts.map Token.event) =
      .ok ⟨((stack.length - 1 : ℕ) : ℤ) + 1, some ⟨fill (stanzaNew n as) ks, above⟩⟩ ∧
        stack.head? = some n := by
  induction h with
  | root n as ks =>
      have hinner := handle_builds.forest 0 (stanzaNew n as) [] ks (forestNamed_true ks)
      exact ⟨n, as, ks, [], hinner, rfl⟩
  | @child stack ts n as ks hopen ih =>
      obtain ⟨m, bs, ls, above, houter, -⟩ := ih
      have hlength : stack.length - 1 + 1 = stack.length := by
        have hpos := List.length_pos_iff.mpr hopen.stack_ne_nil
        omega
      have hstart := handle_builds.start (stack.length - 1) ⟨fill (stanzaNew m bs) ls, above⟩ n as
        trivial
      have hinner := handle_builds.forest (stack.length - 1 + 1) (stanzaNew n as)
        (fill (stanzaNew m bs) ls :: above) ks (forestNamed_true ks)
      rw [hlength] at hstart hinner
      refine ⟨n, as, ks, fill (stanzaNew m bs) ls :: above, ?_, rfl⟩
      rw [List.map_append, List.map_cons]
      exact deliver_trans houter (deliver_cons _ _ hstart ▸ hinner)

/-! ## `stanza_parse` on any text -/

/-- The three outcomes: nothing, an open element as far as it has been filled, and the
root with its whole tree. -/
inductive Parsed : List Token → Option XMPPStanza → Prop
  | nothing : Parsed [] none
  | inside {stack : List Str} {ts : List Token} (n : Str) (as : List (Str × Str))
      (ks : List Node) : Open stack ts → stack.head? = some n →
      Parsed ts (some (fill (stanzaNew n as) ks))
  | root (n : Str) (as : List (Str × Str)) (ks : List Node) :
      Parsed (Node.elem n as ks).tokens (some (fill (stanzaNew n as) ks))

theorem stanzaParse_cases (E : PrefixExpat) (text : Str) :
    ∃ ts result, UpToText (E.xml.tokens text) ts ∧
      stanzaParse E.toExpat text = .ok result ∧ Parsed ts result := by
  obtain ⟨ts, hts, hreports⟩ := E.reports_prefix text
  have hreport := deliver_reports handleData_append ⟨0, none⟩ hreports
  have hbegins := E.xml.begins text
  have hinside : ∀ stack, Open stack ts → ∃ result, (do
      let s ← deliver handle ⟨0, none⟩ (ts.map Token.event)
      return s.curr_stanza.map Cursor.node) = Except.ok result ∧ Parsed ts result := by
    intro stack hopen
    obtain ⟨n, as, ks, above, hdeliver, hhead⟩ := deliver_open hopen
    rw [hdeliver]
    exact ⟨_, rfl, .inside n as ks hopen hhead⟩
  refine ⟨ts, ?_⟩
  unfold stanzaParse
  rw [hreport]
  have hparsed : ∃ result, (do
      let s ← deliver handle ⟨0, none⟩ (ts.map Token.event)
      return s.curr_stanza.map Cursor.node) = Except.ok result ∧ Parsed ts result := by
    rcases hts.open_of_begins hbegins with hsame | ⟨stack, hopen⟩
    · rw [← hsame] at hbegins
      clear hsame hts hreports hreport
      cases hbegins with
      | nothing => exact ⟨none, rfl, .nothing⟩
      | @inside stack _ hopen => exact hinside stack hopen
      | whole n as ks =>
          rw [deliver_document]
          exact ⟨_, rfl, .root n as ks⟩
    · exact hinside stack hopen
  obtain ⟨result, hresult, hparsed⟩ := hparsed
  exact ⟨result, hts, hresult, hparsed⟩

theorem open_ne_nil {stack : List Str} {ts : List Token} (h : Open stack ts) : ts ≠ [] := by
  obtain ⟨n, as, us, rfl⟩ := h.starts
  exact List.cons_ne_nil _ _

theorem Parsed.isSome_iff {ts : List Token} {result : Option XMPPStanza}
    (h : Parsed ts result) : (∃ s, result = some s) ↔ ts ≠ [] := by
  cases h with
  | nothing => simp
  | inside n as ks hopen _ => exact ⟨fun _ => open_ne_nil hopen, fun _ => ⟨_, rfl⟩⟩
  | root n as ks => exact ⟨fun _ => (Node.elem n as ks).tokens_ne_nil, fun _ => ⟨_, rfl⟩⟩

/-- A stanza is returned exactly for the texts with a complete start tag. -/
theorem stanzaParse_isSome_iff (E : PrefixExpat) (text : Str) :
    (∃ s, stanzaParse E.toExpat text = .ok (some s)) ↔ E.Opens text := by
  obtain ⟨ts, result, hts, hparse, hparsed⟩ := stanzaParse_cases E text
  rw [PrefixExpat.Opens, Ne, ← hts.nil_iff, ← Ne, ← hparsed.isSome_iff, hparse]
  simp

theorem stanzaParse_of_not_opens (E : PrefixExpat) {text : Str} (h : ¬ E.Opens text) :
    stanzaParse E.toExpat text = .ok none := by
  obtain ⟨ts, result, hts, hparse, -⟩ := stanzaParse_cases E text
  rw [hparse]
  cases result with
  | none => rfl
  | some s => exact (h ((stanzaParse_isSome_iff E text).mp ⟨s, hparse⟩)).elim

/-- The result is the root if the text is read as this document. -/
theorem stanzaParse_of_tokens (E : PrefixExpat) {text n : Str} {as : List (Str × Str)}
    {ks : List Node} (h : E.xml.tokens text = (Node.elem n as ks).tokens) :
    stanzaParse E.toExpat text = .ok (some (fill (stanzaNew n as) ks)) := by
  obtain ⟨ts, hts, hreport⟩ := E.reports_prefix text
  rw [h] at hts
  rw [hts.of_tokens] at hreport
  rw [stanzaParse, deliver_reports handleData_append _ hreport, deliver_document]
  rfl

/-- Anything may follow a document: the result is the document's root. -/
theorem stanzaParse_after_document (E : PrefixExpat) {text n : Str} {as : List (Str × Str)}
    {ks : List Node} (h : Denotes text (.elem n as ks)) (rest : Str) :
    stanzaParse E.toExpat (text ++ rest) = .ok (some (fill (stanzaNew n as) ks)) := by
  apply stanzaParse_of_tokens
  rw [E.xml.tokens_inScope _ (inScope_of_denotes h rest), tokens_after_document h rest]

/-- What is asked of `stanza_parse` on one text. -/
structure AcceptsExactly (E : PrefixExpat) (text : Str) : Prop where
  accepts : (∃ s, stanzaParse E.toExpat text = .ok (some s)) ↔ E.WellFormed text
  tree : ∀ d, E.xml.document text d → stanzaParse E.toExpat text = .ok (stanzaOf d)
  rejects : ¬ E.WellFormed text → stanzaParse E.toExpat text = .ok none

/-- A text that opens an element is accepted, whether or not it is a document. -/
theorem acceptsExactly_iff (E : PrefixExpat) (text : Str) :
    AcceptsExactly E text ↔ E.WellFormed text ∨ ¬ E.Opens text := by
  constructor
  · intro h
    rw [← h.accepts, stanzaParse_isSome_iff E text]
    exact Classical.em _
  · intro h
    have hopens : E.Opens text ↔ E.WellFormed text := by
      constructor
      · intro hopen
        exact h.resolve_right fun hno => hno hopen
      · exact PrefixExpat.opens_of_wellFormed
    constructor
    · rw [stanzaParse_isSome_iff E text, hopens]
    · intro d hd
      have htokens := E.xml.tokens_document text d hd
      obtain ⟨n, as, ks, rfl⟩ := elem_of_begins (htokens ▸ E.xml.begins text)
      rw [stanzaParse_of_tokens E htokens, fill_stanzaNew]
    · intro hno
      exact stanzaParse_of_not_opens E fun hopen => hno (hopens.mp hopen)

/-- A message after an XML declaration and a comment. -/
def declaredMessage : Str :=
  "<?xml version=\"1.0\" encoding=\"UTF-8\"?>\n<!-- 1 -->".toList ++
    "<message id=\"m1\"><body>1 &lt; 2</body> </message>\n".toList

theorem declaredMessage_accepted : AcceptsExactly PrefixExpat.reference declaredMessage := by
  refine (acceptsExactly_iff PrefixExpat.reference declaredMessage).mpr (Or.inl ?_)
  exact ⟨.elem "message".toList [("id".toList, "m1".toList)]
    [.elem "body".toList [] ("1 < 2".toList.map .char), .char ' '],
    ⟨.outside false, [], true, false⟩, by decide +kernel, rfl⟩

theorem not_denotes {text : Str}
    (h : ((Reader.init.feed text).any fun p => p.1.complete) = false) :
    ¬ ∃ d, Denotes text d := by
  intro hdoc
  obtain ⟨d, r, hfeed, hc⟩ := hdoc
  rw [hfeed, Option.any_some, hc] at h
  cases h

/-- A message that is cut off inside its body. -/
def cutOff : Str := "<message to=\"buddy1@localhost\"><body>hel".toList

/-- The cut message gives the unfinished `body`, without the message around it. -/
theorem cutOff_accepted :
    stanzaParse PrefixExpat.reference.toExpat cutOff =
        .ok (some ⟨"body".toList, [], [], some "hel".toList⟩) ∧
      ¬ AcceptsExactly PrefixExpat.reference cutOff := by
  have hparse : stanzaParse PrefixExpat.reference.toExpat cutOff =
      .ok (some ⟨"body".toList, [], [], some "hel".toList⟩) := rfl
  refine ⟨hparse, ?_⟩
  intro h
  exact not_denotes (by decide +kernel) (h.accepts.mp ⟨_, hparse⟩)

end Stabber.MalformedTexts
