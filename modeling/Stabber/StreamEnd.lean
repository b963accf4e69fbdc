import Stabber.ServerReading
import Stabber.XmlNesting
import Stabber.XmlReading
import Mathlib.Data.List.TakeWhile

/-!
# When the end of the stream is recognised

The loop looks for the text `</stream:stream>` at the end of the bytes received,
once per chunk. The root element is closed by its end tag, wherever that tag lies
in a chunk and however it is written. The two agree in every chunk exactly when
the first chunk that shows either of them shows both.
-/

namespace Stabber.StreamEnd
open XmlDocument XmlReader XmlReading XmlNesting Callbacks Utf8 ReadStream Transition Server
open ServerReading

/-! ## The end tag as text -/

/-- Inside a comment, a CDATA section or a processing instruction. -/
def Quiet (m : Mode) : Prop :=
  m = .comment 0 ∨ m = .cdata 0 ∨ ∃ decl body, m = .instruction decl body false

/-- The characters that could end such a section or begin to. -/
def Loud (c : Char) : Prop := c = '-' ∨ c = ']' ∨ c = '?' ∨ c = '\r' ∨ c = '\n'

instance (c : Char) : Decidable (Loud c) := inferInstanceAs (Decidable (_ ∨ _))

theorem quiet_step {r r' : Reader} {c : Char} {ts : List Token} (hq : Quiet r.mode)
    (hc : ¬ Loud c) (h : r.step c = some (r', ts)) :
    Quiet r'.mode ∧ r'.stack = r.stack ∧ r'.seen = r.seen := by
  unfold Loud at hc
  rcases r with ⟨mode, stack, seen, cr⟩
  unfold Reader.step at h
  split_ifs at h with h₁ h₂ h₃
  · exact (hc (by simp [h₂.1])).elim
  · exact (hc (by simp [h₃])).elim
  · rcases hq with hm | hm | ⟨decl, body, hm⟩
    · subst hm
      have hdash : c ≠ '-' := fun hd => hc (by simp [hd])
      simp only [Reader.lex, if_neg hdash, Reader.go, Option.some.injEq, Prod.mk.injEq] at h
      obtain ⟨rfl, rfl⟩ := h
      exact ⟨Or.inl rfl, rfl, rfl⟩
    · subst hm
      have hbracket : c ≠ ']' := fun hd => hc (by simp [hd])
      simp only [Reader.lex, Reader.inCdata, if_neg hbracket] at h
      rw [if_neg (by simp)] at h
      cases h
      exact ⟨Or.inr (Or.inl rfl), rfl, rfl⟩
    · subst hm
      have hquestion : c ≠ '?' := fun hd => hc (by simp [hd])
      simp only [Reader.lex, Reader.inInstruction, if_neg hquestion] at h
      rw [if_neg (by simp)] at h
      cases h
      exact ⟨Or.inr (Or.inr ⟨_, _, rfl⟩), rfl, rfl⟩

theorem quiet_feed {r r' : Reader} {cs : Str} {ts : List Token} (hq : Quiet r.mode)
    (hc : ∀ c ∈ cs, ¬ Loud c) (h : r.feed cs = some (r', ts)) : r'.closed = r.closed := by
  have hinv := feed_invariant (I := fun s => Quiet s.mode ∧ s.closed = r.closed)
    (Q := fun _ => True) ?_ ⟨hq, rfl⟩ h
  · exact hinv.1.2
  · intro s c hmem hs s' us hstep
    obtain ⟨hq', hstack, hseen⟩ := quiet_step hs.1 (hc c hmem) hstep
    refine ⟨⟨hq', ?_⟩, fun _ _ => trivial⟩
    rw [← hs.2, Reader.closed, Reader.closed, hstack, hseen]

theorem mem_of_snoc_eq {body s : Str} (h : body ++ ['<'] = s) : '<' ∈ s := by
  rw [← h]
  exact List.mem_append_right body List.mem_cons_self

/-- No text with a `<` begins one of these. -/
theorem not_isPrefixOf_lt (body : Str) {s : Str} (hs : '<' ∉ s) :
    (body ++ ['<']).isPrefixOf s = false := by
  rw [Bool.eq_false_iff]
  intro h
  have hpre := List.isPrefixOf_iff_prefix.mp h
  exact hs (hpre.subset (mem_of_snoc_eq rfl))

theorem all_digits_lt {base : ℕ} {ds : Str} (hd : (digit base '<').isSome = false)
    (h : '<' ∈ ds) : (ds.all fun c => (digit base c).isSome) = false := by
  rw [Bool.eq_false_iff]
  intro hall
  have hlt := List.all_eq_true.mp hall '<' h
  rw [hd] at hlt
  cases hlt

theorem not_isRefPrefix_lt (body : Str) : isRefPrefix (body ++ ['<']) = false := by
  generalize hs : body ++ ['<'] = s
  have hmem := mem_of_snoc_eq hs
  unfold isRefPrefix
  split
  next ds =>
    have hds : '<' ∈ ds := by simpa using hmem
    exact all_digits_lt (by decide) hds
  next ds _ =>
    have hds : '<' ∈ ds := by simpa using hmem
    exact all_digits_lt (by decide) hds
  next =>
    rw [Bool.eq_false_iff]
    intro hany
    obtain ⟨p, hp, hpre⟩ := List.any_eq_true.mp hany
    have hall : ∀ p ∈ predefined, '<' ∉ p.1 := by decide
    have hlt := hall p hp
    rw [← hs, not_isPrefixOf_lt body hlt] at hpre
    cases hpre

theorem inReference_lt (r : Reader) (body : Str) (more : Str → Mode) (done : Char → Result) :
    r.inReference body '<' more done = none := by
  unfold Reader.inReference
  rw [if_neg (by decide), not_isRefPrefix_lt]
  rfl

theorem inBang_lt (r : Reader) (text : Str) : r.inBang text '<' = none := by
  have hne : ∀ s : Str, '<' ∉ s → text ++ ['<'] ≠ s := fun s hs h => hs (mem_of_snoc_eq h)
  unfold Reader.inBang
  dsimp only
  rw [if_neg (hne _ (by decide)), if_neg (hne _ (by decide)), if_neg (hne _ (by decide)),
    not_isPrefixOf_lt text (by decide), if_neg Bool.false_ne_true, ite_self]

theorem inTarget_lt (r : Reader) (first : Bool) (name : Str) :
    r.inTarget first name '<' = none := by
  unfold Reader.inTarget
  cases name with
  | nil => rfl
  | cons c cs =>
      rw [if_neg (List.cons_ne_nil c cs), if_neg (by decide)]
      cases isDeclTarget first (c :: cs) with
      | none => rfl
      | some decl => rfl

/-- Where a `<` can be read, it begins markup, or stands in a section. -/
theorem lex_lt {r r' : Reader} {ts : List Token} (hn : Nested r)
    (h : r.lex '<' = some (r', ts)) :
    (∃ first, r.mode = .outside first) ∨ (∃ k, r.mode = .content k) ∨
      (Quiet r'.mode ∧ r'.closed = r.closed) := by
  rcases r with ⟨mode, stack, seen, cr⟩
  cases mode with
  | outside first => exact Or.inl ⟨first, rfl⟩
  | content k => exact Or.inr (Or.inl ⟨k, rfl⟩)
  | reference body =>
      simp only [Reader.lex, inReference_lt] at h
      cases h
  | opened first => cases h
  | bang text =>
      simp only [Reader.lex, inBang_lt] at h
      cases h
  | comment dashes =>
      rcases dashes with _ | _ | n
      · cases h
        exact Or.inr (Or.inr ⟨Or.inl rfl, rfl⟩)
      · cases h
        exact Or.inr (Or.inr ⟨Or.inl rfl, rfl⟩)
      · cases h
  | cdata k =>
      cases h
      exact Or.inr (Or.inr ⟨Or.inr (Or.inl rfl), rfl⟩)
  | target first name =>
      simp only [Reader.lex, inTarget_lt] at h
      cases h
  | targetEnd decl => cases h
  | instruction decl body question =>
      cases h
      exact Or.inr (Or.inr ⟨Or.inr (Or.inr ⟨_, _, rfl⟩), rfl⟩)
  | startName name => cases h
  | inTag t => cases h
  | attrName t attr => cases h
  | attrEq t attr => cases h
  | attrQuote t attr => cases h
  | attrValue t attr quote value =>
      have hquote : '<' ≠ quote := by
        have hq : IsQuote quote := hn.mode.1
        rcases hq with rfl | rfl
        · decide
        · decide
      simp only [Reader.lex, Reader.inAttrValue, if_neg hquote] at h
      cases h
  | attrReference t attr quote value body =>
      simp only [Reader.lex, inReference_lt] at h
      cases h
  | afterValue t => cases h
  | emptyTag t => cases h
  | endName name =>
      cases name with
      | nil => cases h
      | cons c cs => cases h
  | endTag name => cases h

theorem step_lt (r : Reader) : r.step '<' = ({ r with cr := false } : Reader).lex '<' := by
  unfold Reader.step
  rw [if_neg (by decide), if_neg (by simp), if_neg (by decide)]

/-- Reading `</name` where character data can stand. -/
theorem feed_closing {n : Str} (k : ℕ) (stack : List Str) (seen : Bool) (hn : isName n = true)
    (hs : stack ≠ []) :
    (⟨.content k, stack, seen, false⟩ : Reader).feed ("</".toList ++ n) =
      some (⟨.endName n, stack, seen, false⟩, []) := by
  cases n with
  | nil => cases hn
  | cons c cs =>
      simp only [isName, Bool.and_eq_true, List.all_eq_true] at hn
      obtain ⟨hl, hr⟩ := isNameStart_isChar hn.1
      have hshape : "</".toList ++ (c :: cs) = '<' :: '/' :: c :: (cs ++ []) := by simp
      rw [hshape, feed_go (.opened false) _ (by decide) (by decide) rfl,
        feed_go (.endName []) _ (by decide) (by decide) (by simp [Reader.lex, Reader.inMarkup, hs]),
        feed_go (.endName [c]) _ hl hr (by simp [Reader.lex, hn.1, Reader.go]),
        feed_endName _ _ _ (List.cons_ne_nil c []) hn.2]
      rfl

theorem streamEnd_shape : STREAM_END = '<' :: "/stream:stream>".toList := by decide

theorem streamEnd_closing : STREAM_END = ("</".toList ++ "stream:stream".toList) ++ ['>'] := by
  decide

theorem streamEnd_quiet : ∀ c ∈ "/stream:stream>".toList, ¬ Loud c := by
  have hall : ("/stream:stream>".toList.all fun c => !decide (Loud c)) = true := by decide
  intro c hc
  simpa using List.all_eq_true.mp hall c hc

theorem feed_streamEnd_cr (r : Reader) :
    r.feed STREAM_END = ({ r with cr := false } : Reader).feed STREAM_END := by
  rw [streamEnd_shape, Reader.feed, Reader.feed, step_lt, step_lt]

/-- Reading the whole end tag where character data can stand. -/
theorem feed_streamEnd (k : ℕ) {stack : List Str} (seen cr : Bool) (hs : stack ≠ []) :
    (⟨.content k, stack, seen, cr⟩ : Reader).feed STREAM_END =
      (⟨.endName "stream:stream".toList, stack, seen, false⟩ : Reader).endTag
        "stream:stream".toList := by
  have hclose := feed_closing k stack seen (show isName "stream:stream".toList = true by decide) hs
  have hstep : (⟨.endName "stream:stream".toList, stack, seen, false⟩ : Reader).step '>' =
      (⟨.endName "stream:stream".toList, stack, seen, false⟩ : Reader).endTag
        "stream:stream".toList := by
    rw [step_plain (by decide) (by decide)]
    rfl
  rw [feed_streamEnd_cr, streamEnd_closing, feed_append ['>'] hclose, Reader.feed, hstep]
  cases (⟨.endName "stream:stream".toList, stack, seen, false⟩ : Reader).endTag
      "stream:stream".toList with
  | none => rfl
  | some p =>
      simp [Reader.feed]

/-- The text of the end tag closes the root only directly inside the root. -/
theorem closed_of_feed_streamEnd {r r' : Reader} {ts : List Token} (hn : Nested r)
    (h : r.feed STREAM_END = some (r', ts)) (hc : r'.closed = true) :
    r.closed = true ∨ ((∃ k, r.mode = .content k) ∧ r.stack = ["stream:stream".toList]) := by
  rcases r with ⟨mode, stack, seen, cr⟩
  have hn' : Nested (⟨mode, stack, seen, false⟩ : Reader) := ⟨hn.seen, hn.mode⟩
  have hcopy := h
  rw [streamEnd_shape] at hcopy
  obtain ⟨r₁, ts₁, _, hstep, hfeed, _⟩ := feed_cons_eq_some hcopy
  rw [step_lt] at hstep
  rcases lex_lt hn' hstep with ⟨first, hm⟩ | ⟨k, hm⟩ | ⟨hquiet, hclosed⟩
  · have hstack : stack = [] := by
      have hfits := hn'.mode
      rw [hm] at hfits
      exact hfits
    simp only at hm
    subst hm hstack
    cases hstep
    cases hfeed
  · simp only at hm
    subst hm
    right
    refine ⟨⟨k, rfl⟩, ?_⟩
    rw [feed_streamEnd k seen cr hn'.mode] at h
    unfold Reader.endTag at h
    split at h
    next n ns hstack =>
      split_ifs at h with hname
      cases h
      have hns : ns = [] := (closed_iff.mp hc).2
      change stack = n :: ns at hstack
      rw [hstack, hns, hname]
    next => cases h
  · left
    have hkeep := quiet_feed hquiet streamEnd_quiet hfeed
    rw [hkeep, hclosed] at hc
    exact hc

/-- Directly inside the root the end tag does close it. -/
theorem closed_after_streamEnd {r r' : Reader} {k : ℕ} {ts : List Token} (hn : Nested r)
    (hm : r.mode = .content k) (hs : r.stack = ["stream:stream".toList])
    (h : r.feed STREAM_END = some (r', ts)) : r'.closed = true := by
  rcases r with ⟨mode, stack, seen, cr⟩
  simp only at hm hs
  subst hm hs
  rw [feed_streamEnd k seen cr (List.cons_ne_nil _ _)] at h
  cases h
  exact closed_iff.mpr ⟨hn.seen (List.cons_ne_nil _ _), rfl⟩

theorem isChar_of_feed {r r' : Reader} {cs : Str} {ts : List Token}
    (h : r.feed cs = some (r', ts)) : ∀ c ∈ cs, isChar c = true := by
  induction cs generalizing r ts with
  | nil =>
      intro c hc
      cases hc
  | cons c cs ih =>
      obtain ⟨_, _, _, hstep, hfeed, _⟩ := feed_cons_eq_some h
      intro d hd
      rcases List.mem_cons.mp hd with rfl | hd
      · unfold Reader.step at hstep
        by_contra hbad
        rw [if_pos (by simpa using hbad)] at hstep
        cases hstep
      · exact ih hfeed d hd

section Received
variable {text : Str} {d : Node} {bs : List UInt8} (hd : Denotes text d) (hb : bs <+: utf8 text)
include hd hb

/-- The bytes of a document contain no zero byte. -/
theorem cString_received : cString bs = bs := by
  obtain ⟨r, hfeed, _⟩ := hd
  unfold cString
  rw [List.takeWhile_eq_self_iff]
  intro b hmem
  have hne : b ≠ 0 := by
    rintro rfl
    obtain ⟨c, hc, hbyte⟩ := List.mem_flatMap.mp (hb.subset hmem)
    have henc : String.utf8EncodeChar c = [0] := utf8EncodeChar_of_ascii hbyte (by decide)
    have hzero : c = Char.ofNat 0 := @head_eq_of_append_eq c (Char.ofNat 0) [] [] (by
      rw [henc]
      rfl)
    have hchar := isChar_of_feed hfeed c hc
    rw [hzero] at hchar
    revert hchar
    decide
  simpa using hne

/-- The text that ends the bytes ends a prefix of the document. -/
theorem ends_iff : gStrHasSuffix bs STREAM_END = true ↔
    ∃ p, p ++ STREAM_END <+: text ∧ bs = utf8 (p ++ STREAM_END) := by
  unfold gStrHasSuffix
  rw [List.isSuffixOf_iff_suffix, cString_received hd hb]
  constructor
  · intro hsuffix
    have hlast : utf8 STREAM_END = utf8 "</stream:stream".toList ++ [62] := by decide +kernel
    obtain ⟨cs, hcs⟩ := hsuffix
    have hcut : bs = (cs ++ utf8 "</stream:stream".toList) ++ [62] := by
      rw [← hcs, hlast, List.append_assoc]
    rw [hcut] at hb
    obtain ⟨s, hs, henc⟩ := utf8_of_prefix (by decide) hb
    rw [← hcut] at henc
    have hascii : ∀ b ∈ utf8 STREAM_END, Ascii b := by decide +kernel
    obtain ⟨p, hp⟩ := suffix_of_utf8_suffix hascii (⟨cs, by rw [hcs, henc]⟩ : _ <:+ utf8 s)
    rw [← hp] at hs henc
    exact ⟨p, hs, henc⟩
  · rintro ⟨p, _, rfl⟩
    rw [utf8_append]
    exact List.suffix_append _ _

end Received

/-! ## Exact recognition -/

/-- The bytes contain the end of the root element. -/
def RootClosed (bs : List UInt8) : Prop :=
  ∃ p r ts, utf8 p <+: bs ∧ Reader.init.feed p = some (r, ts) ∧ r.closed = true

/-- Wherever the run leaves a chunk, the end of the stream is being answered exactly
when the bytes received until then contain the end of the root element. -/
def Exact (S : Setting) (s : State) (as : List Action) : Prop :=
  ∀ bs v, Over S s as bs v → (EndsStream v ↔ RootClosed (received bs))

/-- The bytes end in `</stream:stream>`, written directly inside the root element
or after its end. -/
def CutAtEndTag (bs : List UInt8) : Prop :=
  ∃ p r ts, bs = utf8 (p ++ STREAM_END) ∧ Reader.init.feed p = some (r, ts) ∧
    (r.closed = true ∨ ((∃ k, r.mode = .content k) ∧ r.stack = ["stream:stream".toList]))

/-- The bytes end in the text of the end tag, or contain the end of the root. -/
def Notable (bs : List UInt8) : Prop := gStrHasSuffix bs STREAM_END = true ∨ RootClosed bs

/-- The first notable chunk boundary, if there is one, is right after an end tag. -/
def WellCut (chunks : List (List UInt8)) : Prop :=
  ∀ pre chunk, pre ++ [chunk] <+: chunks → (∀ q, q <+: pre → ¬ Notable q.flatten) →
    Notable (pre ++ [chunk]).flatten → CutAtEndTag (pre ++ [chunk]).flatten

theorem not_notable_nil : ¬ Notable [] := by
  rintro (hsuffix | ⟨p, r, ts, hp, hfeed, hc⟩)
  · revert hsuffix
    decide
  · have hnil : p <+: [] := prefix_of_utf8_prefix (hp.trans List.nil_prefix)
    rw [List.prefix_nil.mp hnil] at hfeed
    cases hfeed
    cases hc

section Exact
variable {text : Str} {d : Node} (hd : Denotes text d)
include hd

/-- A cut right after an end tag shows both the text and the end of the root. -/
theorem cutAtEndTag_iff {bs : List UInt8} (hb : bs <+: utf8 text) :
    CutAtEndTag bs ↔ gStrHasSuffix bs STREAM_END = true ∧ RootClosed bs := by
  obtain ⟨R, hfull, _⟩ := id hd
  constructor
  · rintro ⟨p, r, ts, rfl, hfeed, hend⟩
    have hp : p ++ STREAM_END <+: text := prefix_of_utf8_prefix hb
    refine ⟨(ends_iff hd hb).mpr ⟨p, hp, rfl⟩, ?_⟩
    obtain ⟨rest, rfl⟩ := hp
    obtain ⟨s, us, vs, hs, _, _⟩ := feed_of_feed_append hfull
    obtain ⟨vs', htag, _⟩ := feed_rest hfeed hs
    have hn := (nested_feed nested_init hfeed).1
    refine ⟨p ++ STREAM_END, s, us, List.prefix_rfl, hs, ?_⟩
    rcases hend with hc | ⟨⟨k, hm⟩, hstack⟩
    · exact (nested_feed hn htag).2 hc
    · exact closed_after_streamEnd hn hm hstack htag
  · rintro ⟨hsuffix, q, rq, tq, hq, hfeedq, hcq⟩
    obtain ⟨p, hp, rfl⟩ := (ends_iff hd hb).mp hsuffix
    obtain ⟨rest, rfl⟩ := hp
    obtain ⟨s, us, vs, hs, _, _⟩ := feed_of_feed_append hfull
    obtain ⟨r, us', vs', hr, htag, _⟩ := feed_of_feed_append hs
    refine ⟨p, r, us', rfl, hr, ?_⟩
    apply closed_of_feed_streamEnd (nested_feed nested_init hr).1 htag
    obtain ⟨more, hmore⟩ := prefix_of_utf8_prefix hq
    rw [← hmore] at hs
    exact closed_of_prefix hfeedq hs hcq

end Exact

theorem not_rootClosed_nil : ¬ RootClosed [] := fun h => not_notable_nil (Or.inr h)

/-- Before a chunk that the thread has taken to its end, nothing notable has come, if
the cuts are good. -/
theorem not_notable_of_wellCut {chunks : List (List UInt8)} {text : Str} {d : Node}
    (hd : Denotes text d) (hc : chunks.flatten <+: utf8 text) (hw : WellCut chunks)
    (hbefore : ∀ q, q <+: chunks → q ≠ chunks → gStrHasSuffix q.flatten STREAM_END = false)
    {pre : List (List UInt8)} {chunk : List UInt8} (hpre : pre ++ [chunk] <+: chunks) :
    ∀ q, q <+: pre → ¬ Notable q.flatten := by
  have hall : ∀ init, init <+: pre → ∀ q, q <+: init → ¬ Notable q.flatten := by
    intro init hinit
    induction init using List.reverseRecOn with
    | nil =>
        intro q hq
        rw [List.prefix_nil.mp hq]
        exact not_notable_nil
    | append_singleton init c ih =>
        intro q hq
        rcases List.prefix_concat_iff.mp hq with rfl | hq
        · intro hnot
          have hle : init ++ [c] <+: chunks :=
            hinit.trans ((List.prefix_append _ _).trans hpre)
          have hcut := hw init c hle (ih ((List.prefix_append _ _).trans hinit)) hnot
          have hsuffix := ((cutAtEndTag_iff hd (hle.flatten.trans hc)).mp hcut).1
          have hshort : init ++ [c] ≠ chunks := by
            intro heq
            have hlen := hinit.length_le
            have hmore := hpre.length_le
            rw [← heq, List.length_append, List.length_singleton] at hmore
            omega
          rw [hbefore _ hle hshort] at hsuffix
          cases hsuffix
        · exact ih ((List.prefix_append _ _).trans hinit) q hq
  exact hall pre List.prefix_rfl

/-- The thread has seen the end of the stream. -/
def EndsReading (s : State) : Prop := s.pc = .ending ∨ s.kill_recv = true

/-- Every chunk is over, nothing has faulted, and nobody has called for a stop. -/
structure Settled (as : List Action) (s : State) : Prop where
  running : s.pc.isCrashed = false
  pending : pending s.pc = []
  unstopped : .stop ∉ as

section Runs
variable {S : Setting} {s t : State} {as : List Action} {chunks : List (List UInt8)}

/-- The end of the stream is recognised exactly in those runs over a document's bytes
in which the first notable boundary is right after an end tag. -/
theorem exact_of_taken {text : Str} {d : Node} (h : Taken S s as t chunks)
    (hd : Denotes text d) (hb : received as <+: utf8 text) :
    Exact S s as ↔ WellCut chunks := by
  have hc : chunks.flatten <+: utf8 text := by
    rw [received, h.reading.chunks, List.flatten_append] at hb
    exact (List.prefix_append _ _).trans hb
  constructor
  · intro hexact pre chunk hpre _ hnot
    obtain ⟨bs, v, hat⟩ := h.each pre chunk hpre
    have hiff := hexact bs v hat.leaves
    rw [hat.ends, hat.bytes] at hiff
    rw [cutAtEndTag_iff hd (hpre.flatten.trans hc)]
    rcases hnot with hsuffix | hroot
    · exact ⟨hsuffix, hiff.mp hsuffix⟩
    · exact ⟨hiff.mpr hroot, hroot⟩
  · intro hw bs v hover
    obtain ⟨pre, chunk, hpre, hat⟩ := h.leaves bs v hover
    rw [hat.ends, hat.bytes]
    have hquiet := not_notable_of_wellCut hd hc hw h.reading.before hpre
    by_cases hnot : Notable (pre ++ [chunk]).flatten
    · have hboth := (cutAtEndTag_iff hd (hpre.flatten.trans hc)).mp (hw pre chunk hpre hquiet hnot)
      exact iff_of_true hboth.1 hboth.2
    · exact iff_of_false (fun hsuffix => hnot (Or.inl hsuffix)) fun hroot => hnot (Or.inr hroot)

/-- A fault in a chunk is exact unless the chunk closes the root. -/
theorem exact_of_fault {a : Action} {u : State} (h : run (step S) s as = some t)
    (hstep : step S t a = some u) (hfault : u.pc = .crashed) :
    Exact S s (as ++ [a]) ↔ Exact S s as ∧ (pending t.pc ≠ [] → ¬ RootClosed (received as)) := by
  have hnot : ¬ EndsStream u := by
    intro hends
    have hpc := hends.pc
    rw [hfault] at hpc
    cases hpc
  have hpending : pending u.pc = [] := by
    rw [hfault]
    rfl
  constructor
  · intro hexact
    constructor
    · intro bs v hover
      exact hexact bs v ((over_snoc h hstep).mpr (Or.inl hover))
    · intro hne hroot
      have hover := (over_snoc h hstep).mpr (Or.inr ⟨rfl, rfl, hne, hpending⟩)
      exact hnot ((hexact as u hover).mpr hroot)
  · rintro ⟨hexact, hopen⟩ bs v hover
    rcases (over_snoc h hstep).mp hover with hover | ⟨rfl, rfl, hne, -⟩
    · exact hexact bs v hover
    · exact iff_of_false hnot (hopen hne)

/-- In an exact run `kill_recv` tells whether the root has been closed. -/
theorem endsReading_iff_of_taken (h : Taken S s as t chunks) (hexact : Exact S s as)
    (hsettled : Settled as t) : EndsReading t ↔ RootClosed (received as) := by
  have hflat : received as = chunks.flatten := by
    rw [received, h.reading.chunks, hsettled.pending, List.append_nil]
  have hends : gStrHasSuffix chunks.flatten STREAM_END = true ↔ RootClosed chunks.flatten := by
    cases chunks using List.reverseRecOn with
    | nil =>
        rw [List.flatten_nil, gStrHasSuffix_nil]
        exact iff_of_false Bool.false_ne_true not_rootClosed_nil
    | append_singleton pre chunk _ =>
        obtain ⟨bs, v, hat⟩ := h.each pre chunk List.prefix_rfl
        rw [← hat.ends, ← hat.bytes]
        exact hexact bs v hat.leaves
  rw [hflat, ← hends]
  constructor
  · exact fun hkill => (h.reading.closed hkill).resolve_right hsettled.unstopped
  · exact fun hsuffix => (h.reading.ended hsuffix).imp id And.left

/-- In a run that has not faulted the end of the stream is recognised exactly if and
only if the first notable boundary is right after an end tag. A fault spoils this only
in a chunk that closes the root. Two exact runs over the same bytes, however these are
cut, both end the stream or both go on. -/
theorem exact_iff_wellCut {text : Str} {d : Node} (hs : Started s)
    (h : run (step S) s as = some t) (hrunning : t.pc.isCrashed = false)
    (hd : Denotes text d) (hb : received as <+: utf8 text) :
    (Exact S s as ↔ WellCut (handledChunks as t)) ∧
      (∀ a u, step S t a = some u → u.pc = .crashed →
        (Exact S s (as ++ [a]) ↔
          Exact S s as ∧ (pending t.pc ≠ [] → ¬ RootClosed (received as)))) ∧
      (Exact S s as → Settled as t → (EndsReading t ↔ RootClosed (received as)) ∧
        ∀ S' s' as' t', Started s' → run (step S') s' as' = some t' → Exact S' s' as' →
          Settled as' t' → received as' = received as → (EndsReading t' ↔ EndsReading t)) := by
  have htaken := taken_of_run hs h hrunning
  refine ⟨exact_of_taken htaken hd hb, fun a u hstep hfault => exact_of_fault h hstep hfault, ?_⟩
  intro hexact hsettled
  have hclosed := endsReading_iff_of_taken htaken hexact hsettled
  refine ⟨hclosed, ?_⟩
  intro S' s' as' t' hs' h' hexact' hsettled' hbytes
  have htaken' := taken_of_run hs' h' hsettled'.running
  rw [endsReading_iff_of_taken htaken' hexact' hsettled', hbytes, hclosed]

end Runs

theorem not_rootClosed {s : Str} {r : Reader} {ts : List Token}
    (h : Reader.init.feed s = some (r, ts)) (hc : r.closed = false) : ¬ RootClosed (utf8 s) := by
  rintro ⟨p, rp, tp, hp, hfeed, hclosed⟩
  obtain ⟨rest, rfl⟩ := prefix_of_utf8_prefix hp
  have hkeep := closed_of_prefix hfeed h hclosed
  rw [hc] at hkeep
  cases hkeep

/-- Nothing notable comes before the last chunk, which ends right after an end tag. -/
theorem wellCut_of_last {pre : List (List UInt8)} {chunk : List UInt8}
    (hquiet : ∀ q, q <+: pre → ¬ Notable q.flatten)
    (hcut : CutAtEndTag (pre ++ [chunk]).flatten) : WellCut (pre ++ [chunk]) := by
  intro before c hpre _ hnot
  rcases List.prefix_concat_iff.mp hpre with heq | hpre
  · rw [heq]
    exact hcut
  · exact (hquiet _ hpre hnot).elim

def messageStart : Str := "<stream:stream><message id='m1'><bo".toList

def messageEnd : Str := "dy>hi</body></message></stream:stream>".toList

/-- A message comes in two chunks, cut inside a tag, and the stream end with the second. -/
def cutMessage : List Action :=
  [.accept .connected, .thread, .thread,
    .recv (.data (utf8 messageStart) [.start "stream:stream".toList [],
      .start "message".toList [("id".toList, "m1".toList)]]),
    .thread, .thread] ++ streamStartCallback.flatMap written ++
    [.thread, .thread, .thread, .thread,
      .recv (.data (utf8 messageEnd) [.start "body".toList [], .data "hi".toList,
        .stop "body".toList, .stop "message".toList, .stop "stream:stream".toList])] ++
    List.replicate 7 Action.thread ++ written STREAM_END ++ [.thread]

theorem wellCut_cutMessage : WellCut [utf8 messageStart, utf8 messageEnd] := by
  have hquiet : ∀ q, q <+: [utf8 messageStart] → ¬ Notable q.flatten := by
    intro q hq
    rcases List.prefix_concat_iff.mp (show q <+: [] ++ [utf8 messageStart] from hq) with rfl | hq
    · rintro (hsuffix | hroot)
      · revert hsuffix
        decide +kernel
      · exact @not_rootClosed messageStart _ _ rfl rfl (by simpa using hroot)
    · rw [List.prefix_nil.mp hq]
      exact not_notable_nil
  apply wellCut_of_last hquiet
  exact ⟨"<stream:stream><message id='m1'><body>hi</body></message>".toList, _, _,
    by decide +kernel, rfl, Or.inr ⟨⟨0, rfl⟩, rfl⟩⟩

def messageStream : Node :=
  .elem "stream:stream".toList []
    [.elem "message".toList [("id".toList, "m1".toList)]
      [.elem "body".toList [] [.char 'h', .char 'i']]]

theorem cutMessage_exact : ∃ t, run (step .plain) .idle cutMessage = some t ∧
    handledChunks cutMessage t = [utf8 messageStart, utf8 messageEnd] ∧
    Exact .plain .idle cutMessage ∧ EndsReading t := by
  have hrun : (run (step .plain) .idle cutMessage).any (fun t => t.pc.isCrashed = false ∧
      pending t.pc = [] ∧
      handledChunks cutMessage t = [utf8 messageStart, utf8 messageEnd]) = true := by
    decide +kernel
  obtain ⟨t, ht, htest⟩ := (Option.any_eq_true _ _).mp hrun
  obtain ⟨hrunning, hpending, hhandled⟩ := of_decide_eq_true htest
  have hstop : .stop ∉ cutMessage := by
    simp [cutMessage, streamStartCallback, written]
  have hfeed : Reader.init.feed (messageStart ++ messageEnd) =
      some (⟨.outside false, [], true, false⟩, messageStream.tokens) := by decide +kernel
  have hbytes : received cutMessage = utf8 (messageStart ++ messageEnd) := by decide +kernel
  obtain ⟨hexact, -, hends⟩ := exact_iff_wellCut started_idle ht hrunning ⟨_, hfeed, rfl⟩
    (by rw [hbytes])
  have hall := hexact.mpr (by rw [hhandled]; exact wellCut_cutMessage)
  refine ⟨t, ht, hhandled, hall, (hends hall ⟨hrunning, hpending, hstop⟩).1.mpr ?_⟩
  rw [hbytes]
  exact ⟨messageStart ++ messageEnd, _, _, List.prefix_rfl, hfeed, rfl⟩

def commentStart : Str := "<stream:stream><!--</stream:stream>".toList

def commentEnd : Str := "-->".toList

/-- The chunk ends behind the text of the end tag. -/
def cutComment : List Action :=
  connect commentStart ++ [.thread, .thread] ++ streamStartCallback.flatMap written ++
    written STREAM_END ++ [.thread, .thread]

/-- The chunk has the whole comment. -/
def wholeComment : List Action :=
  connect (commentStart ++ commentEnd) ++ [.thread, .thread] ++
    streamStartCallback.flatMap written ++ [.thread]

/-- The text of the end tag in a comment stops the server where a chunk ends behind
it, though the root element is open; in one chunk the same bytes do not. -/
theorem comment_ends_stream :
    Denotes (commentStart ++ commentEnd ++ STREAM_END) (.elem "stream:stream".toList [] []) ∧
      received cutComment = utf8 commentStart ∧
      received wholeComment = utf8 commentStart ++ utf8 commentEnd ∧
      ¬ Exact .plain .idle cutComment ∧
      ∃ t t', run (step .plain) .idle cutComment = some t ∧
        run (step .plain) .idle wholeComment = some t' ∧
        t.pc.isCrashed = false ∧ t.kill_recv = true ∧
        t'.pc.isCrashed = false ∧ t'.kill_recv = false := by
  have hrun : (run (step .plain) .idle cutComment).any (fun t => t.pc.isCrashed = false ∧
      t.kill_recv = true ∧ handledChunks cutComment t = [utf8 commentStart]) = true := by
    decide +kernel
  have hrun' : (run (step .plain) .idle wholeComment).any (fun t => t.pc.isCrashed = false ∧
      t.kill_recv = false) = true := by
    decide +kernel
  obtain ⟨t, ht, htest⟩ := (Option.any_eq_true _ _).mp hrun
  obtain ⟨t', ht', htest'⟩ := (Option.any_eq_true _ _).mp hrun'
  obtain ⟨hrunning, hkill, hhandled⟩ := of_decide_eq_true htest
  obtain ⟨hrunning', hkill'⟩ := of_decide_eq_true htest'
  have hd : Denotes (commentStart ++ commentEnd ++ STREAM_END)
      (.elem "stream:stream".toList [] []) := ⟨_, rfl, rfl⟩
  have hbytes : received cutComment = utf8 commentStart := by decide +kernel
  have hbytes' : received wholeComment = utf8 commentStart ++ utf8 commentEnd := by
    decide +kernel
  have hsent : utf8 commentStart <+: utf8 (commentStart ++ commentEnd ++ STREAM_END) :=
    ⟨utf8 (commentEnd ++ STREAM_END), by simp⟩
  refine ⟨hd, hbytes, hbytes', ?_, t, t', ht, ht', hrunning, hkill, hrunning', hkill'⟩
  intro hexact
  have htaken := taken_of_run started_idle ht hrunning
  have hwell := (exact_of_taken htaken hd (by rw [hbytes]; exact hsent)).mp hexact
  rw [hhandled] at hwell
  have hcut := hwell [] (utf8 commentStart) List.prefix_rfl (fun q hq => by
    rw [List.prefix_nil.mp hq]
    exact not_notable_nil) (Or.inl (by decide +kernel))
  have hroot := ((cutAtEndTag_iff hd (by simp)).mp hcut).2
  exact @not_rootClosed commentStart _ _ rfl rfl (by simpa using hroot)

end Stabber.StreamEnd
