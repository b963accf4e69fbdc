import Stabber.XmlAttributes
import Stabber.XmlContext

/-!
# Text before an end tag

When an end tag completes a document, the text before it has led to the content of
the root, and nowhere else: in a comment or in a section the tag would be text, and
in a start tag it would be an error. An element before the end tag may therefore be
left out or put in.
-/

namespace Stabber.XmlClosing
open XmlDocument XmlReader XmlReading XmlNesting XmlTree XmlContext XmlAttributes

/-! ## Modes that take markup as text -/

/-- In a comment, a section or a processing instruction, and not about to leave. -/
def Swallowing : Mode → Prop
  | .comment dashes => dashes = 0
  | .cdata brackets => brackets = 0
  | .instruction _ _ question => question = false
  | _ => False

/-- The characters that can end these. -/
def ending : Str := ['-', ']', '?', '\r']

theorem swallowing_step {r r' : Reader} {c : Char} {ts : List Token} (hr : Swallowing r.mode)
    (hc : c ∉ ending) (h : r.step c = some (r', ts)) : Swallowing r'.mode := by
  have hne : c ≠ '-' ∧ c ≠ ']' ∧ c ≠ '?' ∧ c ≠ '\r' := by simpa [ending] using hc
  rcases r with ⟨mode, stack, seen, cr⟩
  unfold Reader.step at h
  rw [if_neg hne.2.2.2] at h
  split_ifs at h
  · cases h
    exact hr
  · cases mode with
    | comment dashes =>
        obtain rfl : dashes = 0 := hr
        simp only [Reader.lex, if_neg hne.1] at h
        cases h
        rfl
    | cdata brackets =>
        obtain rfl : brackets = 0 := hr
        simp only [Reader.lex, Reader.inCdata, if_neg hne.2.1] at h
        rw [if_neg (by simp)] at h
        cases h
        rfl
    | instruction decl body question =>
        obtain rfl : question = false := hr
        simp only [Reader.lex, Reader.inInstruction, if_neg hne.2.2.1] at h
        rw [if_neg (by simp)] at h
        cases h
        rfl
    | _ => exact hr.elim

theorem swallowing_feed {r r' : Reader} {cs : Str} {ts : List Token} (hr : Swallowing r.mode)
    (hcs : ∀ c ∈ cs, c ∉ ending) (h : r.feed cs = some (r', ts)) : Swallowing r'.mode :=
  (feed_invariant (I := fun s => Swallowing s.mode) (Q := fun _ => True)
    (fun _ c hc hs _ _ hstep => ⟨swallowing_step hs (hcs c hc) hstep, fun _ _ => trivial⟩)
    hr h).1

theorem not_complete_of_swallowing {r : Reader} (hr : Swallowing r.mode) : r.complete = false := by
  rcases r with ⟨mode, stack, seen, cr⟩
  cases mode <;> first | exact hr.elim | simp [Reader.complete]

/-- Where a tag can begin, or be text. -/
theorem step_lt {r r' : Reader} {ts : List Token} (hn : Nested r)
    (h : r.step '<' = some (r', ts)) :
    (∃ k, r.mode = .content k ∧ r' = ⟨.opened false, r.stack, r.seen, false⟩) ∨
      (∃ first, r.mode = .outside first ∧ r' = ⟨.opened first, r.stack, r.seen, false⟩) ∨
      Swallowing r'.mode := by
  rcases r with ⟨mode, stack, seen, cr⟩
  have hfits : Fits mode stack seen := hn.mode
  have hchar : isChar '<' = true := rfl
  have hname : isNameChar '<' = false := by decide
  have hstart : isNameStart '<' = false := by decide
  have hspace : isSpace '<' = false := rfl
  have hreference : ∀ body, isRefPrefix (body ++ ['<']) = false := fun body =>
    not_isRefPrefix (Or.inr rfl) (by simp)
  have hquote : ∀ quote, IsQuote quote → '<' ≠ quote := by
    rintro quote (rfl | rfl) <;> decide
  rw [Reader.step, if_neg (by simp [hchar]), if_neg (by simp), if_neg (by simp)] at h
  cases mode with
  | outside first =>
      cases h
      exact Or.inr (Or.inl ⟨first, rfl, rfl⟩)
  | content k =>
      cases h
      exact Or.inl ⟨k, rfl, rfl⟩
  | comment dashes =>
      rcases dashes with _ | _ | n
      · cases h
        exact Or.inr (Or.inr rfl)
      · cases h
        exact Or.inr (Or.inr rfl)
      · cases h
  | cdata k =>
      cases h
      exact Or.inr (Or.inr rfl)
  | instruction decl body question =>
      simp only [Reader.lex, Reader.inInstruction] at h
      rw [if_neg (by simp), if_neg (by decide)] at h
      cases h
      exact Or.inr (Or.inr rfl)
  | attrValue t attr quote value =>
      simp only [Reader.lex, Reader.inAttrValue, if_neg (hquote quote hfits.1)] at h
      cases h
  | bang text =>
      have hno : ∀ s : Str, '<' ∉ s → ¬ (text ++ ['<']) <+: s := fun s hs hp =>
        hs (hp.subset (by simp))
      simp only [Reader.lex, Reader.inBang] at h
      split_ifs at h with h₁ h₂ h₃ h₄ h₅
      · exact (hno "--".toList (by decide) ⟨[], by rw [h₁, List.append_nil]⟩).elim
      · exact (hno "-".toList (by decide) ⟨[], by rw [h₂, List.append_nil]⟩).elim
      · exact (hno "[CDATA[".toList (by decide) ⟨[], by rw [h₄, List.append_nil]⟩).elim
      · exact (hno _ (by decide) (List.isPrefixOf_iff_prefix.mp h₅)).elim
  | target first name =>
      simp only [Reader.lex, Reader.inTarget, hstart, hname, hspace] at h
      by_cases hempty : name = []
      · simp [hempty] at h
      · rw [if_neg hempty, if_neg (by simp)] at h
        rcases hdecl : isDeclTarget first name with _ | decl
        · rw [hdecl] at h
          cases h
        · rw [hdecl] at h
          cases h
  | _ =>
      simp [Reader.lex, Reader.inReference, hreference, Reader.inMarkup, hstart, hname, hspace,
        Reader.tagEnd, Reader.inTag, Reader.inAttrName] at h

/-! ## The end tag of the root -/

/-- Reading an end tag after its `<`: the innermost open element is closed. -/
theorem closed_of_endTag {r u : Reader} {n : Str} {ts : List Token} (hn : isName n = true)
    (hr : r = ⟨.opened false, r.stack, r.seen, false⟩)
    (h : r.feed ('/' :: (n ++ ">".toList)) = some (u, ts)) :
    ∃ ns, r.stack = n :: ns ∧ u.stack = ns := by
  rcases r with ⟨mode, stack, seen, cr⟩
  obtain ⟨rfl, rfl⟩ : mode = .opened false ∧ cr = false := by
    simp only [Reader.mk.injEq] at hr
    exact ⟨hr.1, hr.2.2.2⟩
  obtain ⟨c, cs, rfl⟩ : ∃ c cs, n = c :: cs := by
    cases n with
    | nil => cases hn
    | cons c cs => exact ⟨c, cs, rfl⟩
  simp only [isName, Bool.and_eq_true, List.all_eq_true] at hn
  obtain ⟨hl, hcr⟩ := isNameStart_isChar hn.1
  by_cases hs : stack = []
  · subst hs
    obtain ⟨s, us, vs, hone, -⟩ := feed_cons_eq_some h
    cases hone
  have hlex : (⟨.opened false, stack, seen, false⟩ : Reader).lex '/' =
      (⟨.opened false, stack, seen, false⟩ : Reader).go (.endName []) := by
    simp only [Reader.lex, Reader.inMarkup, if_pos, if_neg hs]
  have hfirst : (⟨.endName [], stack, seen, false⟩ : Reader).lex c =
      (⟨.endName [], stack, seen, false⟩ : Reader).go (.endName [c]) := by
    simp [Reader.lex, hn.1, Reader.go]
  rw [feed_go (.endName []) _ (by decide) (by decide) hlex, List.cons_append,
    feed_go (.endName [c]) _ hl hcr hfirst, feed_endName [c] cs _ (by simp) hn.2] at h
  change (⟨.endName ([c] ++ cs), stack, seen, false⟩ : Reader).feed ['>'] = _ at h
  obtain ⟨s, us, vs, hone, hrest, -⟩ := feed_cons_eq_some h
  have hend : (⟨.endName ([c] ++ cs), stack, seen, false⟩ : Reader).step '>' =
      (⟨.endName ([c] ++ cs), stack, seen, false⟩ : Reader).endTag (c :: cs) := by
    have h₁ : isNameStart '>' = false := by decide
    have h₂ : isNameChar '>' = false := by decide
    rw [step_plain (by decide) (by decide)]
    simp [Reader.lex, h₁, h₂]
  rw [hend] at hone
  unfold Reader.endTag at hone
  split at hone
  next m ns hstack =>
    split_ifs at hone with hname
    cases hone
    cases hrest
    exact ⟨ns, by rw [← hname]; exact hstack, rfl⟩
  next => cases hone

/-- An end tag that completes the document is read in the content of the root. -/
theorem content_of_endTag {r u : Reader} {n : Str} {ts : List Token} (hnested : Nested r)
    (hn : isName n = true) (hplain : ∀ c ∈ n, c ∉ ending)
    (h : r.feed ("</".toList ++ n ++ ">".toList) = some (u, ts)) (hc : u.complete = true) :
    ∃ k, r.mode = .content k ∧ r.stack = [n] := by
  have hempty : u.stack = [] := by
    rw [Reader.complete, Bool.and_eq_true] at hc
    exact (closed_iff.mp hc.1).2
  have hshape : "</".toList ++ n ++ ">".toList = '<' :: '/' :: (n ++ ">".toList) := rfl
  rw [hshape] at h
  obtain ⟨s, us, vs, hone, hrest, -⟩ := feed_cons_eq_some h
  rcases step_lt hnested hone with ⟨k, hk, rfl⟩ | ⟨first, hout, rfl⟩ | hswallow
  · obtain ⟨ns, hstack, hns⟩ := closed_of_endTag hn rfl hrest
    rw [hempty] at hns
    exact ⟨k, hk, by rw [hns]; exact hstack⟩
  · have hfits := hnested.mode
    rw [hout] at hfits
    have hnil : r.stack = [] := hfits
    obtain ⟨s', us', vs', hslash, -⟩ := feed_cons_eq_some hrest
    have hfail : (⟨.opened first, r.stack, r.seen, false⟩ : Reader).step '/' = none := by
      rw [hnil]
      rfl
    rw [hfail] at hslash
    cases hslash
  · have hlast : Swallowing u.mode := by
      apply swallowing_feed hswallow _ hrest
      intro c hmem
      rw [List.mem_cons, List.mem_append] at hmem
      rcases hmem with rfl | hmem | hmem
      · decide
      · exact hplain c hmem
      · rw [List.mem_singleton.mp hmem]
        decide
    rw [not_complete_of_swallowing hlast] at hc
    cases hc

theorem feed_rootEnd {r : Reader} {k : ℕ} {n : Str} (hk : r.mode = .content k)
    (hstack : r.stack = [n]) (hn : isName n = true) :
    r.feed ("</".toList ++ n ++ ">".toList) =
      some (⟨.outside false, [], r.seen, false⟩, [.stop n]) := by
  rcases r with ⟨mode, stack, seen, cr⟩
  subst hk hstack
  have hfresh : (⟨.content k, [n], seen, cr⟩ : Reader).step '<' =
      (⟨.content k, [n], seen, false⟩ : Reader).step '<' := rfl
  have hsame : (⟨.content k, [n], seen, cr⟩ : Reader).feed ("</".toList ++ n ++ ">".toList) =
      (⟨.content k, [n], seen, false⟩ : Reader).feed ("</".toList ++ n ++ ">".toList) := by
    have hshape : "</".toList ++ n ++ ">".toList = '<' :: '/' :: (n ++ ">".toList) := rfl
    rw [hshape]
    simp only [Reader.feed, hfresh]
  have hend : (⟨.content k, [n], seen, false⟩ : Reader).feed
      ("</".toList ++ n ++ ">".toList ++ []) = _ := feed_endTag [] hn
  rw [List.append_nil] at hend
  rw [hsame, hend]
  rfl

section Element
variable {r u : Reader} {n q : Str} {d : Node} {ts : List Token} (hnested : Nested r)
  (hn : isName n = true) (hplain : ∀ c ∈ n, c ∉ ending) (hd : Denotes q d) (hq : ¬ Declares q)
include hnested hn hplain hd hq

/-- An element may be put in before the end tag. -/
theorem complete_insert (h : r.feed ("</".toList ++ n ++ ">".toList) = some (u, ts))
    (hc : u.complete = true) :
    ∃ u' ts', r.feed (q ++ ("</".toList ++ n ++ ">".toList)) = some (u', ts') ∧
      u'.complete = true := by
  obtain ⟨k, hk, hstack⟩ := content_of_endTag hnested hn hplain h hc
  have hopen : r.stack ≠ [] := by
    rw [hstack]
    exact List.cons_ne_nil _ _
  obtain ⟨k', cr, us, hfeed, -⟩ := feed_document hk hopen (hnested.seen hopen) hd hq
  rw [feed_append _ hfeed, feed_rootEnd (r := ⟨.content k', r.stack, true, cr⟩) rfl hstack hn]
  exact ⟨_, _, rfl, rfl⟩

/-- And an element may be left out. -/
theorem complete_remove {c : Char} {cs : Str} (hshape : q = '<' :: c :: cs)
    (hc : isNameStart c = true) (hplainq : ∀ c ∈ q, c ∉ ending)
    (hroot : ∀ first, r.mode = .outside first → r.seen = true)
    (h : r.feed (q ++ ("</".toList ++ n ++ ">".toList)) = some (u, ts)) (hu : u.complete = true) :
    ∃ u' ts', r.feed ("</".toList ++ n ++ ">".toList) = some (u', ts') ∧ u'.complete = true := by
  obtain ⟨s, us, vs, hq', hlast, -⟩ := feed_of_feed_append h
  have hstep := hq'
  rw [hshape] at hstep
  obtain ⟨r', us', vs', hone, hrest, -⟩ := feed_cons_eq_some hstep
  rcases step_lt hnested hone with ⟨k, hk, -⟩ | ⟨first, hout, rfl⟩ | hswallow
  · have hopen : r.stack ≠ [] := by
      have hfits := hnested.mode
      rw [hk] at hfits
      exact hfits
    obtain ⟨k', cr, ws, hfeed, -⟩ := feed_document hk hopen (hnested.seen hopen) hd hq
    rw [hfeed, Option.some.injEq, Prod.mk.injEq] at hq'
    obtain ⟨rfl, -⟩ := hq'
    obtain ⟨-, -, hstack⟩ := content_of_endTag
      (nested_feed hnested hfeed).1 hn hplain hlast hu
    have hseen := hnested.seen hopen
    exact ⟨_, _, feed_rootEnd hk hstack hn, by rw [hseen]; rfl⟩
  · have hnil : r.stack = [] := by
      have hfits := hnested.mode
      rw [hout] at hfits
      exact hfits
    obtain ⟨hl, hcr⟩ := isNameStart_isChar hc
    have hne : c ≠ '/' ∧ c ≠ '!' ∧ c ≠ '?' := by
      refine ⟨?_, ?_, ?_⟩ <;> rintro rfl <;> exact absurd hc (by decide)
    have hfail : (⟨.opened first, r.stack, r.seen, false⟩ : Reader).step c = none := by
      rw [step_plain hl hcr]
      simp [Reader.lex, Reader.inMarkup, hne, hc, hnil, hroot first hout]
    obtain ⟨s', ws, ws', hnext, -⟩ := feed_cons_eq_some hrest
    rw [hfail] at hnext
    cases hnext
  · have hend : Swallowing s.mode := by
      apply swallowing_feed hswallow _ hrest
      intro x hx
      exact hplainq x (hshape ▸ List.mem_cons_of_mem _ hx)
    have hlast' : Swallowing u.mode := by
      apply swallowing_feed hend _ hlast
      intro x hx
      rw [List.mem_append, List.mem_append] at hx
      rcases hx with (hx | hx) | hx
      · have hall : ∀ y ∈ ['<', '/'], y ∉ ending := by simp [ending]
        exact hall x hx
      · exact hplain x hx
      · rw [List.mem_singleton.mp hx]
        decide
    rw [not_complete_of_swallowing hlast'] at hu
    cases hu

end Element

end Stabber.XmlClosing
