import Stabber.XmlReader

/-!
# Nesting of the reader

Which modes go with which open elements. The root element is opened once and
closed once: whatever follows its end leaves it closed.
-/

namespace Stabber.XmlNesting
open XmlDocument XmlReader

theorem closed_iff {r : Reader} : r.closed = true ↔ r.seen = true ∧ r.stack = [] := by
  rw [Reader.closed, Bool.and_eq_true, List.isEmpty_iff]

def IsQuote (c : Char) : Prop := c = '"' ∨ c = '\''

/-- The open elements, and whether the root has been seen, that a mode can have. -/
def Fits : Mode → List Str → Bool → Prop
  | .outside _, stack, _ => stack = []
  | .content _, stack, _ => stack ≠ []
  | .reference _, stack, _ => stack ≠ []
  | .cdata _, stack, _ => stack ≠ []
  | .endName _, stack, _ => stack ≠ []
  | .endTag _, stack, _ => stack ≠ []
  | .opened _, _, _ => True
  | .bang _, _, _ => True
  | .comment _, _, _ => True
  | .target _ _, _, _ => True
  | .targetEnd _, _, _ => True
  | .instruction _ _ _, _, _ => True
  | .attrValue _ _ quote _, stack, seen => IsQuote quote ∧ ¬ (stack = [] ∧ seen = true)
  | .attrReference _ _ quote _ _, stack, seen => IsQuote quote ∧ ¬ (stack = [] ∧ seen = true)
  | _, stack, seen => ¬ (stack = [] ∧ seen = true)

structure Nested (r : Reader) : Prop where
  seen : r.stack ≠ [] → r.seen = true
  mode : Fits r.mode r.stack r.seen

/-- The step keeps the nesting, and a closed root stays closed. -/
def NestedResult (r : Reader) (result : Result) : Prop :=
  ∀ r' ts, result = some (r', ts) → Nested r' ∧ (r.closed = true → r'.closed = true)

theorem nestedResult_none (r : Reader) : NestedResult r none := by
  intro r' ts h
  cases h

theorem fits_home (stack : List Str) (seen : Bool) : Fits (home stack) stack seen := by
  unfold home
  split_ifs with h
  · exact h
  · exact h

section Lex
variable {r : Reader} (hn : Nested r)
include hn

theorem nestedResult_emit {m : Mode} (ts : List Token) (hm : Fits m r.stack r.seen) :
    NestedResult r (r.emit m ts) := by
  intro r' us h
  cases h
  exact ⟨⟨hn.seen, hm⟩, fun hc => hc⟩

theorem nestedResult_go {m : Mode} (hm : Fits m r.stack r.seen) : NestedResult r (r.go m) :=
  nestedResult_emit hn [] hm

variable (c : Char)

theorem nested_tagEnd (t : Tag) (ho : ¬ (r.stack = [] ∧ r.seen = true)) :
    NestedResult r (r.tagEnd t c) := by
  unfold Reader.tagEnd
  split_ifs
  · exact nestedResult_go hn ho
  · intro r' ts h
    cases h
    refine ⟨⟨fun _ => rfl, List.cons_ne_nil _ _⟩, ?_⟩
    intro hc
    exact (ho (closed_iff.mp hc).symm).elim
  · exact nestedResult_go hn ho
  · exact nestedResult_none r

omit hn in
theorem nested_emptyElement (t : Tag) (ho : ¬ (r.stack = [] ∧ r.seen = true)) :
    NestedResult r (r.emptyElement t) := by
  intro r' ts h
  cases h
  refine ⟨⟨fun _ => rfl, fits_home _ _⟩, ?_⟩
  intro hc
  exact (ho (closed_iff.mp hc).symm).elim

theorem nested_endTag (name : Str) : NestedResult r (r.endTag name) := by
  intro r' ts h
  unfold Reader.endTag at h
  split at h
  next n ns hstack =>
    have hseen : r.seen = true := hn.seen (by rw [hstack]; exact List.cons_ne_nil _ _)
    split_ifs at h
    cases h
    refine ⟨⟨fun _ => hseen, fits_home _ _⟩, ?_⟩
    intro hc
    have hnil := (closed_iff.mp hc).2
    rw [hstack] at hnil
    cases hnil
  next => cases h

theorem nested_inContent (k : ℕ) (hs : r.stack ≠ []) : NestedResult r (r.inContent k c) := by
  unfold Reader.inContent
  by_cases h₁ : c = '<'
  · rw [if_pos h₁]
    exact nestedResult_go hn trivial
  rw [if_neg h₁]
  by_cases h₂ : c = '&'
  · rw [if_pos h₂]
    exact nestedResult_go hn hs
  rw [if_neg h₂]
  by_cases h₃ : c = '>' ∧ 2 ≤ k
  · rw [if_pos h₃]
    exact nestedResult_none r
  · rw [if_neg h₃]
    exact nestedResult_emit hn _ hs

theorem nested_inMarkup (first : Bool) : NestedResult r (r.inMarkup first c) := by
  unfold Reader.inMarkup
  split_ifs with h₁ h₂ h₃ h₄ h₅ h₆
  · exact nestedResult_none r
  · exact nestedResult_go hn h₂
  · exact nestedResult_go hn trivial
  · exact nestedResult_go hn trivial
  · exact nestedResult_none r
  · exact nestedResult_go hn h₆
  · exact nestedResult_none r

theorem nested_inBang (seen : Str) : NestedResult r (r.inBang seen c) := by
  unfold Reader.inBang
  dsimp only
  split_ifs with h₁ h₂ h₃ h₄ h₅
  · exact nestedResult_go hn trivial
  · exact nestedResult_go hn trivial
  · exact nestedResult_none r
  · exact nestedResult_go hn h₃
  · exact nestedResult_go hn trivial
  · exact nestedResult_none r

theorem nested_inCdata (k : ℕ) (hs : r.stack ≠ []) : NestedResult r (r.inCdata k c) := by
  unfold Reader.inCdata
  split_ifs
  · exact nestedResult_go hn hs
  · exact nestedResult_emit hn _ hs
  · exact nestedResult_go hn hs
  · exact nestedResult_emit hn _ hs

theorem nested_inTarget (first : Bool) (name : Str) :
    NestedResult r (r.inTarget first name c) := by
  unfold Reader.inTarget
  by_cases h₁ : name = []
  · rw [if_pos h₁]
    split_ifs
    · exact nestedResult_go hn trivial
    · exact nestedResult_none r
  rw [if_neg h₁]
  by_cases h₂ : isNameChar c = true
  · rw [if_pos h₂]
    exact nestedResult_go hn trivial
  rw [if_neg h₂]
  cases isDeclTarget first name with
  | none => exact nestedResult_none r
  | some decl =>
      dsimp only
      split_ifs
      · exact nestedResult_go hn trivial
      · exact nestedResult_go hn trivial
      · exact nestedResult_none r

theorem nested_inInstruction (decl : Bool) (body : Str) (question : Bool) :
    NestedResult r (r.inInstruction decl body question c) := by
  unfold Reader.inInstruction
  dsimp only
  split_ifs
  · exact nestedResult_none r
  · exact nestedResult_go hn (fits_home _ _)
  · exact nestedResult_go hn trivial
  · exact nestedResult_go hn trivial
  · exact nestedResult_go hn trivial
  · exact nestedResult_go hn trivial

theorem nested_inReference (body : Str) {more : Str → Mode} {done : Char → Result}
    (hmore : ∀ b, Fits (more b) r.stack r.seen) (hdone : ∀ d, NestedResult r (done d)) :
    NestedResult r (r.inReference body c more done) := by
  unfold Reader.inReference
  split_ifs
  · intro r' ts h
    obtain ⟨d, _, hd⟩ := Option.bind_eq_some_iff.mp h
    exact hdone d r' ts hd
  · exact nestedResult_go hn (hmore _)
  · exact nestedResult_none r

end Lex

theorem nested_lex {r : Reader} (c : Char) (hn : Nested r) : NestedResult r (r.lex c) := by
  rcases r with ⟨mode, stack, seen, cr⟩
  have hm : Fits mode stack seen := hn.mode
  cases mode with
  | outside first =>
      simp only [Reader.lex]
      split_ifs
      · exact nestedResult_go hn trivial
      · exact nestedResult_go hn hm
      · exact nestedResult_none _
  | content k => exact nested_inContent hn c k hm
  | reference body =>
      apply nested_inReference hn c body
      · exact fun _ => hm
      · exact fun d => nestedResult_emit hn _ hm
  | opened first => exact nested_inMarkup hn c first
  | bang text => exact nested_inBang hn c text
  | comment dashes =>
      rcases dashes with _ | _ | n
      · exact nestedResult_go hn trivial
      · exact nestedResult_go hn trivial
      · simp only [Reader.lex]
        split_ifs
        · exact nestedResult_go hn (fits_home _ _)
        · exact nestedResult_none _
  | cdata k => exact nested_inCdata hn c k hm
  | target first name => exact nested_inTarget hn c first name
  | targetEnd decl =>
      simp only [Reader.lex]
      split_ifs
      · exact nestedResult_go hn (fits_home _ _)
      · exact nestedResult_none _
  | instruction decl body question => exact nested_inInstruction hn c decl body question
  | startName name =>
      simp only [Reader.lex]
      split_ifs
      · exact nestedResult_go hn hm
      · exact nested_tagEnd hn c _ hm
  | inTag t =>
      simp only [Reader.lex, Reader.inTag]
      split_ifs
      · exact nestedResult_go hn hm
      · exact nested_tagEnd hn c _ hm
  | attrName t attr =>
      simp only [Reader.lex, Reader.inAttrName]
      split_ifs
      · exact nestedResult_go hn hm
      · exact nestedResult_go hn hm
      · exact nestedResult_go hn hm
      · exact nestedResult_none _
  | attrEq t attr =>
      simp only [Reader.lex]
      split_ifs
      · exact nestedResult_go hn hm
      · exact nestedResult_go hn hm
      · exact nestedResult_none _
  | attrQuote t attr =>
      simp only [Reader.lex]
      split_ifs with hq
      · exact nestedResult_go hn ⟨hq, hm⟩
      · exact nestedResult_go hn hm
      · exact nestedResult_none _
  | attrValue t attr quote value =>
      simp only [Reader.lex, Reader.inAttrValue]
      by_cases hq : c = quote
      · rw [if_pos hq]
        split_ifs
        · exact nestedResult_none _
        · exact nestedResult_go hn hm.2
      rw [if_neg hq]
      by_cases hlt : c = '<'
      · rw [if_pos hlt]
        exact nestedResult_none _
      rw [if_neg hlt]
      by_cases hamp : c = '&'
      · rw [if_pos hamp]
        exact nestedResult_go hn hm
      · rw [if_neg hamp]
        exact nestedResult_go hn hm
  | attrReference t attr quote value body =>
      apply nested_inReference hn c body
      · exact fun _ => hm
      · exact fun d => nestedResult_go hn hm
  | afterValue t => exact nested_tagEnd hn c _ hm
  | emptyTag t =>
      simp only [Reader.lex]
      split_ifs
      · exact nested_emptyElement t hm
      · exact nestedResult_none _
  | endName name =>
      simp only [Reader.lex]
      split_ifs
      · exact nestedResult_go hn hm
      · exact nestedResult_none _
      · exact nested_endTag hn name
      · exact nestedResult_go hn hm
      · exact nestedResult_none _
  | endTag name =>
      simp only [Reader.lex]
      split_ifs
      · exact nested_endTag hn name
      · exact nestedResult_go hn hm
      · exact nestedResult_none _

theorem nested_step {r : Reader} (c : Char) (hn : Nested r) : NestedResult r (r.step c) := by
  unfold Reader.step
  split_ifs
  · exact nestedResult_none r
  · intro r' ts h
    cases h
    exact ⟨⟨hn.seen, hn.mode⟩, fun hc => hc⟩
  · exact nested_lex '\n' ⟨hn.seen, hn.mode⟩
  · exact nested_lex c ⟨hn.seen, hn.mode⟩

theorem nested_feed {r r' : Reader} {cs : Str} {ts : List Token} (hn : Nested r)
    (h : r.feed cs = some (r', ts)) : Nested r' ∧ (r.closed = true → r'.closed = true) := by
  have hinv := feed_invariant (I := fun s => Nested s ∧ (r.closed = true → s.closed = true))
    (Q := fun _ => True) ?_ ⟨hn, fun hc => hc⟩ h
  · exact hinv.1
  · intro s c _ hs s' us hstep
    obtain ⟨hn', hc'⟩ := nested_step c hs.1 s' us hstep
    exact ⟨⟨hn', fun hc => hc' (hs.2 hc)⟩, fun _ _ => trivial⟩

theorem nested_init : Nested Reader.init := ⟨fun h => (h rfl).elim, rfl⟩

/-- The root element closed by a prefix of the text stays closed. -/
theorem closed_of_prefix {r r' : Reader} {cs ds : Str} {us ts : List Token}
    (hr : Reader.init.feed cs = some (r, us)) (h : Reader.init.feed (cs ++ ds) = some (r', ts))
    (hc : r.closed = true) : r'.closed = true := by
  obtain ⟨vs, hrest, _⟩ := feed_rest hr h
  exact (nested_feed (nested_feed nested_init hr).1 hrest).2 hc

end Stabber.XmlNesting
