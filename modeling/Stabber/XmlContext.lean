import Stabber.XmlTree

/-!
# A document inside an open element

A document that has no XML declaration may stand in the content of an open
element of a longer one, and is read there with the same tokens. Only the
characters around its root element become character data of the open element.
-/

namespace Stabber.XmlContext
open XmlDocument XmlReader XmlNesting XmlTree

/-! ## Character data around the elements -/

/-- The tokens after `l` open elements, without the characters outside of all. -/
def innerTokens : ℤ → List Token → List Token
  | _, [] => []
  | l, .char c :: ts => if l = 0 then innerTokens l ts else .char c :: innerTokens l ts
  | l, .start n as :: ts => .start n as :: innerTokens (l + 1) ts
  | l, .stop n :: ts => .stop n :: innerTokens (l - 1) ts

theorem inner_append (l : ℤ) (ts us : List Token) :
    innerTokens l (ts ++ us) = innerTokens l ts ++ innerTokens (l + level ts) us := by
  induction ts generalizing l with
  | nil => simp [innerTokens]
  | cons t ts ih =>
      rw [List.cons_append, level_cons, ← Int.add_assoc]
      cases t with
      | start n as => simp only [innerTokens, ih, Token.level, List.cons_append]
      | stop n => simp only [innerTokens, ih, Token.level, List.cons_append, Int.sub_eq_add_neg]
      | char c =>
          rw [Token.level, Int.add_zero, innerTokens, innerTokens, ih]
          split_ifs
          · rfl
          · rfl

theorem level_characters {ts : List Token} (h : ∀ t ∈ ts, IsCharacter t) : level ts = 0 := by
  induction ts with
  | nil => rfl
  | cons t ts ih =>
      obtain ⟨c, rfl⟩ := h t List.mem_cons_self
      rw [level_cons, ih fun u hu => h u (List.mem_cons_of_mem _ hu)]
      rfl

theorem inner_characters {l : ℤ} (hl : l ≠ 0) {ts : List Token} (h : ∀ t ∈ ts, IsCharacter t) :
    innerTokens l ts = ts := by
  induction ts with
  | nil => rfl
  | cons t ts ih =>
      obtain ⟨c, rfl⟩ := h t List.mem_cons_self
      rw [innerTokens, if_neg hl, ih fun u hu => h u (List.mem_cons_of_mem _ hu)]

/-! ## Two readers side by side -/

/-- The modes that are the same in the longer document: no longer at its very
beginning, and not outside of its elements. -/
def Inside : Mode → Prop
  | .outside _ => False
  | .opened first => first = false
  | .target first _ => first = false
  | .targetEnd decl => decl = false
  | .instruction decl _ _ => decl = false
  | _ => True

/-- The second reader has the elements of `base` open below those of the first. -/
structure Within (base : List Str) (r s : Reader) : Prop where
  stack : s.stack = r.stack ++ base
  seen : s.seen = true
  mode : (r.mode = .outside false ∧ ∃ k, s.mode = .content k) ∨
    (Inside r.mode ∧ s.mode = r.mode ∧ s.cr = r.cr)

/-- Whatever the first reader does, the second does as well. -/
def Follows (base : List Str) (r : Reader) (result result' : Result) : Prop :=
  ∀ r' ts, result = some (r', ts) → ∃ s' us, result' = some (s', us) ∧ Within base r' s' ∧
    innerTokens r.stack.length us = ts ∧ (r'.stack.length : ℤ) = r.stack.length + level us

theorem follows_none (base : List Str) (r : Reader) (result : Result) :
    Follows base r none result := by
  intro r' ts h
  cases h

/-- The rest of the readers' states, when they read markup or content of the inner
document. -/
structure Beside (base : List Str) (r s : Reader) : Prop where
  nonempty : base ≠ []
  stack : s.stack = r.stack ++ base
  seen : s.seen = true
  cr : s.cr = r.cr

section Lex
variable {base : List Str} {r s : Reader} (hb : Beside base r s)
include hb

theorem Beside.open_stack : s.stack ≠ [] := by
  rw [hb.stack]
  exact List.append_ne_nil_of_right_ne_nil _ hb.nonempty

theorem follows_emit {m : Mode} (hm : Inside m) {ts : List Token}
    (hts : ∀ t ∈ ts, IsCharacter t) (hopen : ts = [] ∨ r.stack ≠ []) :
    Follows base r (r.emit m ts) (s.emit m ts) := by
  intro r' us h
  cases h
  refine ⟨_, _, rfl, ⟨hb.stack, hb.seen, Or.inr ⟨hm, rfl, hb.cr⟩⟩, ?_, ?_⟩
  · rcases hopen with rfl | hopen
    · rfl
    · have hlength := List.length_pos_iff.mpr hopen
      exact inner_characters (by omega) hts
  · rw [level_characters hts, Int.add_zero]

theorem follows_go {m : Mode} (hm : Inside m) : Follows base r (r.go m) (s.go m) :=
  follows_emit hb hm (by simp) (Or.inl rfl)

/-- After a piece of markup both are outside of the inner document's elements, or
neither is. -/
theorem within_home (seen : Bool) (ns : List Str) :
    Within base ⟨home ns, ns, seen, r.cr⟩ ⟨home (ns ++ base), ns ++ base, true, s.cr⟩ := by
  have hne : ns ++ base ≠ [] := List.append_ne_nil_of_right_ne_nil _ hb.nonempty
  refine ⟨rfl, rfl, ?_⟩
  rw [home, home, if_neg hne]
  by_cases hns : ns = []
  · rw [if_pos hns]
    exact Or.inl ⟨rfl, 0, rfl⟩
  · rw [if_neg hns]
    exact Or.inr ⟨trivial, rfl, hb.cr⟩

theorem follows_home : Follows base r (r.go (home r.stack)) (s.go (home s.stack)) := by
  intro r' ts h
  cases h
  refine ⟨_, _, rfl, ?_, rfl, (Int.add_zero _).symm⟩
  have hw := within_home hb r.seen r.stack
  rw [← hb.stack, ← hb.seen] at hw
  exact hw

theorem follows_startTag (t : Tag) : Follows base r (r.startTag t) (s.startTag t) := by
  intro r' ts h
  cases h
  refine ⟨_, _, rfl, ⟨?_, rfl, Or.inr ⟨trivial, rfl, hb.cr⟩⟩, rfl, ?_⟩
  · rw [hb.stack]
    rfl
  · simp [Token.level]

theorem follows_emptyElement (t : Tag) :
    Follows base r (r.emptyElement t) (s.emptyElement t) := by
  intro r' ts h
  cases h
  refine ⟨_, _, rfl, ?_, rfl, by simp [Token.level]⟩
  rw [hb.stack]
  exact within_home hb true r.stack

theorem follows_endTag (name : Str) : Follows base r (r.endTag name) (s.endTag name) := by
  intro r' ts h
  unfold Reader.endTag at h ⊢
  rw [hb.stack]
  split at h
  next n ns hstack =>
    rw [hstack, List.cons_append]
    split_ifs at h with hname
    cases h
    refine ⟨_, _, if_pos hname, ?_, rfl, ?_⟩
    · rw [hb.seen]
      exact within_home hb r.seen ns
    · change (ns.length : ℤ) = ((n :: ns).length : ℤ) + -1
      rw [List.length_cons]
      omega
  next => cases h

theorem follows_tagEnd (c : Char) (t : Tag) : Follows base r (r.tagEnd t c) (s.tagEnd t c) := by
  unfold Reader.tagEnd
  split_ifs
  · exact follows_go hb trivial
  · exact follows_startTag hb t
  · exact follows_go hb trivial
  · exact follows_none _ _ _

theorem follows_inContent (c : Char) (k : ℕ) (hopen : r.stack ≠ []) :
    Follows base r (r.inContent k c) (s.inContent k c) := by
  unfold Reader.inContent
  by_cases h₁ : c = '<'
  · rw [if_pos h₁, if_pos h₁]
    exact follows_go hb rfl
  rw [if_neg h₁, if_neg h₁]
  by_cases h₂ : c = '&'
  · rw [if_pos h₂, if_pos h₂]
    exact follows_go hb trivial
  rw [if_neg h₂, if_neg h₂]
  by_cases h₃ : c = '>' ∧ 2 ≤ k
  · rw [if_pos h₃]
    exact follows_none _ _ _
  · rw [if_neg h₃, if_neg h₃]
    exact follows_emit hb (by trivial) (by simp [IsCharacter]) (Or.inr hopen)

/-- Where the root may start, an element may start in the content. -/
theorem follows_inMarkup (c : Char) :
    Follows base r (r.inMarkup false c) (s.inMarkup false c) := by
  have hopen := hb.open_stack
  unfold Reader.inMarkup
  by_cases h₁ : c = '/'
  · rw [if_pos h₁, if_pos h₁, if_neg hopen]
    split_ifs
    · exact follows_none _ _ _
    · exact follows_go hb trivial
  rw [if_neg h₁, if_neg h₁]
  by_cases h₂ : c = '!'
  · rw [if_pos h₂, if_pos h₂]
    exact follows_go hb trivial
  rw [if_neg h₂, if_neg h₂]
  by_cases h₃ : c = '?'
  · rw [if_pos h₃, if_pos h₃]
    exact follows_go hb rfl
  rw [if_neg h₃, if_neg h₃]
  by_cases h₄ : isNameStart c = true
  · rw [if_pos h₄, if_pos h₄, if_neg (c := s.stack = [] ∧ s.seen = true) fun h => hopen h.1]
    split_ifs
    · exact follows_none _ _ _
    · exact follows_go hb trivial
  · rw [if_neg h₄]
    exact follows_none _ _ _

theorem follows_inBang (c : Char) (seen : Str) :
    Follows base r (r.inBang seen c) (s.inBang seen c) := by
  have hopen := hb.open_stack
  unfold Reader.inBang
  dsimp only
  by_cases h₁ : seen ++ [c] = "--".toList
  · rw [if_pos h₁, if_pos h₁]
    exact follows_go hb trivial
  rw [if_neg h₁, if_neg h₁]
  by_cases h₂ : seen ++ [c] = "-".toList
  · rw [if_pos h₂, if_pos h₂]
    exact follows_go hb trivial
  rw [if_neg h₂, if_neg h₂, if_neg hopen]
  by_cases h₃ : r.stack = []
  · rw [if_pos h₃]
    exact follows_none _ _ _
  rw [if_neg h₃]
  split_ifs
  · exact follows_go hb trivial
  · exact follows_go hb trivial
  · exact follows_none _ _ _

theorem follows_inCdata (c : Char) (k : ℕ) (hopen : r.stack ≠ []) :
    Follows base r (r.inCdata k c) (s.inCdata k c) := by
  unfold Reader.inCdata
  split_ifs
  · exact follows_go hb trivial
  · exact follows_emit hb (by trivial) (by simp [IsCharacter]) (Or.inr hopen)
  · exact follows_go hb trivial
  · apply follows_emit hb (by trivial) _ (Or.inr hopen)
    intro t ht
    rcases List.mem_append.mp ht with ht | ht
    · exact ⟨_, List.eq_of_mem_replicate ht⟩
    · exact ⟨_, List.mem_singleton.mp ht⟩

/-- A processing instruction that is not the XML declaration. -/
theorem follows_inTarget (c : Char) (name : Str) :
    Follows base r (r.inTarget false name c) (s.inTarget false name c) := by
  unfold Reader.inTarget
  by_cases h₁ : name = []
  · rw [if_pos h₁, if_pos h₁]
    split_ifs
    · exact follows_go hb rfl
    · exact follows_none _ _ _
  rw [if_neg h₁, if_neg h₁]
  by_cases h₂ : isNameChar c = true
  · rw [if_pos h₂, if_pos h₂]
    exact follows_go hb rfl
  rw [if_neg h₂, if_neg h₂]
  have hdecl : isDeclTarget false name = none ∨ isDeclTarget false name = some false := by
    unfold isDeclTarget
    by_cases hname : name.map Char.toLower = "xml".toList
    · rw [if_pos hname]
      exact Or.inl rfl
    · rw [if_neg hname]
      exact Or.inr rfl
  rcases hdecl with hdecl | hdecl
  · rw [hdecl]
    exact follows_none _ _ _
  · rw [hdecl]
    dsimp only
    split_ifs
    · exact follows_go hb rfl
    · exact follows_go hb rfl
    · exact follows_none _ _ _

theorem follows_inInstruction (c : Char) (body : Str) (question : Bool) :
    Follows base r (r.inInstruction false body question c)
      (s.inInstruction false body question c) := by
  unfold Reader.inInstruction
  dsimp only
  by_cases h₁ : c = '>' ∧ question = true
  · rw [if_pos h₁, if_pos h₁]
    exact follows_home hb
  · rw [if_neg h₁, if_neg h₁]
    split_ifs
    · exact follows_go hb rfl
    · exact follows_go hb rfl
    · exact follows_go hb rfl
    · exact follows_go hb rfl

theorem follows_inReference (c : Char) (body : Str) {more : Str → Mode}
    {done done' : Char → Result} (hmore : ∀ b, Inside (more b))
    (hdone : ∀ d, Follows base r (done d) (done' d)) :
    Follows base r (r.inReference body c more done) (s.inReference body c more done') := by
  unfold Reader.inReference
  split_ifs
  · intro r' ts h
    obtain ⟨d, hd, hdone'⟩ := Option.bind_eq_some_iff.mp h
    rw [hd, Option.bind_some]
    exact hdone d r' ts hdone'
  · exact follows_go hb (hmore _)
  · exact follows_none _ _ _

theorem follows_inAttrValue (c : Char) (t : Tag) (attr : Str) (quote : Char) (value : Str) :
    Follows base r (r.inAttrValue t attr quote value c) (s.inAttrValue t attr quote value c) := by
  unfold Reader.inAttrValue
  by_cases h₁ : c = quote
  · rw [if_pos h₁, if_pos h₁]
    split_ifs
    · exact follows_none _ _ _
    · exact follows_go hb trivial
  rw [if_neg h₁, if_neg h₁]
  by_cases h₂ : c = '<'
  · rw [if_pos h₂]
    exact follows_none _ _ _
  rw [if_neg h₂, if_neg h₂]
  by_cases h₃ : c = '&'
  · rw [if_pos h₃, if_pos h₃]
    exact follows_go hb trivial
  · rw [if_neg h₃, if_neg h₃]
    exact follows_go hb trivial

end Lex

/-- The same character in the same mode. -/
theorem follows_lex {base : List Str} {r s : Reader} (c : Char) (hb : Beside base r s)
    (hm : Inside r.mode) (hmode : s.mode = r.mode) (hn : Nested r) :
    Follows base r (r.lex c) (s.lex c) := by
  rcases r with ⟨mode, stack, seen, cr⟩
  have hfits : Fits mode stack seen := hn.mode
  cases mode with
  | outside first => exact hm.elim
  | content k =>
      simp only [Reader.lex, hmode]
      exact follows_inContent hb c k hfits
  | reference body =>
      simp only [Reader.lex, hmode]
      exact follows_inReference hb c body (fun _ => trivial)
        fun d => follows_emit hb (by trivial) (by simp [IsCharacter]) (Or.inr hfits)
  | opened first =>
      have hfirst : first = false := hm
      simp only [Reader.lex, hmode, hfirst]
      exact follows_inMarkup hb c
  | bang text =>
      simp only [Reader.lex, hmode]
      exact follows_inBang hb c text
  | comment dashes =>
      rcases dashes with _ | _ | n
      · simp only [Reader.lex, hmode]
        exact follows_go hb trivial
      · simp only [Reader.lex, hmode]
        exact follows_go hb trivial
      · simp only [Reader.lex, hmode]
        split_ifs
        · exact follows_home hb
        · exact follows_none _ _ _
  | cdata k =>
      simp only [Reader.lex, hmode]
      exact follows_inCdata hb c k hfits
  | target first name =>
      have hfirst : first = false := hm
      simp only [Reader.lex, hmode, hfirst]
      exact follows_inTarget hb c name
  | targetEnd decl =>
      simp only [Reader.lex, hmode]
      split_ifs
      · exact follows_home hb
      · exact follows_none _ _ _
  | instruction decl body question =>
      have hdecl : decl = false := hm
      simp only [Reader.lex, hmode, hdecl]
      exact follows_inInstruction hb c body question
  | startName name =>
      simp only [Reader.lex, hmode]
      split_ifs
      · exact follows_go hb trivial
      · exact follows_tagEnd hb c _
  | inTag t =>
      simp only [Reader.lex, Reader.inTag, hmode]
      split_ifs
      · exact follows_go hb trivial
      · exact follows_tagEnd hb c _
  | attrName t attr =>
      simp only [Reader.lex, Reader.inAttrName, hmode]
      split_ifs
      · exact follows_go hb trivial
      · exact follows_go hb trivial
      · exact follows_go hb trivial
      · exact follows_none _ _ _
  | attrEq t attr =>
      simp only [Reader.lex, hmode]
      split_ifs
      · exact follows_go hb trivial
      · exact follows_go hb trivial
      · exact follows_none _ _ _
  | attrQuote t attr =>
      simp only [Reader.lex, hmode]
      split_ifs
      · exact follows_go hb trivial
      · exact follows_go hb trivial
      · exact follows_none _ _ _
  | attrValue t attr quote value =>
      simp only [Reader.lex, hmode]
      exact follows_inAttrValue hb c t attr quote value
  | attrReference t attr quote value body =>
      simp only [Reader.lex, hmode]
      exact follows_inReference hb c body (fun _ => trivial) fun d => follows_go hb trivial
  | afterValue t =>
      simp only [Reader.lex, hmode]
      exact follows_tagEnd hb c t
  | emptyTag t =>
      simp only [Reader.lex, hmode]
      split_ifs
      · exact follows_emptyElement hb t
      · exact follows_none _ _ _
  | endName name =>
      simp only [Reader.lex, hmode]
      split_ifs
      · exact follows_go hb trivial
      · exact follows_none _ _ _
      · exact follows_endTag hb name
      · exact follows_go hb trivial
      · exact follows_none _ _ _
  | endTag name =>
      simp only [Reader.lex, hmode]
      split_ifs
      · exact follows_endTag hb name
      · exact follows_go hb trivial
      · exact follows_none _ _ _

theorem inner_outside {ts : List Token} (h : ∀ t ∈ ts, IsCharacter t) : innerTokens 0 ts = [] := by
  induction ts with
  | nil => rfl
  | cons t ts ih =>
      obtain ⟨c, rfl⟩ := h t List.mem_cons_self
      rw [innerTokens, if_pos rfl, ih fun u hu => h u (List.mem_cons_of_mem _ hu)]

/-- Without a carriage return before it, a character is read as it is, and a carriage
return as a line feed. -/
theorem step_fresh {r : Reader} (hr : r.cr = false) {c : Char} (hc : isChar c = true) :
    r.step c = { r with cr := decide (c = '\r') }.lex (if c = '\r' then '\n' else c) := by
  have hline : ¬ (c = '\n' ∧ r.cr = true) := by
    rintro ⟨-, h⟩
    rw [hr] at h
    cases h
  rw [Reader.step, if_neg (by simp [hc]), if_neg hline]
  by_cases h : c = '\r'
  · simp [h]
  · simp [h]

theorem isChar_of_step {r r' : Reader} {c : Char} {ts : List Token}
    (h : r.step c = some (r', ts)) : isChar c = true := by
  by_contra hc
  rw [Reader.step, if_pos (by simpa using hc)] at h
  cases h

def IsBlank (c : Char) : Prop := isSpace c = true ∨ c = '\r'

/-- Outside of the root only white space and markup can come. -/
theorem step_outside {r r' : Reader} {first : Bool} (hm : r.mode = .outside first)
    (hfirst : first = true → r.cr = false) {c : Char} {ts : List Token}
    (h : r.step c = some (r', ts)) : ts = [] ∧
      ((c = '<' ∧ r' = ⟨.opened first, r.stack, r.seen, false⟩) ∨
        IsBlank c ∧ ∃ cr, r' = ⟨.outside false, r.stack, r.seen, cr⟩) := by
  rcases r with ⟨mode, stack, seen, cr⟩
  subst hm
  unfold Reader.step at h
  split_ifs at h with h₁ h₂ h₃
  · cases h
    refine ⟨rfl, Or.inr ⟨Or.inl (by rw [h₂.1]; rfl), false, ?_⟩⟩
    cases first with
    | false => rfl
    | true =>
        have hcr : cr = false := hfirst rfl
        rw [hcr] at h₂
        cases h₂.2
  · cases h
    exact ⟨rfl, Or.inr ⟨Or.inr h₃, true, rfl⟩⟩
  · simp only [Reader.lex] at h
    split_ifs at h with h₄ h₅
    · cases h
      exact ⟨rfl, Or.inl ⟨h₄, rfl⟩⟩
    · cases h
      exact ⟨rfl, Or.inr ⟨Or.inl h₅, false, rfl⟩⟩

/-- In content white space is character data. -/
theorem step_blank {s : Reader} {k : ℕ} (hm : s.mode = .content k) {c : Char}
    (hchar : isChar c = true) (hc : IsBlank c) : ∃ k' cr us,
      s.step c = some (⟨.content k', s.stack, s.seen, cr⟩, us) ∧ ∀ t ∈ us, IsCharacter t := by
  have hlex : ∀ cr, ∀ d, isSpace d = true → { s with cr := cr }.lex d =
      some (⟨.content 0, s.stack, s.seen, cr⟩, [.char d]) := by
    intro cr d hd
    have hcases : d = ' ' ∨ d = '\t' ∨ d = '\n' := by simpa [isSpace, or_assoc] using hd
    simp only [Reader.lex, hm, Reader.inContent]
    rcases hcases with rfl | rfl | rfl <;> rfl
  unfold Reader.step
  rw [if_neg (by simp [hchar])]
  split_ifs with h₁ h₂
  · exact ⟨k, false, [], by rw [← hm], by simp⟩
  · exact ⟨0, true, _, hlex true '\n' rfl, by simp [IsCharacter]⟩
  · exact ⟨0, false, _, hlex false c (hc.resolve_right h₂), by simp [IsCharacter]⟩

theorem follows_step {base : List Str} {r s : Reader} (c : Char) (hbase : base ≠ [])
    (hw : Within base r s) (hn : Nested r) : Follows base r (r.step c) (s.step c) := by
  rcases hw.mode with ⟨hout, k, hk⟩ | ⟨hinside, hmode, hcr⟩
  · intro r' ts h
    have hempty : r.stack = [] := by
      have hfits := hn.mode
      rw [hout] at hfits
      exact hfits
    obtain ⟨rfl, hcase⟩ := step_outside hout (by simp) h
    rcases hcase with ⟨rfl, rfl⟩ | ⟨hblank, cr, rfl⟩
    · refine ⟨⟨.opened false, s.stack, s.seen, false⟩, [], ?_, ?_, rfl, (Int.add_zero _).symm⟩
      · have hlt : isChar '<' = true := rfl
        rw [Reader.step, if_neg (by simp [hlt]), if_neg (by simp), if_neg (by simp)]
        simp only [Reader.lex, hk, Reader.inContent]
        rfl
      · exact ⟨hw.stack, hw.seen, Or.inr ⟨rfl, rfl, rfl⟩⟩
    · obtain ⟨k', cr', us, hs, hus⟩ := step_blank hk (isChar_of_step h) hblank
      refine ⟨_, us, hs, ⟨hw.stack, hw.seen, Or.inl ⟨rfl, k', rfl⟩⟩, ?_, ?_⟩
      · rw [hempty]
        exact inner_outside hus
      · rw [level_characters hus, Int.add_zero]
  · unfold Reader.step
    rw [hcr]
    split_ifs
    · exact follows_none _ _ _
    · intro r' ts h
      cases h
      exact ⟨_, [], rfl, ⟨hw.stack, hw.seen, Or.inr ⟨hinside, hmode, rfl⟩⟩, rfl,
        (Int.add_zero _).symm⟩
    · exact follows_lex '\n' ⟨hbase, hw.stack, hw.seen, rfl⟩ hinside hmode ⟨hn.seen, hn.mode⟩
    · exact follows_lex c ⟨hbase, hw.stack, hw.seen, rfl⟩ hinside hmode ⟨hn.seen, hn.mode⟩

theorem follows_feed {base : List Str} {r s : Reader} (cs : Str) (hbase : base ≠ [])
    (hw : Within base r s) (hn : Nested r) : Follows base r (r.feed cs) (s.feed cs) := by
  induction cs generalizing r s with
  | nil =>
      intro r' ts h
      cases h
      exact ⟨s, [], rfl, hw, rfl, (Int.add_zero _).symm⟩
  | cons c cs ih =>
      intro r' ts h
      obtain ⟨r₁, ts₁, ts₂, hone, hrest, rfl⟩ := feed_cons_eq_some h
      obtain ⟨s₁, us₁, hs₁, hw₁, hinner₁, hlevel₁⟩ := follows_step c hbase hw hn r₁ ts₁ hone
      obtain ⟨s₂, us₂, hs₂, hw₂, hinner₂, hlevel₂⟩ :=
        ih hw₁ (nested_step c hn r₁ ts₁ hone).1 r' ts₂ hrest
      refine ⟨s₂, us₁ ++ us₂, ?_, hw₂, ?_, ?_⟩
      · simp only [Reader.feed, hs₁, hs₂, Option.bind_eq_bind, Option.bind_some]
      · rw [inner_append, hinner₁, ← hlevel₁, hinner₂]
      · rw [hlevel₂, hlevel₁, level_append, Int.add_assoc]

/-- The text begins with a processing instruction for the target `xml`, which is what
an XML declaration looks like. -/
def Declares (text : Str) : Prop :=
  ∃ c rest, isNameChar c = false ∧ text = "<?xml".toList ++ c :: rest

/-- The second reader reads the rest of the document that the first one completes. -/
def Completes (base : List Str) (r s : Reader) (cs : Str) : Prop :=
  ∀ r' ts, r.feed cs = some (r', ts) → r'.complete = true → ∃ s' us, s.feed cs = some (s', us) ∧
    Within base r' s' ∧ innerTokens r.stack.length us = ts ∧
    (r'.stack.length : ℤ) = r.stack.length + level us

theorem completes_within {base : List Str} {r s : Reader} (cs : Str) (hbase : base ≠ [])
    (hw : Within base r s) (hn : Nested r) : Completes base r s cs := by
  intro r' ts h _
  exact follows_feed cs hbase hw hn r' ts h

/-- Both read a character without a token. -/
theorem completes_cons {base : List Str} {r r₁ s s₁ : Reader} {c : Char} {cs : Str}
    (hr : r.step c = some (r₁, [])) (hs : s.step c = some (s₁, []))
    (hstack : r₁.stack = r.stack) (h : Completes base r₁ s₁ cs) : Completes base r s (c :: cs) := by
  intro r' ts hfeed hc
  obtain ⟨r₂, ts₁, ts₂, hone, hrest, rfl⟩ := feed_cons_eq_some hfeed
  rw [hr, Option.some.injEq, Prod.mk.injEq] at hone
  obtain ⟨rfl, rfl⟩ := hone
  obtain ⟨s', us, hs', hw, hinner, hlevel⟩ := h r' ts₂ hrest hc
  refine ⟨s', us, ?_, hw, ?_, ?_⟩
  · simp only [Reader.feed, hs, hs', Option.bind_eq_bind, Option.bind_some, List.nil_append]
  · rw [← hstack]
    exact hinner
  · rw [← hstack]
    exact hlevel

theorem completes_fails {base : List Str} {r s : Reader} {c : Char} {cs : Str}
    (h : r.step c = none) : Completes base r s (c :: cs) := by
  intro r' ts hfeed _
  obtain ⟨r₁, ts₁, ts₂, hone, -⟩ := feed_cons_eq_some hfeed
  rw [h] at hone
  cases hone

theorem completes_nil {base : List Str} {r s : Reader} (h : r.complete = false) :
    Completes base r s [] := by
  intro r' ts hfeed hc
  cases hfeed
  rw [h] at hc
  cases hc

theorem isDeclTarget_cases (name : Str) :
    isDeclTarget true name = none ∨ name = "xml".toList ∨
      isDeclTarget true name = some false ∧ isDeclTarget false name = some false := by
  unfold isDeclTarget
  by_cases hname : name.map Char.toLower = "xml".toList
  · by_cases hxml : name = "xml".toList
    · exact Or.inr (Or.inl hxml)
    · rw [if_pos hname, if_neg fun h => hxml h.2]
      exact Or.inl rfl
  · rw [if_neg hname, if_neg hname]
    exact Or.inr (Or.inr ⟨rfl, rfl⟩)

section First
variable {base : List Str} (hbase : base ≠ [])
include hbase

/-- Before the root both reach a mode from which they read alike. -/
theorem completes_alike {r s : Reader} {c : Char} {m : Mode} {cr : Bool} (cs : Str)
    (hr : r.step c = some (⟨m, [], false, cr⟩, []))
    (hs : s.step c = some (⟨m, base, true, cr⟩, [])) (hstack : r.stack = []) (hm : Inside m)
    (hfits : Fits m [] false) : Completes base r s (c :: cs) := by
  have hwithin : Within base ⟨m, [], false, cr⟩ ⟨m, base, true, cr⟩ :=
    ⟨rfl, rfl, Or.inr ⟨hm, rfl, rfl⟩⟩
  have hnested : Nested ⟨m, [], false, cr⟩ := ⟨fun h => (h rfl).elim, hfits⟩
  exact completes_cons hr hs hstack.symm (completes_within cs hbase hwithin hnested)

/-- In the target of the first processing instruction. The induction is on the text:
the target goes on, or it ends and is not `xml`. -/
theorem completes_target (name cs : Str) (h : ¬ Declares ("<?".toList ++ name ++ cs)) :
    Completes base ⟨.target true name, [], false, false⟩ ⟨.target false name, base, true, false⟩
      cs := by
  induction cs generalizing name with
  | nil => exact completes_nil rfl
  | cons c cs ih =>
      have hnext : ¬ Declares ("<?".toList ++ (name ++ [c]) ++ cs) := by
        rw [← List.append_assoc, List.append_assoc _ [c]]
        exact h
      by_cases hchar : isChar c = true
      · have hr := step_fresh (r := ⟨.target true name, [], false, false⟩) rfl hchar
        have hs := step_fresh (r := ⟨.target false name, base, true, false⟩) rfl hchar
        simp only [Reader.lex, Reader.inTarget] at hr hs
        by_cases hcr : c = '\r'
        · subst hcr
          rw [if_pos rfl] at hr hs
          by_cases hname : name = []
          · rw [if_pos hname] at hr
            exact completes_fails hr
          rw [if_neg hname] at hr hs
          rcases isDeclTarget_cases name with hnone | rfl | ⟨htrue, hfalse⟩
          · rw [hnone] at hr
            exact completes_fails hr
          · exact (h ⟨'\r', cs, rfl, rfl⟩).elim
          · rw [htrue] at hr
            rw [hfalse] at hs
            exact completes_alike hbase cs hr hs rfl rfl trivial
        rw [if_neg hcr] at hr hs
        by_cases hname : name = []
        · rw [if_pos hname] at hr hs
          by_cases hstart : isNameStart c = true
          · rw [if_pos hstart] at hr hs
            subst hname
            have hgo := ih [c] hnext
            simp only [hcr, decide_false] at hr hs
            exact completes_cons hr hs rfl hgo
          · rw [if_neg hstart] at hr
            exact completes_fails hr
        rw [if_neg hname] at hr hs
        by_cases hnc : isNameChar c = true
        · rw [if_pos hnc] at hr hs
          simp only [hcr, decide_false] at hr hs
          exact completes_cons hr hs rfl (ih (name ++ [c]) hnext)
        rw [if_neg hnc] at hr hs
        rcases isDeclTarget_cases name with hnone | rfl | ⟨htrue, hfalse⟩
        · rw [hnone] at hr
          exact completes_fails hr
        · exact (h ⟨c, cs, by simpa using hnc, rfl⟩).elim
        · rw [htrue] at hr
          rw [hfalse] at hs
          dsimp only at hr hs
          split_ifs at hr hs
          · exact completes_alike hbase cs hr hs rfl rfl trivial
          · exact completes_alike hbase cs hr hs rfl rfl trivial
          · exact completes_fails hr
      · exact completes_fails (by rw [Reader.step, if_pos (by simpa using hchar)])

theorem completes_opened (cs : Str) (h : ¬ Declares ('<' :: cs)) :
    Completes base ⟨.opened true, [], false, false⟩ ⟨.opened false, base, true, false⟩ cs := by
  rcases cs with _ | ⟨c, cs⟩
  · exact completes_nil rfl
  by_cases hchar : isChar c = true
  · have hr := step_fresh (r := ⟨.opened true, [], false, false⟩) rfl hchar
    have hs := step_fresh (r := ⟨.opened false, base, true, false⟩) rfl hchar
    by_cases hcr : c = '\r'
    · subst hcr
      exact completes_fails hr
    rw [if_neg hcr] at hr hs
    simp only [hcr, decide_false, Reader.lex, Reader.inMarkup] at hr hs
    have hopen : ¬ (base = [] ∧ True) := fun h => hbase h.1
    by_cases h₁ : c = '/'
    · rw [if_pos h₁] at hr
      exact completes_fails hr
    rw [if_neg h₁] at hr hs
    by_cases h₂ : c = '!'
    · rw [if_pos h₂] at hr hs
      exact completes_alike hbase cs hr hs rfl trivial trivial
    rw [if_neg h₂] at hr hs
    by_cases h₃ : c = '?'
    · rw [if_pos h₃] at hr hs
      subst h₃
      exact completes_cons hr hs rfl (completes_target hbase [] cs h)
    rw [if_neg h₃] at hr hs
    by_cases h₄ : isNameStart c = true
    · rw [if_pos h₄, if_neg (by simp)] at hr
      rw [if_pos h₄, if_neg hopen] at hs
      exact completes_alike hbase cs hr hs rfl trivial (by simp [Fits])
    · rw [if_neg h₄] at hr
      exact completes_fails hr
  · exact completes_fails (by rw [Reader.step, if_pos (by simpa using hchar)])

/-- From the beginning of the inner document. -/
theorem completes_init {s : Reader} {k : ℕ} (hmode : s.mode = .content k) (hstack : s.stack = base)
    (hseen : s.seen = true) (text : Str) (h : ¬ Declares text) :
    Completes base Reader.init s text := by
  rcases text with _ | ⟨c, cs⟩
  · exact completes_nil rfl
  intro r' ts hfeed hc
  obtain ⟨r₁, ts₁, ts₂, hone, hrest, rfl⟩ := feed_cons_eq_some hfeed
  obtain ⟨rfl, hcase⟩ := step_outside rfl (fun _ => rfl) hone
  have hchar := isChar_of_step hone
  rcases hcase with ⟨rfl, rfl⟩ | ⟨hblank, cr, rfl⟩
  · have hs : s.step '<' = some (⟨.opened false, s.stack, s.seen, false⟩, []) := by
      rw [Reader.step, if_neg (by simp [hchar]), if_neg (by simp), if_neg (by simp)]
      simp only [Reader.lex, hmode, Reader.inContent]
      rfl
    rw [hstack, hseen] at hs
    exact completes_cons hone hs rfl (completes_opened hbase cs h) r' _ hfeed hc
  · obtain ⟨k', cr', us, hs, hus⟩ := step_blank hmode hchar hblank
    have hw : Within base ⟨.outside false, [], false, cr⟩ ⟨.content k', s.stack, s.seen, cr'⟩ :=
      ⟨hstack, hseen, Or.inl ⟨rfl, k', rfl⟩⟩
    obtain ⟨s', vs, hs', hw', hinner, hlevel⟩ :=
      follows_feed cs hbase hw ⟨fun h => (h rfl).elim, rfl⟩ r' ts₂ hrest
    refine ⟨s', us ++ vs, ?_, hw', ?_, ?_⟩
    · simp only [Reader.feed, hs, hs', Option.bind_eq_bind, Option.bind_some]
    · have hskip := inner_outside hus
      rw [inner_append]
      change innerTokens 0 us ++ innerTokens (0 + level us) vs = [] ++ ts₂
      rw [hskip, level_characters hus]
      exact congrArg ([] ++ ·) hinner
    · rw [level_append, level_characters hus, Int.zero_add]
      exact hlevel

end First

/-- A document without an XML declaration is read in the content of an open element
with the tokens of its root and characters around them, and leaves the reader in that
content. -/
theorem feed_document {s : Reader} {k : ℕ} (hmode : s.mode = .content k) (hstack : s.stack ≠ [])
    (hseen : s.seen = true) {text : Str} {d : Node} (h : Denotes text d) (hd : ¬ Declares text) :
    ∃ k' cr us, s.feed text = some (⟨.content k', s.stack, true, cr⟩, us) ∧
      innerTokens 0 us = d.tokens ∧ level us = 0 := by
  obtain ⟨r, hfeed, hc⟩ := h
  obtain ⟨⟨mode, stack, seen, cr⟩, us, hs, hw, hinner, hlevel⟩ :=
    completes_init hstack hmode rfl hseen text hd r _ hfeed hc
  have hcomplete : r.closed = true ∧ r.mode = .outside false := by
    simpa [Reader.complete] using hc
  have hempty := (closed_iff.mp hcomplete.1).2
  have hstack' : stack = s.stack := by
    have := hw.stack
    rw [hempty, List.nil_append] at this
    exact this
  have hseen' : seen = true := hw.seen
  rcases hw.mode with ⟨-, k', hk'⟩ | ⟨hinside, -⟩
  · have hk : mode = .content k' := hk'
    refine ⟨k', cr, us, by rw [hs, hk, hstack', hseen'], hinner, ?_⟩
    rw [hempty] at hlevel
    change (0 : ℤ) = 0 + level us at hlevel
    omega
  · rw [hcomplete.2] at hinside
    exact hinside.elim

end Stabber.XmlContext
