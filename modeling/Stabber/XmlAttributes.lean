import Stabber.XmlCost
import Stabber.XmlTree

/-!
# Text put between the quotes of an attribute

A text is put between double quotes in a start tag as it is. The attribute has
the text as its value exactly when the text is plain: a quote in it ends the value
early, and a reference or a tab stands for a shorter or another text.
-/

namespace Stabber.XmlAttributes
open XmlDocument XmlReader XmlReading XmlNesting XmlTree XmlCost

/-! ## The start tag being read -/

/-- The start tag of which the name has been read. -/
def pending : Mode → Option Tag
  | .inTag t => some t
  | .attrName t _ => some t
  | .attrEq t _ => some t
  | .attrQuote t _ => some t
  | .attrValue t _ _ _ => some t
  | .attrReference t _ _ _ _ => some t
  | .afterValue t => some t
  | .emptyTag t => some t
  | _ => none

/-- The tag goes on, with the attributes that it has, or is returned. -/
inductive Continued (t : Tag) (r : Reader) : List Token → Prop
  | reading (t' : Tag) : pending r.mode = some t' → t'.name = t.name → t.attrs <+: t'.attrs →
      Continued t r []
  | returned (as : List (Str × Str)) (ts : List Token) : t.attrs <+: as →
      Continued t r (.start t.name as :: ts)

def Continues (t : Tag) (result : Result) : Prop :=
  ∀ r ts, result = some (r, ts) → Continued t r ts

theorem continues_none (t : Tag) : Continues t none := by
  intro r ts h
  cases h

theorem continues_go (r : Reader) {t : Tag} {m : Mode} (h : pending m = some t) :
    Continues t (r.go m) := by
  intro r' ts heq
  cases heq
  exact .reading t h rfl List.prefix_rfl

section Lex
variable (r : Reader) (c : Char) (t : Tag)

theorem continues_tagEnd : Continues t (r.tagEnd t c) := by
  unfold Reader.tagEnd
  split_ifs
  · exact continues_go r rfl
  · intro r' ts h
    cases h
    exact .returned t.attrs [] List.prefix_rfl
  · exact continues_go r rfl
  · exact continues_none t

theorem continues_inAttrValue (attr : Str) (quote : Char) (value : Str) :
    Continues t (r.inAttrValue t attr quote value c) := by
  unfold Reader.inAttrValue
  by_cases h₁ : c = quote
  · rw [if_pos h₁]
    split_ifs
    · exact continues_none t
    · intro r' ts h
      cases h
      exact .reading ⟨t.name, t.attrs ++ [(attr, value)]⟩ rfl rfl (List.prefix_append _ _)
  rw [if_neg h₁]
  by_cases h₂ : c = '<'
  · rw [if_pos h₂]
    exact continues_none t
  rw [if_neg h₂]
  by_cases h₃ : c = '&'
  · rw [if_pos h₃]
    exact continues_go r rfl
  · rw [if_neg h₃]
    exact continues_go r rfl

theorem continues_inReference (body : Str) {more : Str → Mode} {done : Char → Result}
    (hmore : ∀ b, pending (more b) = some t) (hdone : ∀ d, Continues t (done d)) :
    Continues t (r.inReference body c more done) := by
  unfold Reader.inReference
  split_ifs
  · intro r' ts h
    obtain ⟨d, _, hd⟩ := Option.bind_eq_some_iff.mp h
    exact hdone d r' ts hd
  · exact continues_go r (hmore _)
  · exact continues_none t

theorem continues_lex (h : pending r.mode = some t) : Continues t (r.lex c) := by
  rcases r with ⟨mode, stack, seen, cr⟩
  cases mode with
  | inTag t' =>
      obtain rfl := Option.some.inj h
      simp only [Reader.lex, Reader.inTag]
      split_ifs
      · exact continues_go _ rfl
      · exact continues_tagEnd _ c _
  | attrName t' attr =>
      obtain rfl := Option.some.inj h
      simp only [Reader.lex, Reader.inAttrName]
      split_ifs
      · exact continues_go _ rfl
      · exact continues_go _ rfl
      · exact continues_go _ rfl
      · exact continues_none _
  | attrEq t' attr =>
      obtain rfl := Option.some.inj h
      simp only [Reader.lex]
      split_ifs
      · exact continues_go _ rfl
      · exact continues_go _ rfl
      · exact continues_none _
  | attrQuote t' attr =>
      obtain rfl := Option.some.inj h
      simp only [Reader.lex]
      split_ifs
      · exact continues_go _ rfl
      · exact continues_go _ rfl
      · exact continues_none _
  | attrValue t' attr quote value =>
      obtain rfl := Option.some.inj h
      exact continues_inAttrValue _ c _ attr quote value
  | attrReference t' attr quote value body =>
      obtain rfl := Option.some.inj h
      exact continues_inReference _ c _ body (fun _ => rfl) fun _ => continues_go _ rfl
  | afterValue t' =>
      obtain rfl := Option.some.inj h
      exact continues_tagEnd _ c _
  | emptyTag t' =>
      obtain rfl := Option.some.inj h
      simp only [Reader.lex]
      split_ifs
      · intro r' ts heq
        cases heq
        exact .returned t'.attrs _ List.prefix_rfl
      · exact continues_none _
  | _ => cases h

theorem continues_step (h : pending r.mode = some t) : Continues t (r.step c) := by
  unfold Reader.step
  split_ifs
  · exact continues_none t
  · intro r' ts heq
    cases heq
    exact .reading t h rfl List.prefix_rfl
  · exact continues_lex { r with cr := true } '\n' t h
  · exact continues_lex { r with cr := false } c t h

end Lex

/-- The attributes read so far stay the first ones of the tag. -/
theorem continued_feed {r u : Reader} {t : Tag} {cs : Str} {ts : List Token}
    (h : pending r.mode = some t) (hfeed : r.feed cs = some (u, ts)) : Continued t u ts := by
  induction cs generalizing r t ts with
  | nil =>
      cases hfeed
      exact .reading t h rfl List.prefix_rfl
  | cons c cs ih =>
      obtain ⟨s, us, vs, hone, hrest, rfl⟩ := feed_cons_eq_some hfeed
      rcases continues_step r c t h s us hone with ⟨t', ht', hname, hattrs⟩ | ⟨as, us, hattrs⟩
      · rcases ih ht' hrest with ⟨t'', ht'', hname', hattrs'⟩ | ⟨as, vs, hattrs'⟩
        · exact .reading t'' ht'' (hname'.trans hname) (hattrs.trans hattrs')
        · rw [hname]
          exact .returned as vs (hattrs.trans hattrs')
      · exact .returned as (us ++ vs) hattrs

/-! ## The end of a value -/

theorem not_isRefPrefix {s : Str} {c : Char} (hc : c = '"' ∨ c = '<') (h : c ∈ s) :
    isRefPrefix s = false := by
  have hdigit : ∀ base, ∀ ds : Str, c ∈ ds → (ds.all fun d => (digit base d).isSome) = false := by
    intro base ds hmem
    have hnone : digit base c = none := by
      rcases hc with rfl | rfl <;> simp [digit, between]
    by_contra hall
    rw [Bool.not_eq_false, List.all_eq_true] at hall
    have := hall c hmem
    rw [hnone] at this
    cases this
  by_contra hpre
  rw [Bool.not_eq_false] at hpre
  unfold isRefPrefix at hpre
  split at hpre
  next ds =>
    rw [hdigit 16 ds] at hpre
    · cases hpre
    · rcases hc with rfl | rfl <;> simpa using h
  next ds _ =>
    rw [hdigit 10 ds] at hpre
    · cases hpre
    · rcases hc with rfl | rfl <;> simpa using h
  next =>
    obtain ⟨p, hp, hle⟩ := List.any_eq_true.mp hpre
    have hmem : c ∈ p.1 := (List.isPrefixOf_iff_prefix.mp hle).subset h
    have hall : ∀ q ∈ predefined, '"' ∉ q.1 ∧ '<' ∉ q.1 := by decide
    rcases hc with rfl | rfl
    · exact (hall p hp).1 hmem
    · exact (hall p hp).2 hmem

/-- In the value of an attribute in double quotes, with this much of the value. -/
def Valued (t : Tag) (attr : Str) (m : Mode) (value : Str) : Prop :=
  m = .attrValue t attr '"' value ∨ ∃ body, m = .attrReference t attr '"' value body

theorem value_lex {r r' : Reader} {t : Tag} {attr value : Str} {c : Char} {ts : List Token}
    (hm : Valued t attr r.mode value) (h : r.lex c = some (r', ts)) :
    (c = '"' ∧ r.mode = .attrValue t attr '"' value) ∨
      (c ≠ '"' ∧ ts = [] ∧ ∃ w, Valued t attr r'.mode w ∧ w.length ≤ value.length + 1) := by
  rcases hm with hm | ⟨body, hm⟩
  · by_cases hq : c = '"'
    · exact Or.inl ⟨hq, hm⟩
    right
    simp only [Reader.lex, hm, Reader.inAttrValue, if_neg hq] at h
    by_cases hlt : c = '<'
    · rw [if_pos hlt] at h
      cases h
    rw [if_neg hlt] at h
    by_cases hamp : c = '&'
    · rw [if_pos hamp] at h
      cases h
      exact ⟨hq, rfl, value, Or.inr ⟨[], rfl⟩, Nat.le_succ _⟩
    · rw [if_neg hamp] at h
      cases h
      exact ⟨hq, rfl, _, Or.inl rfl, by simp⟩
  · right
    simp only [Reader.lex, hm, Reader.inReference] at h
    by_cases hend : c = ';'
    · rw [if_pos hend] at h
      obtain ⟨d, _, hd⟩ := Option.bind_eq_some_iff.mp h
      cases hd
      refine ⟨?_, rfl, value ++ [d], Or.inl rfl, by simp⟩
      rintro rfl
      cases hend
    rw [if_neg hend] at h
    by_cases hpre : isRefPrefix (body ++ [c]) = true
    · rw [if_pos hpre] at h
      cases h
      refine ⟨?_, rfl, value, Or.inr ⟨_, rfl⟩, Nat.le_succ _⟩
      intro hq
      rw [not_isRefPrefix (Or.inl hq) (by simp)] at hpre
      cases hpre
    · rw [if_neg hpre] at h
      cases h

theorem value_step {r r' : Reader} {t : Tag} {attr value : Str} {c : Char} {ts : List Token}
    (hm : Valued t attr r.mode value) (h : r.step c = some (r', ts)) :
    (c = '"' ∧ r.mode = .attrValue t attr '"' value) ∨
      (c ≠ '"' ∧ ts = [] ∧ ∃ w, Valued t attr r'.mode w ∧ w.length ≤ value.length + 1) := by
  unfold Reader.step at h
  split_ifs at h with h₁ h₂ h₃
  · cases h
    refine Or.inr ⟨?_, rfl, value, hm, Nat.le_succ _⟩
    rintro rfl
    cases h₂.1
  · subst h₃
    rcases value_lex (r := { r with cr := true }) hm h with ⟨hq, _⟩ | ⟨_, hts, hw⟩
    · cases hq
    · exact Or.inr ⟨by decide, hts, hw⟩
  · exact value_lex (r := { r with cr := false }) hm h

/-- The text ends within the value, or its first quote ends the value. -/
theorem value_feed {r u : Reader} {t : Tag} {attr value cs : Str} {ts : List Token}
    (hm : Valued t attr r.mode value) (h : r.feed cs = some (u, ts)) :
    (ts = [] ∧ pending u.mode = some t) ∨
      ∃ v rest s w, cs = v ++ '"' :: rest ∧ '"' ∉ v ∧ r.feed v = some (s, []) ∧
        s.mode = .attrValue t attr '"' w ∧ w.length ≤ value.length + v.length := by
  induction cs generalizing r value ts with
  | nil =>
      cases h
      refine Or.inl ⟨rfl, ?_⟩
      rcases hm with hm | ⟨body, hm⟩
      · rw [hm]
        rfl
      · rw [hm]
        rfl
  | cons c cs ih =>
      obtain ⟨s, us, vs, hone, hrest, rfl⟩ := feed_cons_eq_some h
      rcases value_step hm hone with ⟨rfl, hmode⟩ | ⟨hq, rfl, w, hw, hlength⟩
      · exact Or.inr ⟨[], cs, r, value, rfl, by simp, rfl, hmode, Nat.le_refl _⟩
      · rcases ih hw hrest with ⟨rfl, hpending⟩ | ⟨v, rest, s', w', rfl, hv, hs', hm', hlength'⟩
        · exact Or.inl ⟨rfl, hpending⟩
        · refine Or.inr ⟨c :: v, rest, s', w', rfl, ?_, ?_, hm', ?_⟩
          · rw [List.mem_cons, not_or]
            exact ⟨fun heq => hq heq.symm, hv⟩
          · simp only [Reader.feed, hone, hs', Option.bind_eq_bind, Option.bind_some,
              List.append_nil]
          · rw [List.length_cons]
            omega

/-- A value that reads as itself is plain: anything else would have been shorter than
its text, or would have lost white space. -/
theorem plainValue_of_feed {r s : Reader} {t : Tag} {attr v : Str}
    (hr : r.mode = .attrValue t attr '"' []) (ht : TidyTag t) (hnew : attr ∉ t.attrs.map Prod.fst)
    (hfeed : r.feed v = some (s, [])) (hs : s.mode = .attrValue t attr '"' v) : PlainValue v := by
  have hclose : s.feed "\"/>".toList = some (⟨home s.stack, s.stack, true, false⟩,
      [.start t.name (t.attrs ++ [(attr, v)]), .stop t.name]) := by
    rcases s with ⟨mode, stack, seen, cr⟩
    subst hs
    have hquote : (⟨.attrValue t attr '"' v, stack, seen, cr⟩ : Reader).step '"' =
        some (⟨.afterValue ⟨t.name, t.attrs ++ [(attr, v)]⟩, stack, seen, false⟩, []) := by
      have hlex : (⟨.attrValue t attr '"' v, stack, seen, false⟩ : Reader).lex '"' =
          some (⟨.afterValue ⟨t.name, t.attrs ++ [(attr, v)]⟩, stack, seen, false⟩, []) := by
        simp only [Reader.lex, Reader.inAttrValue, if_pos, if_neg hnew]
        rfl
      have hchar : isChar '"' = true := rfl
      rw [Reader.step, if_neg (by simp [hchar]), if_neg (by simp), if_neg (by simp)]
      exact hlex
    change ((⟨.attrValue t attr '"' v, stack, seen, cr⟩ : Reader).step '"').bind _ = _
    rw [hquote]
    rfl
  have hall : r.feed (v ++ "\"/>".toList) = some (⟨home s.stack, s.stack, true, false⟩,
      [.start t.name (t.attrs ++ [(attr, v)]), .stop t.name]) := by
    rw [feed_append _ hfeed, hclose]
    rfl
  have htidy : Tidy r.mode := by
    rw [hr]
    exact ⟨ht, rfl, by decide⟩
  have hplain := (accounted_feed hall).2 ?_ htidy 0
  · have hvalues : ∀ a ∈ t.attrs ++ [(attr, v)], PlainValue a.2 := hplain.1
    exact hvalues (attr, v) (by simp)
  · have hquote : textWeight "\"/>".toList = 3 := rfl
    rw [hr, credit_home]
    simp only [credit, cost, tagCost, attrsCost_append, attrsCost_cons, attrsCost_nil,
      textWeight_append, textWeight_nil, hquote, if_true]
    omega

/-- The text is plain if the attribute of the returned tag has it as its value. -/
theorem plainValue_of_attr {r u : Reader} {t : Tag} {attr v rest : Str} {as : List (Str × Str)}
    {ts : List Token} {n : Str} (hr : r.mode = .attrValue t attr '"' []) (ht : TidyTag t)
    (hnew : attr ∉ t.attrs.map Prod.fst)
    (hfeed : r.feed (v ++ '"' :: rest) = some (u, .start n as :: ts))
    (hvalue : ∀ a ∈ as, a.1 = attr → a.2 = v) : PlainValue v := by
  rcases value_feed (Or.inl hr) hfeed with
    ⟨hnil, -⟩ | ⟨v', rest', s, w, htext, hv', hs, hm, hlength⟩
  · cases hnil
  -- the first quote of the text ends the value, which stays in the tag
  have hfeed' := hfeed
  rw [htext] at hfeed'
  obtain ⟨vs, hrest, hvs⟩ := feed_rest hs hfeed'
  obtain ⟨s', us, us', hquote, hlast, rfl⟩ := feed_cons_eq_some hrest
  have hstep : us = [] ∧ s'.mode = .afterValue ⟨t.name, t.attrs ++ [(attr, w)]⟩ := by
    rcases s with ⟨mode, stack, seen, cr⟩
    subst hm
    have hchar : isChar '"' = true := rfl
    rw [Reader.step, if_neg (by simp [hchar]), if_neg (by simp), if_neg (by simp)] at hquote
    simp only [Reader.lex, Reader.inAttrValue, if_pos, if_neg hnew] at hquote
    cases hquote
    exact ⟨rfl, rfl⟩
  obtain ⟨rfl, hmode⟩ := hstep
  have hcontinued := continued_feed (by rw [hmode]; rfl) hlast
  rw [List.nil_append, List.nil_append] at hvs
  rw [← hvs] at hcontinued
  have hmem : (attr, w) ∈ as := by
    rcases hcontinued with _ | ⟨_, _, hpre⟩
    exact hpre.subset (by simp)
  have hwv : w = v := hvalue _ hmem rfl
  subst hwv
  have hsame : v' = w := by
    rcases List.append_eq_append_iff.mp htext with ⟨x, hx, hy⟩ | ⟨x, hx, -⟩
    · cases x with
      | nil => rw [hx, List.append_nil]
      | cons d x =>
          rw [List.cons_append, List.cons.injEq] at hy
          rw [hx, ← hy.1] at hv'
          simp at hv'
    · have hnil : x = [] := by
        have hlength' := congrArg List.length hx
        rw [List.length_append] at hlength'
        simp only [List.length_nil, Nat.zero_add] at hlength
        exact List.length_eq_zero_iff.mp (by omega)
      rw [hx, hnil, List.append_nil]
  rw [hsame] at hs
  exact plainValue_of_feed hr ht hnew hs hm

/-! ## Texts that stand for a value -/

/-- Between double quotes the text is one value, with the reference that it begins in. -/
def attText : Option Str → Str → Bool
  | none, [] => true
  | some _, [] => false
  | none, c :: cs =>
      isChar c && c ≠ '<' && c ≠ '"' && attText (if c = '&' then some [] else none) cs
  | some body, c :: cs =>
      if c = ';' then (refChar body).isSome && attText none cs
      else isRefPrefix (body ++ [c]) && attText (some (body ++ [c])) cs

/-- Legal characters without `<` and double quotes, with references for `&`. -/
def AttText (v : Str) : Prop := attText none v = true

instance (v : Str) : Decidable (AttText v) := inferInstanceAs (Decidable (_ = _))

theorem attText_of_plain {v : Str} (h : PlainValue v) : AttText v := by
  have hall : ∀ c ∈ v, isChar c = true ∧ c ≠ '<' ∧ c ≠ '"' ∧ c ≠ '&' := by
    intro c hc
    obtain ⟨hlt, hamp, hquote, -⟩ := h.markup c hc
    exact ⟨h.legal c hc, hlt, hquote, hamp⟩
  clear h
  unfold AttText
  induction v with
  | nil => rfl
  | cons c v ih =>
      obtain ⟨hlegal, hlt, hquote, hamp⟩ := hall c List.mem_cons_self
      rw [attText, if_neg hamp, ih fun d hd => hall d (List.mem_cons_of_mem c hd)]
      simp [hlegal, hlt, hquote]

theorem visible_of_isRefPrefix {s : Str} (h : isRefPrefix s = true) :
    ∀ c ∈ s, 0x21 ≤ c.toNat ∧ c.toNat ≤ 0x7E := by
  have hdigit : ∀ (base : ℕ) (c : Char), base ≤ 16 → (digit base c).isSome = true →
      0x21 ≤ c.toNat ∧ c.toNat ≤ 0x7E := by
    intro base c hbase hc
    simp only [digit, between, Bool.and_eq_true, decide_eq_true_eq] at hc
    split_ifs at hc <;> first | omega | cases hc
  unfold isRefPrefix at h
  split at h
  next ds =>
    rw [List.all_eq_true] at h
    intro c hc
    simp only [List.mem_cons] at hc
    rcases hc with rfl | rfl | hc
    · decide
    · decide
    · exact hdigit 16 c (Nat.le_refl 16) (h c hc)
  next ds _ =>
    rw [List.all_eq_true] at h
    intro c hc
    rcases List.mem_cons.mp hc with rfl | hc
    · decide
    · exact hdigit 10 c (by omega) (h c hc)
  next =>
    obtain ⟨p, hp, hle⟩ := List.any_eq_true.mp h
    have hall : (predefined.all fun q => q.1.all (between 0x21 0x7E)) = true := by decide
    have hname := List.all_eq_true.mp hall p hp
    intro c hc
    have hvisible := List.all_eq_true.mp hname c ((List.isPrefixOf_iff_prefix.mp hle).subset hc)
    simpa [between] using hvisible

theorem not_mem_of_attText {ref : Option Str} {v : Str} (h : attText ref v = true) : '"' ∉ v := by
  induction v generalizing ref with
  | nil => simp
  | cons c v ih =>
      rw [List.mem_cons, not_or]
      cases ref with
      | none =>
          simp only [attText, Bool.and_eq_true, decide_eq_true_eq] at h
          exact ⟨fun hc => h.1.2 hc.symm, ih h.2⟩
      | some body =>
          rw [attText] at h
          split_ifs at h with hend
          · rw [Bool.and_eq_true] at h
            refine ⟨?_, ih h.2⟩
            rintro rfl
            cases hend
          · rw [Bool.and_eq_true] at h
            refine ⟨?_, ih h.2⟩
            rintro rfl
            rw [not_isRefPrefix (Or.inl rfl) (by simp)] at h
            cases h.1

section Value
variable (t : Tag) (attr : Str)

/-- In a value, or in a reference in it. -/
inductive InValue : Mode → Bool → Option Str → Prop
  | plain (value : Str) (cr : Bool) : InValue (.attrValue t attr '"' value) cr none
  | reference (value body : Str) :
      InValue (.attrReference t attr '"' value body) false (some body)

variable {c : Char}

/-- The reading ends, or goes on in the value, whatever elements are open. -/
theorem value_step_plain (value : Str) (cr : Bool) (hc : c ≠ '"') :
    ((∀ stack seen, (⟨.attrValue t attr '"' value, stack, seen, cr⟩ : Reader).step c = none) ∧
        (isChar c = false ∨ c = '<')) ∨
      ∃ m' cr', (∀ stack seen, (⟨.attrValue t attr '"' value, stack, seen, cr⟩ : Reader).step c =
          some (⟨m', stack, seen, cr'⟩, [])) ∧
        (isChar c = true ∧ c ≠ '<') ∧ InValue t attr m' cr' (if c = '&' then some [] else none) := by
  cases hchar : isChar c with
  | false => exact Or.inl ⟨fun _ _ => by rw [Reader.step, hchar]; rfl, Or.inl rfl⟩
  | true =>
      by_cases hlt : c = '<'
      · subst hlt
        exact Or.inl ⟨fun _ _ => rfl, Or.inr rfl⟩
      · right
        have hlegal : ¬ (!isChar c) = true := by simp [hchar]
        by_cases hline : c = '\n' ∧ cr = true
        · obtain ⟨rfl, rfl⟩ := hline
          exact ⟨_, _, fun _ _ => rfl, ⟨rfl, hlt⟩, .plain value false⟩
        · by_cases hreturn : c = '\r'
          · subst hreturn
            exact ⟨_, _, fun _ _ => rfl, ⟨rfl, hlt⟩, .plain (value ++ [' ']) true⟩
          · have hlex : ∀ stack seen, (⟨.attrValue t attr '"' value, stack, seen, cr⟩ :
                Reader).step c = (⟨.attrValue t attr '"' value, stack, seen, false⟩ :
                  Reader).inAttrValue t attr '"' value c := by
              intro stack seen
              rw [Reader.step, if_neg hlegal, if_neg hline, if_neg hreturn]
              rfl
            simp only [hlex, Reader.inAttrValue, if_neg hc, if_neg hlt]
            by_cases hamp : c = '&'
            · simp only [if_pos hamp]
              exact ⟨_, _, fun _ _ => rfl, ⟨trivial, hlt⟩, .reference value []⟩
            · simp only [if_neg hamp]
              exact ⟨_, _, fun _ _ => rfl, ⟨trivial, hlt⟩, .plain _ false⟩

theorem value_step_reference (value body : Str) :
    ((∀ stack seen,
          (⟨.attrReference t attr '"' value body, stack, seen, false⟩ : Reader).step c = none) ∧
        (if c = ';' then refChar body = none else isRefPrefix (body ++ [c]) = false)) ∨
      ∃ m', (∀ stack seen,
          (⟨.attrReference t attr '"' value body, stack, seen, false⟩ : Reader).step c =
            some (⟨m', stack, seen, false⟩, [])) ∧
        if c = ';' then (refChar body).isSome = true ∧ InValue t attr m' false none
        else isRefPrefix (body ++ [c]) = true ∧ InValue t attr m' false (some (body ++ [c])) := by
  by_cases hvisible : 0x21 ≤ c.toNat ∧ c.toNat ≤ 0x7E
  · obtain ⟨hchar, hreturn⟩ := isChar_of_toNat (c := c) (Or.inl (by omega))
    simp only [step_plain hchar hreturn, Reader.lex, Reader.inReference]
    by_cases hend : c = ';'
    · simp only [if_pos hend]
      cases hd : refChar body with
      | none => exact Or.inl ⟨fun _ _ => rfl, rfl⟩
      | some d => exact Or.inr ⟨_, fun _ _ => rfl, rfl, .plain (value ++ [d]) false⟩
    · simp only [if_neg hend]
      cases hpre : isRefPrefix (body ++ [c]) with
      | false => exact Or.inl ⟨fun _ _ => rfl, rfl⟩
      | true => exact Or.inr ⟨_, fun _ _ => rfl, rfl, .reference value _⟩
  · -- neither the character nor a line feed in its place goes on with the reference
    have hnot : ∀ d : Char, ¬ (0x21 ≤ d.toNat ∧ d.toNat ≤ 0x7E) →
        isRefPrefix (body ++ [d]) = false := by
      intro d hd
      rw [Bool.eq_false_iff]
      exact fun hpre => hd (visible_of_isRefPrefix hpre d (by simp))
    have hend : c ≠ ';' := by
      rintro rfl
      exact hvisible (by decide)
    have hlex : ∀ d : Char, d ≠ ';' → isRefPrefix (body ++ [d]) = false → ∀ stack seen cr,
        (⟨.attrReference t attr '"' value body, stack, seen, cr⟩ : Reader).lex d = none := by
      intro d hd hpre stack seen cr
      simp only [Reader.lex, Reader.inReference, if_neg hd, hpre, Bool.false_eq_true, if_false]
    left
    rw [if_neg hend]
    refine ⟨fun stack seen => ?_, hnot c hvisible⟩
    unfold Reader.step
    split_ifs with h₁ h₂ h₃
    · rfl
    · exact h₂.2.elim
    · exact hlex '\n' (by decide) (hnot '\n' (by decide)) stack seen true
    · exact hlex c hend (hnot c hvisible) stack seen false

variable {t attr}

theorem feed_quiet {r r' : Reader} {c : Char} (h : r.step c = some (r', [])) (cs : Str) :
    r.feed (c :: cs) = r'.feed cs := by
  rw [Reader.feed, h]
  cases hrest : r'.feed cs with
  | none => simp [hrest]
  | some p => simp [hrest]

/-- A text that stands for a value is read as one, whatever elements are open. -/
theorem value_of_attText {m : Mode} {cr : Bool} {ref : Option Str} {v : Str}
    (hm : InValue t attr m cr ref) (hv : attText ref v = true) :
    ∃ w cr', ∀ stack seen, (⟨m, stack, seen, cr⟩ : Reader).feed v =
      some (⟨.attrValue t attr '"' w, stack, seen, cr'⟩, []) := by
  have hquote := not_mem_of_attText hv
  induction v generalizing m cr ref with
  | nil =>
      cases hm with
      | plain value cr => exact ⟨value, cr, fun _ _ => rfl⟩
      | reference value body => cases hv
  | cons c v ih =>
      rw [List.mem_cons, not_or] at hquote
      cases hm with
      | plain value cr =>
          simp only [attText, Bool.and_eq_true, decide_eq_true_eq] at hv
          rcases value_step_plain t attr value cr hv.1.2 with ⟨-, hbad⟩ | ⟨m', cr', hstep, -, hm'⟩
          · rcases hbad with hbad | hbad
            · rw [hbad] at hv
              cases hv.1.1.1
            · exact (hv.1.1.2 hbad).elim
          · obtain ⟨w, cr'', hfeed⟩ := ih hm' hv.2 hquote.2
            exact ⟨w, cr'', fun stack seen =>
              (feed_quiet (hstep stack seen) v).trans (hfeed stack seen)⟩
      | reference value body =>
          rw [attText] at hv
          rcases value_step_reference (c := c) t attr value body with ⟨-, hbad⟩ | ⟨m', hstep, hm'⟩
          · split_ifs at hv hbad
            · rw [hbad] at hv
              cases hv
            · rw [hbad] at hv
              cases hv
          · have hrest : ∃ ref', InValue t attr m' false ref' ∧ attText ref' v = true := by
              split_ifs at hv hm'
              · exact ⟨none, hm'.2, (Bool.and_eq_true_iff.mp hv).2⟩
              · exact ⟨_, hm'.2, (Bool.and_eq_true_iff.mp hv).2⟩
            obtain ⟨ref', hnext, hv'⟩ := hrest
            obtain ⟨w, cr', hfeed⟩ := ih hnext hv' hquote.2
            exact ⟨w, cr', fun stack seen =>
              (feed_quiet (hstep stack seen) v).trans (hfeed stack seen)⟩

/-- Such a text is read up to the quote after it. -/
theorem feed_attText {v : Str} (hv : AttText v) (hnew : attr ∉ t.attrs.map Prod.fst) :
    ∃ w, ∀ stack seen rest,
      (⟨.attrValue t attr '"' [], stack, seen, false⟩ : Reader).feed (v ++ '"' :: rest) =
        (⟨.afterValue ⟨t.name, t.attrs ++ [(attr, w)]⟩, stack, seen, false⟩ : Reader).feed rest := by
  obtain ⟨w, cr, hfeed⟩ := value_of_attText (.plain [] false) hv
  refine ⟨w, fun stack seen rest => ?_⟩
  have hquote : (⟨.attrValue t attr '"' w, stack, seen, cr⟩ : Reader).step '"' =
      some (⟨.afterValue ⟨t.name, t.attrs ++ [(attr, w)]⟩, stack, seen, false⟩, []) := by
    have hchar : isChar '"' = true := rfl
    rw [Reader.step, if_neg (by simp [hchar]), if_neg (by simp), if_neg (by simp)]
    simp only [Reader.lex, Reader.inAttrValue, if_pos, if_neg hnew]
    rfl
  rw [feed_append _ (hfeed stack seen), feed_quiet hquote]
  simp

/-- Without a quote the value does not end, and its text decides whether it ends well. -/
theorem attText_of_value {m : Mode} {cr : Bool} {ref : Option Str} {stack : List Str} {seen : Bool}
    {s : Reader} {v : Str} {ts : List Token} (hm : InValue t attr m cr ref) (hquote : '"' ∉ v)
    (h : (⟨m, stack, seen, cr⟩ : Reader).feed v = some (s, ts)) :
    ∃ ref', InValue t attr s.mode s.cr ref' ∧ (ref' = none → attText ref v = true) := by
  induction v generalizing m cr ref ts with
  | nil =>
      cases h
      cases hm with
      | plain value cr => exact ⟨none, .plain value cr, fun _ => rfl⟩
      | reference value body =>
          refine ⟨_, .reference value body, fun hnone => ?_⟩
          cases hnone
  | cons c v ih =>
      rw [List.mem_cons, not_or] at hquote
      obtain ⟨r₁, us, vs, hone, hrest, rfl⟩ := feed_cons_eq_some h
      cases hm with
      | plain value cr =>
          rcases value_step_plain t attr value cr fun h => hquote.1 h.symm with
            ⟨hnone, -⟩ | ⟨m', cr', hstep, ⟨hchar, hlt⟩, hm'⟩
          · rw [hnone] at hone
            cases hone
          · rw [hstep] at hone
            cases hone
            obtain ⟨ref', hs, hv⟩ := ih hm' hquote.2 hrest
            refine ⟨ref', hs, fun hnone => ?_⟩
            have hne : c ≠ '"' := fun h => hquote.1 h.symm
            rw [attText, hv hnone, hchar]
            simp [hlt, hne]
      | reference value body =>
          rcases value_step_reference (c := c) t attr value body with
            ⟨hnone, -⟩ | ⟨m', hstep, hm'⟩
          · rw [hnone] at hone
            cases hone
          · rw [hstep] at hone
            cases hone
            split_ifs at hm' with hend
            · obtain ⟨ref', hs, hv⟩ := ih hm'.2 hquote.2 hrest
              refine ⟨ref', hs, fun hnone => ?_⟩
              rw [attText, if_pos hend, hm'.1, hv hnone]
              rfl
            · obtain ⟨ref', hs, hv⟩ := ih hm'.2 hquote.2 hrest
              refine ⟨ref', hs, fun hnone => ?_⟩
              rw [attText, if_neg hend, hm'.1, hv hnone]
              rfl

/-- A text without quotes that is read up to the quote after it stands for a value. -/
theorem attText_of_feed {v rest : Str} {stack : List Str} {seen : Bool} {u : Reader}
    {ts : List Token} (hquote : '"' ∉ v)
    (h : (⟨.attrValue t attr '"' [], stack, seen, false⟩ : Reader).feed (v ++ '"' :: rest) =
      some (u, ts)) : AttText v := by
  obtain ⟨⟨mode, stack', seen', cr⟩, us, vs, hfeed, hrest, -⟩ := feed_of_feed_append h
  obtain ⟨ref, hs, hv⟩ := attText_of_value (.plain [] false) hquote hfeed
  cases hs with
  | plain w cr => exact hv rfl
  | reference value body =>
      obtain ⟨_, _, _, hone, -⟩ := feed_cons_eq_some hrest
      have hpre : isRefPrefix (body ++ ['"']) = false := not_isRefPrefix (Or.inl rfl) (by simp)
      rcases value_step_reference (c := '"') t attr value body with
        ⟨hnone, -⟩ | ⟨m', -, hm'⟩
      · rw [hnone] at hone
        cases hone
      · rw [if_neg (by decide), hpre] at hm'
        cases hm'.1

end Value

end Stabber.XmlAttributes
