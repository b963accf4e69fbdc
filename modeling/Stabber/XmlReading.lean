import Stabber.XmlReader
import Mathlib.Data.List.Infix

/-!
# Reading what a plain writer produces

The pieces of an element whose names, attribute values and text need no
escaping: each lemma says where the reader stands after the piece and which
tokens it has returned. None of them mentions how the pieces were produced.
-/

namespace Stabber.XmlReading
open XmlDocument XmlReader

/-- Text that stands for itself between two tags. -/
structure PlainText (s : Str) : Prop where
  legal : ∀ c ∈ s, isChar c = true
  markup : ∀ c ∈ s, c ≠ '<' ∧ c ≠ '&' ∧ c ≠ '\r'
  brackets : ¬ "]]>".toList <:+: s

/-- An attribute value that stands for itself between double quotes. -/
structure PlainValue (s : Str) : Prop where
  legal : ∀ c ∈ s, isChar c = true
  markup : ∀ c ∈ s, c ≠ '<' ∧ c ≠ '&' ∧ c ≠ '"' ∧ c ≠ '\t' ∧ c ≠ '\n' ∧ c ≠ '\r'

instance (s : Str) : Decidable (PlainText s) :=
  decidable_of_iff
    (s.all (fun c => isChar c && (c ≠ '<' && c ≠ '&' && c ≠ '\r')) = true ∧ ¬ "]]>".toList <:+: s) (by
      rw [List.all_eq_true]
      simp only [Bool.and_eq_true, decide_eq_true_eq]
      exact ⟨fun h => ⟨fun c hc => (h.1 c hc).1, fun c hc => by simpa [and_assoc] using (h.1 c hc).2,
        h.2⟩, fun h => ⟨fun c hc => ⟨h.legal c hc, by simpa [and_assoc] using h.markup c hc⟩,
        h.brackets⟩⟩)

instance (s : Str) : Decidable (PlainValue s) :=
  decidable_of_iff
    (s.all (fun c => isChar c && (c ≠ '<' && c ≠ '&' && c ≠ '"' && c ≠ '\t' && c ≠ '\n' &&
      c ≠ '\r')) = true) (by
      rw [List.all_eq_true]
      simp only [Bool.and_eq_true, decide_eq_true_eq]
      exact ⟨fun h => ⟨fun c hc => (h c hc).1, fun c hc => by simpa [and_assoc] using (h c hc).2⟩,
        fun h c hc => ⟨h.legal c hc, by simpa [and_assoc] using h.markup c hc⟩⟩)

/-! ## Name characters -/

theorem isChar_of_toNat {c : Char} (h : 0x20 ≤ c.toNat ∧ c.toNat ≤ 0xFFFD ∨ 0x10000 ≤ c.toNat) :
    isChar c = true ∧ c ≠ '\r' := by
  have hmax : c.toNat < 0x110000 := by
    have := c.valid
    rcases this with this | this <;> simp only [Char.toNat] <;> omega
  constructor
  · simp only [isChar, between, Bool.or_eq_true, Bool.and_eq_true, decide_eq_true_eq]
    omega
  · rintro rfl
    revert h
    decide

theorem isChar_of_inRanges {rs : List (ℕ × ℕ)} (hrs : ∀ r ∈ rs, r.2 ≤ 0xFFFD) {c : Char}
    (h : inRanges rs c = true) : isChar c = true ∧ c ≠ '\r' := by
  simp only [inRanges, Bool.and_eq_true, decide_eq_true_eq, List.any_eq_true, between] at h
  obtain ⟨hlow, r, hr, -, hhigh⟩ := h
  have hmax := hrs r hr
  exact isChar_of_toNat (Or.inl (by omega))

theorem isNameStart_isChar {c : Char} (h : isNameStart c = true) :
    isChar c = true ∧ c ≠ '\r' := by
  have hletters : ∀ r ∈ letterRanges, r.2 ≤ 0xFFFD := by decide +kernel
  simp only [isNameStart, between, Bool.or_eq_true, Bool.and_eq_true, decide_eq_true_eq,
    or_assoc] at h
  rcases h with rfl | h | rfl | h | h
  · decide
  · exact isChar_of_toNat (by omega)
  · decide
  · exact isChar_of_toNat (by omega)
  · exact isChar_of_inRanges hletters h

theorem isNameChar_isChar {c : Char} (h : isNameChar c = true) : isChar c = true ∧ c ≠ '\r' := by
  have hcombining : ∀ r ∈ combiningRanges, r.2 ≤ 0xFFFD := by decide +kernel
  simp only [isNameChar, between, Bool.or_eq_true, Bool.and_eq_true, decide_eq_true_eq,
    or_assoc] at h
  rcases h with h | rfl | rfl | h | h
  · exact isNameStart_isChar h
  · decide
  · decide
  · exact isChar_of_toNat (by omega)
  · exact isChar_of_inRanges hcombining h

variable {m : Mode} {st : List Str} {seen : Bool}

theorem step_plain {c : Char} (hc : isChar c = true) (hr : c ≠ '\r') :
    (⟨m, st, seen, false⟩ : Reader).step c = (⟨m, st, seen, false⟩ : Reader).lex c := by
  simp [Reader.step, hc, hr]

theorem feed_cons_of_lex {c : Char} {st' : List Str} {seen' : Bool} (m' : Mode)
    (ts : List Token) (cs : Str) (hc : isChar c = true) (hr : c ≠ '\r')
    (h : (⟨m, st, seen, false⟩ : Reader).lex c = some (⟨m', st', seen', false⟩, ts)) :
    (⟨m, st, seen, false⟩ : Reader).feed (c :: cs) =
      ((⟨m', st', seen', false⟩ : Reader).feed cs).map fun p => (p.1, ts ++ p.2) := by
  simp only [Reader.feed, step_plain hc hr, h, Option.bind_eq_bind, Option.bind_some]
  cases (⟨m', st', seen', false⟩ : Reader).feed cs <;> rfl

theorem feed_go {c : Char} (m' : Mode) (cs : Str) (hc : isChar c = true) (hr : c ≠ '\r')
    (h : (⟨m, st, seen, false⟩ : Reader).lex c = (⟨m, st, seen, false⟩ : Reader).go m') :
    (⟨m, st, seen, false⟩ : Reader).feed (c :: cs) =
      (⟨m', st, seen, false⟩ : Reader).feed cs := by
  rw [feed_cons_of_lex m' [] cs hc hr h]
  cases (⟨m', st, seen, false⟩ : Reader).feed cs <;> rfl

theorem feed_startName (acc cs rest : Str) (h : ∀ c ∈ cs, isNameChar c = true) :
    (⟨.startName acc, st, seen, false⟩ : Reader).feed (cs ++ rest) =
      (⟨.startName (acc ++ cs), st, seen, false⟩ : Reader).feed rest := by
  induction cs generalizing acc with
  | nil => simp
  | cons c cs ih =>
      have hc := h c List.mem_cons_self
      obtain ⟨hl, hr⟩ := isNameChar_isChar hc
      rw [List.cons_append, feed_go (.startName (acc ++ [c])) _ hl hr,
        ih _ fun d hd => h d (List.mem_cons_of_mem c hd)]
      · simp
      · simp [Reader.lex, hc, Reader.go]

theorem feed_attrName (t : Tag) (acc cs rest : Str) (h : ∀ c ∈ cs, isNameChar c = true) :
    (⟨.attrName t acc, st, seen, false⟩ : Reader).feed (cs ++ rest) =
      (⟨.attrName t (acc ++ cs), st, seen, false⟩ : Reader).feed rest := by
  induction cs generalizing acc with
  | nil => simp
  | cons c cs ih =>
      have hc := h c List.mem_cons_self
      obtain ⟨hl, hr⟩ := isNameChar_isChar hc
      rw [List.cons_append, feed_go (.attrName t (acc ++ [c])) _ hl hr,
        ih _ fun d hd => h d (List.mem_cons_of_mem c hd)]
      · simp
      · simp [Reader.lex, Reader.inAttrName, hc, Reader.go]

theorem feed_endName (acc cs rest : Str) (ha : acc ≠ []) (h : ∀ c ∈ cs, isNameChar c = true) :
    (⟨.endName acc, st, seen, false⟩ : Reader).feed (cs ++ rest) =
      (⟨.endName (acc ++ cs), st, seen, false⟩ : Reader).feed rest := by
  induction cs generalizing acc with
  | nil => simp
  | cons c cs ih =>
      have hc := h c List.mem_cons_self
      obtain ⟨hl, hr⟩ := isNameChar_isChar hc
      rw [List.cons_append, feed_go (.endName (acc ++ [c])) _ hl hr,
        ih _ (by simp) fun d hd => h d (List.mem_cons_of_mem c hd)]
      · simp
      · simp [Reader.lex, hc, ha, Reader.go]

/-! ## Start tags -/

theorem feed_open {n : Str} (rest : Str) (first : Bool) (hn : isName n = true)
    (hs : st = [] → seen = false) :
    (⟨.opened first, st, seen, false⟩ : Reader).feed (n ++ rest) =
      (⟨.startName n, st, seen, false⟩ : Reader).feed rest := by
  cases n with
  | nil => simp [isName] at hn
  | cons c cs =>
      simp only [isName, Bool.and_eq_true, List.all_eq_true] at hn
      obtain ⟨hl, hr⟩ := isNameStart_isChar hn.1
      have hne : c ≠ '/' ∧ c ≠ '!' ∧ c ≠ '?' := by
        refine ⟨?_, ?_, ?_⟩ <;> rintro rfl <;> exact absurd hn.1 (by decide)
      rw [List.cons_append, feed_go (.startName [c]) _ hl hr,
        feed_startName _ _ _ hn.2]
      · rfl
      · have hroot : ¬ (st = [] ∧ seen = true) := by
          rintro ⟨h₁, h₂⟩
          simp [hs h₁] at h₂
        simp [Reader.lex, Reader.inMarkup, hne, hn.1, hroot, Reader.go]

/-- A name that has been read completely is as good as a last attribute value. -/
theorem feed_afterName {n : Str} {c : Char} (cs : Str) (hc : isNameChar c = false) :
    (⟨.startName n, st, seen, false⟩ : Reader).feed (c :: cs) =
      (⟨.afterValue ⟨n, []⟩, st, seen, false⟩ : Reader).feed (c :: cs) := by
  have h : (⟨.startName n, st, seen, false⟩ : Reader).step c =
      (⟨.afterValue ⟨n, []⟩, st, seen, false⟩ : Reader).step c := by
    by_cases h₁ : isChar c = true
    · by_cases h₂ : c = '\r'
      · subst h₂
        rfl
      · rw [step_plain h₁ h₂, step_plain h₁ h₂]
        simp [Reader.lex, hc, Reader.tagEnd, Reader.go, Reader.startTag]
    · simp [Reader.step, h₁]
  simp only [Reader.feed, h]

theorem feed_value (t : Tag) (attr acc v rest : Str) (hv : PlainValue v) :
    (⟨.attrValue t attr '"' acc, st, seen, false⟩ : Reader).feed (v ++ rest) =
      (⟨.attrValue t attr '"' (acc ++ v), st, seen, false⟩ : Reader).feed rest := by
  induction v generalizing acc with
  | nil => simp
  | cons c cs ih =>
      obtain ⟨h₁, h₂, h₃, h₄, h₅, h₆⟩ := hv.markup c List.mem_cons_self
      have htail : PlainValue cs :=
        ⟨fun d hd => hv.legal d (List.mem_cons_of_mem c hd),
          fun d hd => hv.markup d (List.mem_cons_of_mem c hd)⟩
      have hlegal := hv.legal c List.mem_cons_self
      rw [List.cons_append, feed_go (.attrValue t attr '"' (acc ++ [c])) _ hlegal h₆, ih _ htail]
      · simp
      · have hspace : (if isSpace c then ' ' else c) = c := by
          by_cases h : c = ' ' <;> simp [isSpace, h, h₄, h₅]
        simp [Reader.lex, Reader.inAttrValue, h₁, h₂, h₃, hspace, Reader.go]

/-- An attribute up to the quote that opens its value. -/
theorem feed_attrOpen {t : Tag} {attr : Str} (rest : Str) (ha : isName attr = true) :
    (⟨.afterValue t, st, seen, false⟩ : Reader).feed
        (" ".toList ++ attr ++ "=\"".toList ++ rest) =
      (⟨.attrValue t attr '"' [], st, seen, false⟩ : Reader).feed rest := by
  cases attr with
  | nil => simp [isName] at ha
  | cons c cs =>
      simp only [isName, Bool.and_eq_true, List.all_eq_true] at ha
      obtain ⟨hl, hr⟩ := isNameStart_isChar ha.1
      have hshape : " ".toList ++ (c :: cs) ++ "=\"".toList ++ rest =
          ' ' :: c :: (cs ++ '=' :: '"' :: rest) := by simp
      rw [hshape, feed_go (.inTag t) _ (by decide) (by decide) rfl,
        feed_go (.attrName t [c]) _ hl hr, feed_attrName _ _ _ _ ha.2,
        feed_go (.attrQuote t (c :: cs)) _ (by decide) (by decide) rfl,
        feed_go (.attrValue t (c :: cs) '"' []) _ (by decide) (by decide) rfl]
      simp [Reader.lex, Reader.inTag, ha.1, Reader.go]

theorem feed_attr {t : Tag} {attr v : Str} (rest : Str) (ha : isName attr = true)
    (hv : PlainValue v) (hnew : attr ∉ t.attrs.map Prod.fst) :
    (⟨.afterValue t, st, seen, false⟩ : Reader).feed
        (" ".toList ++ attr ++ "=\"".toList ++ v ++ "\"".toList ++ rest) =
      (⟨.afterValue ⟨t.name, t.attrs ++ [(attr, v)]⟩, st, seen, false⟩ : Reader).feed rest := by
  have hshape : " ".toList ++ attr ++ "=\"".toList ++ v ++ "\"".toList ++ rest =
      " ".toList ++ attr ++ "=\"".toList ++ (v ++ '"' :: rest) := by simp
  rw [hshape, feed_attrOpen _ ha, feed_value _ _ _ _ _ hv, List.nil_append,
    feed_go (.afterValue ⟨t.name, t.attrs ++ [(attr, v)]⟩) _ (by decide) (by decide)]
  simp [Reader.lex, Reader.inAttrValue, hnew, Reader.go]

theorem feed_startTag (t : Tag) (rest : Str) :
    (⟨.afterValue t, st, seen, false⟩ : Reader).feed ('>' :: rest) =
      ((⟨.content 0, t.name :: st, true, false⟩ : Reader).feed rest).map
        fun p => (p.1, [.start t.name t.attrs] ++ p.2) :=
  feed_cons_of_lex _ _ _ (by decide) (by decide) rfl

theorem feed_emptyElement (t : Tag) (rest : Str) :
    (⟨.afterValue t, st, seen, false⟩ : Reader).feed ("/>".toList ++ rest) =
      ((⟨home st, st, true, false⟩ : Reader).feed rest).map
        fun p => (p.1, [.start t.name t.attrs, .stop t.name] ++ p.2) := by
  rw [show "/>".toList ++ rest = '/' :: '>' :: rest from rfl,
    feed_go (.emptyTag t) _ (by decide) (by decide) rfl]
  exact feed_cons_of_lex _ _ _ (by decide) (by decide) rfl

/-! ## Content and end tags -/

/-- Brackets that have been read, put back in front of the rest of the text,
contain `]]>` only if the whole text does. -/
theorem brackets_step {k : ℕ} {c : Char} {cs : Str} (hk : k ≤ 2)
    (h : ¬ "]]>".toList <:+: List.replicate k ']' ++ c :: cs) :
    ¬ "]]>".toList <:+: List.replicate (if c = ']' then min 2 (k + 1) else 0) ']' ++ cs := by
  intro hin
  apply h
  refine hin.trans (List.IsSuffix.isInfix ?_)
  by_cases hc : c = ']'
  · subst hc
    have hsplit : List.replicate k ']' ++ ']' :: cs = List.replicate (k + 1) ']' ++ cs := by
      rw [List.replicate_succ', List.append_assoc, List.singleton_append]
    rw [if_pos rfl, hsplit]
    refine ⟨List.replicate (k + 1 - min 2 (k + 1)) ']', ?_⟩
    rw [← List.append_assoc, List.replicate_append_replicate]
    congr 2
    omega
  · rw [if_neg hc]
    exact ⟨List.replicate k ']' ++ [c], by simp⟩

theorem feed_text_from {k : ℕ} (s : Str) (hk : k ≤ 2) (legal : ∀ c ∈ s, isChar c = true)
    (markup : ∀ c ∈ s, c ≠ '<' ∧ c ≠ '&' ∧ c ≠ '\r')
    (brackets : ¬ "]]>".toList <:+: List.replicate k ']' ++ s) :
    ∃ k' ≤ 2, (⟨.content k, st, seen, false⟩ : Reader).feed s =
      some (⟨.content k', st, seen, false⟩, s.map .char) := by
  induction s generalizing k with
  | nil => exact ⟨k, hk, rfl⟩
  | cons c cs ih =>
      obtain ⟨h₁, h₂, h₃⟩ := markup c List.mem_cons_self
      have hclose : ¬ (c = '>' ∧ 2 ≤ k) := by
        rintro ⟨rfl, h⟩
        obtain rfl : k = 2 := by omega
        exact brackets ⟨[], cs, rfl⟩
      obtain ⟨k', hk', hfeed⟩ := ih (k := if c = ']' then min 2 (k + 1) else 0)
        (by split_ifs <;> omega) (fun d hd => legal d (List.mem_cons_of_mem c hd))
        (fun d hd => markup d (List.mem_cons_of_mem c hd)) (brackets_step hk brackets)
      refine ⟨k', hk', ?_⟩
      rw [feed_cons_of_lex (.content (if c = ']' then min 2 (k + 1) else 0)) [.char c] cs
        (legal c List.mem_cons_self) h₃, hfeed]
      · rfl
      · simp [Reader.lex, Reader.inContent, h₁, h₂, hclose, Reader.emit]

theorem feed_text {s : Str} (st : List Str) (seen : Bool) (hs : PlainText s) :
    ∃ k, (⟨.content 0, st, seen, false⟩ : Reader).feed s =
      some (⟨.content k, st, seen, false⟩, s.map .char) := by
  obtain ⟨k, _, h⟩ := feed_text_from (k := 0) s (by omega) hs.legal hs.markup
    (by simpa using hs.brackets)
  exact ⟨k, h⟩

theorem feed_endTag {k : ℕ} {n : Str} (rest : Str) (hn : isName n = true) :
    (⟨.content k, n :: st, seen, false⟩ : Reader).feed ("</".toList ++ n ++ ">".toList ++ rest) =
      ((⟨home st, st, seen, false⟩ : Reader).feed rest).map fun p => (p.1, [.stop n] ++ p.2) := by
  cases n with
  | nil => simp [isName] at hn
  | cons c cs =>
      simp only [isName, Bool.and_eq_true, List.all_eq_true] at hn
      obtain ⟨hl, hr⟩ := isNameStart_isChar hn.1
      have hshape : "</".toList ++ (c :: cs) ++ ">".toList ++ rest =
          '<' :: '/' :: c :: (cs ++ '>' :: rest) := by simp
      rw [hshape, feed_go (.opened false) _ (by decide) (by decide) rfl,
        feed_go (.endName []) _ (by decide) (by decide) rfl,
        feed_go (.endName [c]) _ hl hr, feed_endName _ _ _ (by simp) hn.2]
      · have h₁ : isNameStart '>' = false := by decide
        have h₂ : isNameChar '>' = false := by decide
        refine @feed_cons_of_lex (.endName (c :: cs)) ((c :: cs) :: st) seen '>' st seen (home st)
          [.stop (c :: cs)] _ (by decide) (by decide) ?_
        simp [Reader.lex, Reader.endTag, h₁, h₂]
      · simp [Reader.lex, hn.1, Reader.go]

end Stabber.XmlReading
