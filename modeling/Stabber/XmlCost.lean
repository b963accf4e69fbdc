import Stabber.XmlReading
import Mathlib.Data.Nat.Notation

/-!
# What a document costs in characters

Every token needs a certain amount of text, and a text that has no more than what
its tokens need is a plain one: it uses no reference, comment, CDATA section,
processing instruction or spare white space. An apostrophe weighs two, so that
single quotes are never the cheapest.
-/

namespace Stabber.XmlCost
open XmlDocument XmlReader XmlReading

def weight (c : Char) : ℕ := if c = '\'' then 2 else 1

def textWeight (s : Str) : ℕ := (s.map weight).sum

theorem weight_pos (c : Char) : 1 ≤ weight c := by
  unfold weight
  split_ifs <;> omega

theorem weight_le (c : Char) : weight c ≤ 2 := by
  unfold weight
  split_ifs <;> omega

@[simp] theorem weight_space : weight ' ' = 1 := rfl

@[simp] theorem textWeight_nil : textWeight [] = 0 := rfl

@[simp] theorem textWeight_cons (c : Char) (s : Str) :
    textWeight (c :: s) = weight c + textWeight s := rfl

@[simp] theorem textWeight_append (s t : Str) :
    textWeight (s ++ t) = textWeight s + textWeight t := by
  simp [textWeight]

def attrsCost (as : List (Str × Str)) : ℕ :=
  (as.map fun a => textWeight a.1 + textWeight a.2 + 4).sum

@[simp] theorem attrsCost_nil : attrsCost [] = 0 := rfl

@[simp] theorem attrsCost_cons (a : Str × Str) (as : List (Str × Str)) :
    attrsCost (a :: as) = textWeight a.1 + textWeight a.2 + 4 + attrsCost as := rfl

@[simp] theorem attrsCost_append (as bs : List (Str × Str)) :
    attrsCost (as ++ bs) = attrsCost as + attrsCost bs := by
  simp [attrsCost]

/-- The least weight of a text with these tokens. An end right after a start can be
the `/` of an empty-element tag. -/
def cost (afterStart : Bool) : List Token → ℕ
  | [] => 0
  | .start n as :: ts => 2 + textWeight n + attrsCost as + cost true ts
  | .stop n :: ts => (if afterStart then 1 else 3 + textWeight n) + cost false ts
  | .char c :: ts => weight c + cost false ts

theorem cost_le_false (f : Bool) (ts : List Token) : cost f ts ≤ cost false ts := by
  cases ts with
  | nil => exact Nat.le_refl 0
  | cons t ts =>
      cases t with
      | start n as => exact Nat.le_refl _
      | char c => exact Nat.le_refl _
      | stop n =>
          cases f with
          | false => exact Nat.le_refl _
          | true =>
              simp only [cost, if_true, Bool.false_eq_true, if_false]
              omega

theorem cost_append_le (f : Bool) (ts us : List Token) :
    cost f (ts ++ us) ≤ cost f ts + cost false us := by
  induction ts generalizing f with
  | nil => simpa [cost] using cost_le_false f us
  | cons t ts ih =>
      cases t with
      | start n as =>
          have := ih true
          simp only [List.cons_append, cost]
          omega
      | stop n =>
          have := ih false
          simp only [List.cons_append, cost]
          omega
      | char c =>
          have := ih false
          simp only [List.cons_append, cost]
          omega

/-- Text that stands for itself, after this many closing brackets. -/
def PlainTokens : ℕ → List Token → Prop
  | _, [] => True
  | _, .start _ as :: ts => (∀ a ∈ as, PlainValue a.2) ∧ PlainTokens 0 ts
  | _, .stop _ :: ts => PlainTokens 0 ts
  | k, .char c :: ts => isChar c = true ∧ (c ≠ '<' ∧ c ≠ '&' ∧ c ≠ '\r') ∧
      ¬ (c = '>' ∧ 2 ≤ k) ∧ PlainTokens (if c = ']' then min 2 (k + 1) else 0) ts

/-! ## The reader's credit -/

def tagCost (t : Tag) : ℕ := 1 + textWeight t.name + attrsCost t.attrs

/-- What a mode has read, at least, and not yet returned. -/
def credit : Mode → ℕ
  | .outside _ => 0
  | .content _ => 0
  | .reference body => min 1 body.length
  | .opened _ => 1
  | .bang _ => 0
  | .comment _ => 0
  | .cdata brackets => brackets
  | .target _ _ => 0
  | .targetEnd _ => 0
  | .instruction _ _ _ => 0
  | .startName name => 1 + textWeight name
  | .inTag t => tagCost t + 1
  | .attrName t attr => tagCost t + 1 + textWeight attr
  | .attrEq t attr => tagCost t + 1 + textWeight attr
  | .attrQuote t attr => tagCost t + 2 + textWeight attr
  | .attrValue t attr _ value => tagCost t + 3 + textWeight attr + textWeight value
  | .attrReference t attr _ value body =>
      tagCost t + 3 + textWeight attr + textWeight value + min 1 body.length
  | .afterValue t => tagCost t
  | .emptyTag t => tagCost t + 1
  | .endName name => 2 + textWeight name
  | .endTag name => 2 + textWeight name

def TidyTag (t : Tag) : Prop := ∀ a ∈ t.attrs, PlainValue a.2

/-- The modes that a text without spare characters goes through. -/
def Tidy : Mode → Prop
  | .outside _ => True
  | .content _ => True
  | .opened _ => True
  | .startName _ => True
  | .endName _ => True
  | .inTag t => TidyTag t
  | .attrName t _ => TidyTag t
  | .attrQuote t _ => TidyTag t
  | .attrValue t _ quote value => TidyTag t ∧ quote = '"' ∧ PlainValue value
  | .afterValue t => TidyTag t
  | .emptyTag t => TidyTag t
  | _ => False

/-- The closing brackets before the next character, where they count. -/
def brackets : Mode → ℕ → ℕ
  | .content k, _ => k
  | _, k => k

/-- The character pays for what the step adds, and where nothing is spare the text
stays plain. -/
def Accounted (m : Mode) (c : Char) (result : Result) : Prop :=
  ∀ r ts, result = some (r, ts) →
    cost false ts + credit r.mode ≤ credit m + weight c ∧
    (credit m + weight c ≤ cost false ts + credit r.mode → Tidy m →
      Tidy r.mode ∧ ∀ us, (∀ k, PlainTokens (brackets r.mode k) us) →
        ∀ k, PlainTokens (brackets m k) (ts ++ us))

theorem accounted_none (m : Mode) (c : Char) : Accounted m c none := by
  intro r ts h
  cases h

/-- A step that wastes something. -/
theorem accounted_spare {m : Mode} {c : Char} {r : Reader} {ts : List Token}
    (h : cost false ts + credit r.mode < credit m + weight c) :
    Accounted m c (some (r, ts)) := by
  intro r' ts' heq
  cases heq
  refine ⟨Nat.le_of_lt h, ?_⟩
  intro hge
  omega

theorem accounted_go_spare {m m' : Mode} {c : Char} (r : Reader)
    (h : credit m' < credit m + weight c) : Accounted m c (r.go m') :=
  accounted_spare (by simpa [cost] using h)

/-- A step within a tag, which returns nothing. -/
theorem accounted_go {m m' : Mode} {c : Char} (r : Reader)
    (h : credit m' ≤ credit m + weight c) (ht : Tidy m → Tidy m')
    (hb : ∀ k, brackets m' k = k) : Accounted m c (r.go m') := by
  intro r' ts heq
  cases heq
  refine ⟨by simpa [cost] using h, ?_⟩
  intro _ hm
  refine ⟨ht hm, ?_⟩
  intro us hus k
  have hk := hus (brackets m k)
  rw [hb] at hk
  exact hk

section Lex
variable (r : Reader) {c : Char}

theorem accounted_tagEnd {m : Mode} {t : Tag} (hcredit : tagCost t ≤ credit m)
    (ht : Tidy m → TidyTag t) (hb : ∀ k, brackets m k = k) : Accounted m c (r.tagEnd t c) := by
  have hpos := weight_pos c
  unfold Reader.tagEnd
  split_ifs with h₁ h₂ h₃
  · apply accounted_go r _ ht fun _ => rfl
    change tagCost t + 1 ≤ credit m + weight c
    omega
  · intro r' ts heq
    cases heq
    refine ⟨?_, ?_⟩
    · change 2 + textWeight t.name + attrsCost t.attrs + 0 + 0 ≤ credit m + weight c
      unfold tagCost at hcredit
      omega
    · intro _ hm
      refine ⟨trivial, ?_⟩
      intro us hus k
      rw [hb]
      exact ⟨ht hm, hus 0⟩
  · apply accounted_go r _ ht fun _ => rfl
    change tagCost t + 1 ≤ credit m + weight c
    omega
  · exact accounted_none m c

theorem accounted_inContent (k : ℕ) (hc : isChar c = true) (hr : c ≠ '\r') :
    Accounted (.content k) c (r.inContent k c) := by
  have hpos := weight_pos c
  unfold Reader.inContent
  by_cases h₁ : c = '<'
  · rw [if_pos h₁]
    intro r' ts heq
    cases heq
    refine ⟨by simp only [cost, credit]; omega, ?_⟩
    intro _ _
    exact ⟨trivial, fun us hus _ => hus k⟩
  · rw [if_neg h₁]
    by_cases h₂ : c = '&'
    · rw [if_pos h₂]
      exact accounted_go_spare r (by simp only [credit, List.length_nil]; omega)
    · rw [if_neg h₂]
      by_cases h₃ : c = '>' ∧ 2 ≤ k
      · rw [if_pos h₃]
        exact accounted_none _ c
      · rw [if_neg h₃]
        intro r' ts heq
        cases heq
        refine ⟨by simp only [cost, credit]; omega, ?_⟩
        intro _ _
        refine ⟨trivial, ?_⟩
        intro us hus _
        exact ⟨hc, ⟨h₁, h₂, hr⟩, h₃, hus 0⟩

theorem accounted_inMarkup (first : Bool) : Accounted (.opened first) c (r.inMarkup first c) := by
  have hpos := weight_pos c
  unfold Reader.inMarkup
  split_ifs
  · exact accounted_none _ c
  · exact accounted_go r (by simp only [credit, textWeight_nil]; omega) (fun _ => trivial)
      fun _ => rfl
  · exact accounted_go_spare r (by simp only [credit]; omega)
  · exact accounted_go_spare r (by simp only [credit]; omega)
  · exact accounted_none _ c
  · exact accounted_go r (by simp only [credit, textWeight_cons, textWeight_nil]; omega)
      (fun _ => trivial) fun _ => rfl
  · exact accounted_none _ c

theorem accounted_inBang (seen : Str) : Accounted (.bang seen) c (r.inBang seen c) := by
  have hpos := weight_pos c
  unfold Reader.inBang
  dsimp only
  split_ifs
  · exact accounted_go_spare r (by simp only [credit]; omega)
  · exact accounted_go_spare r (by simp only [credit]; omega)
  · exact accounted_none _ c
  · exact accounted_go_spare r (by simp only [credit]; omega)
  · exact accounted_go_spare r (by simp only [credit]; omega)
  · exact accounted_none _ c

theorem cost_brackets (n : ℕ) (ts : List Token) :
    cost false (List.replicate n (.char ']') ++ ts) = n + cost false ts := by
  induction n with
  | zero => simp
  | succ n ih =>
      rw [List.replicate_succ, List.cons_append, cost, ih]
      change 1 + (n + cost false ts) = _
      omega

/-- Outside the tidy modes only the balance matters. -/
theorem accounted_untidy {m : Mode} {result : Result} (hm : ¬ Tidy m)
    (h : ∀ r ts, result = some (r, ts) → cost false ts + credit r.mode ≤ credit m + weight c) :
    Accounted m c result := by
  intro r ts heq
  exact ⟨h r ts heq, fun _ ht => (hm ht).elim⟩

theorem accounted_inCdata (k : ℕ) : Accounted (.cdata k) c (r.inCdata k c) := by
  have hpos := weight_pos c
  refine accounted_untidy (m := .cdata k) (fun h => h) ?_
  intro r' ts h
  unfold Reader.inCdata at h
  split_ifs at h with h₁ h₂ h₃
  · cases h
    simp only [cost, credit]
    omega
  · cases h
    change 1 + 2 ≤ k + weight c
    omega
  · cases h
    simp only [cost, credit]
    omega
  · cases h
    rw [cost_brackets]
    simp only [cost, credit]
    omega

theorem accounted_inTarget (first : Bool) (name : Str) :
    Accounted (.target first name) c (r.inTarget first name c) := by
  have hpos := weight_pos c
  refine accounted_untidy (m := .target first name) (fun h => h) ?_
  intro r' ts h
  have hzero : cost false ts + credit r'.mode = 0 := by
    unfold Reader.inTarget at h
    split_ifs at h <;> try split at h
    all_goals cases h
    all_goals rfl
  omega

theorem credit_home (stack : List Str) : credit (home stack) = 0 := by
  unfold home
  split_ifs <;> rfl

theorem tidy_home (stack : List Str) : Tidy (home stack) := by
  unfold home
  split_ifs <;> exact trivial

theorem brackets_home (stack : List Str) : brackets (home stack) 0 = 0 := by
  unfold home
  split_ifs <;> rfl

theorem accounted_inInstruction (decl : Bool) (body : Str) (question : Bool) :
    Accounted (.instruction decl body question) c (r.inInstruction decl body question c) := by
  refine accounted_untidy (m := .instruction decl body question) (fun h => h) ?_
  intro r' ts h
  have hzero : cost false ts + credit r'.mode = 0 := by
    unfold Reader.inInstruction at h
    dsimp only at h
    split_ifs at h
    all_goals cases h
    all_goals first | rfl | exact (Nat.zero_add _).trans (credit_home r.stack)
  omega

theorem accounted_endTag {m : Mode} {name : Str} (hcredit : 2 + textWeight name ≤ credit m) :
    Accounted m c (r.endTag name) := by
  have hpos := weight_pos c
  intro r' ts h
  unfold Reader.endTag at h
  split at h
  · split_ifs at h with hn
    cases h
    subst hn
    refine ⟨?_, ?_⟩
    · simp only [cost, credit_home, Bool.false_eq_true, if_false]
      omega
    · intro _ _
      refine ⟨tidy_home _, ?_⟩
      intro us hus k
      have hzero := hus 0
      rw [brackets_home] at hzero
      exact hzero
  · cases h

theorem accounted_inAttrName (t : Tag) (attr : Str) :
    Accounted (.attrName t attr) c (r.inAttrName t attr c) := by
  have hpos := weight_pos c
  unfold Reader.inAttrName
  split_ifs
  · exact accounted_go r
      (by simp only [credit, textWeight_append, textWeight_cons, textWeight_nil]; omega)
      (fun h => h) fun _ => rfl
  · exact accounted_go r (by simp only [credit]; omega) (fun h => h) fun _ => rfl
  · exact accounted_go_spare r (by simp only [credit]; omega)
  · exact accounted_none _ c

theorem plainValue_snoc {v : Str} (hv : PlainValue v) (hc : isChar c = true) (hr : c ≠ '\r')
    (hq : c ≠ '"') (hlt : c ≠ '<') (hamp : c ≠ '&') :
    PlainValue (v ++ [if isSpace c then ' ' else c]) := by
  have hspace : isSpace c = false → c ≠ '\t' ∧ c ≠ '\n' := by
    intro h
    constructor <;> rintro rfl <;> cases h
  constructor
  · intro d hd
    rcases List.mem_append.mp hd with hd | hd
    · exact hv.legal d hd
    · rw [List.mem_singleton] at hd
      subst hd
      split_ifs
      · rfl
      · exact hc
  · intro d hd
    rcases List.mem_append.mp hd with hd | hd
    · exact hv.markup d hd
    · rw [List.mem_singleton] at hd
      subst hd
      split_ifs with hs
      · decide
      · have := hspace (by simpa using hs)
        exact ⟨hlt, hamp, hq, this.1, this.2, hr⟩

theorem weight_normal : weight (if isSpace c then ' ' else c) ≤ weight c := by
  split_ifs
  · exact weight_pos c
  · exact Nat.le_refl _

theorem accounted_inAttrValue (t : Tag) (attr : Str) (quote : Char) (value : Str)
    (hc : isChar c = true) (hr : c ≠ '\r') :
    Accounted (.attrValue t attr quote value) c (r.inAttrValue t attr quote value c) := by
  have hpos := weight_pos c
  unfold Reader.inAttrValue
  by_cases h₁ : c = quote
  · rw [if_pos h₁]
    by_cases h₂ : attr ∈ t.attrs.map Prod.fst
    · rw [if_pos h₂]
      exact accounted_none _ c
    · rw [if_neg h₂]
      apply accounted_go r
      · simp only [credit, tagCost, attrsCost_append, attrsCost_cons, attrsCost_nil]
        omega
      · intro h a ha
        rcases List.mem_append.mp ha with ha | ha
        · exact h.1 a ha
        · rw [List.mem_singleton] at ha
          subst ha
          exact h.2.2
      · exact fun _ => rfl
  rw [if_neg h₁]
  by_cases h₃ : c = '<'
  · rw [if_pos h₃]
    exact accounted_none _ c
  rw [if_neg h₃]
  by_cases h₄ : c = '&'
  · rw [if_pos h₄]
    exact accounted_go_spare r (by simp only [credit, List.length_nil]; omega)
  · rw [if_neg h₄]
    have hw := weight_normal (c := c)
    apply accounted_go r
    · simp only [credit, textWeight_append, textWeight_cons, textWeight_nil]
      omega
    · intro h
      refine ⟨h.1, h.2.1, plainValue_snoc h.2.2 hc hr ?_ h₃ h₄⟩
      rw [← h.2.1]
      exact h₁
    · exact fun _ => rfl

theorem accounted_reference {m : Mode} (body : Str) (more : Str → Mode) (done : Char → Result)
    (hm : ¬ Tidy m) (hcredit : ∀ b, b ≠ [] → credit (more b) = credit (more []) + 1)
    (hbody : credit m = credit (more []) + min 1 body.length)
    (hdone : ∀ d r' ts, done d = some (r', ts) →
      cost false ts + credit r'.mode ≤ credit (more []) + 2) :
    Accounted m c (r.inReference body c more done) := by
  have hpos := weight_pos c
  apply accounted_untidy hm
  intro r' ts h
  unfold Reader.inReference at h
  split_ifs at h with h₁ h₂
  · obtain ⟨d, hd, hres⟩ := Option.bind_eq_some_iff.mp h
    have hne : body ≠ [] := by
      rintro rfl
      cases hd
    have hlen := List.length_pos_iff.mpr hne
    have := hdone d r' ts hres
    omega
  · cases h
    have := hcredit (body ++ [c]) (by simp)
    simp only [cost]
    omega

section Modes
variable {r}

theorem accounted_comment {dashes : ℕ} (hm : r.mode = .comment dashes) :
    Accounted (.comment dashes) c (r.lex c) := by
  refine accounted_untidy (m := .comment dashes) (fun h => h) ?_
  intro r' ts h
  have hzero : cost false ts + credit r'.mode = 0 := by
    unfold Reader.lex at h
    rw [hm] at h
    rcases dashes with _ | _ | n
    · cases h
      rfl
    · cases h
      rfl
    · change (if c = '>' then r.go (home r.stack) else none) = some (r', ts) at h
      split_ifs at h
      cases h
      exact (Nat.zero_add _).trans (credit_home r.stack)
  omega

theorem accounted_targetEnd {decl : Bool} (hm : r.mode = .targetEnd decl) :
    Accounted (.targetEnd decl) c (r.lex c) := by
  refine accounted_untidy (m := .targetEnd decl) (fun h => h) ?_
  intro r' ts h
  unfold Reader.lex at h
  rw [hm] at h
  dsimp only at h
  split_ifs at h
  cases h
  exact Nat.le_trans (Nat.le_of_eq ((Nat.zero_add _).trans (credit_home r.stack))) (Nat.zero_le _)

/-- A value in single quotes wastes the weight of the quote. -/
theorem accounted_attrQuote {t : Tag} {attr : Str} (hm : r.mode = .attrQuote t attr) :
    Accounted (.attrQuote t attr) c (r.lex c) := by
  have hpos := weight_pos c
  unfold Reader.lex
  rw [hm]
  dsimp only
  split_ifs with h₁ h₂
  · rcases h₁ with rfl | rfl
    · apply accounted_go
      · simp only [credit, textWeight_nil]
        omega
      · intro h
        exact ⟨h, rfl, ⟨by simp, by simp⟩⟩
      · exact fun _ => rfl
    · apply accounted_go_spare
      have hquote : weight '\'' = 2 := rfl
      simp only [credit, textWeight_nil, hquote]
      omega
  · exact accounted_go_spare _ (by simp only [credit]; omega)
  · exact accounted_none _ c

theorem accounted_emptyTag {t : Tag} (hm : r.mode = .emptyTag t) :
    Accounted (.emptyTag t) c (r.lex c) := by
  have hpos := weight_pos c
  unfold Reader.lex
  rw [hm]
  dsimp only
  split_ifs
  · intro r' ts heq
    cases heq
    refine ⟨?_, ?_⟩
    · have hhome := credit_home r.stack
      simp only [cost, if_true]
      change 2 + textWeight t.name + attrsCost t.attrs + (1 + 0) + credit (home r.stack) ≤
        1 + textWeight t.name + attrsCost t.attrs + 1 + weight c
      omega
    · intro _ ht
      refine ⟨tidy_home _, ?_⟩
      intro us hus k
      have hzero := hus 0
      rw [brackets_home] at hzero
      exact ⟨ht, hzero⟩
  · exact accounted_none _ c

theorem accounted_endName {name : Str} (hm : r.mode = .endName name) :
    Accounted (.endName name) c (r.lex c) := by
  have hpos := weight_pos c
  unfold Reader.lex
  rw [hm]
  dsimp only
  split_ifs
  · exact accounted_go _
      (by simp only [credit, textWeight_append, textWeight_cons, textWeight_nil]; omega)
      (fun _ => trivial) fun _ => rfl
  · exact accounted_none _ c
  · exact accounted_endTag _ (Nat.le_refl _)
  · exact accounted_go_spare _ (by simp only [credit]; omega)
  · exact accounted_none _ c

end Modes

theorem accounted_lex (hc : isChar c = true) (hr : c ≠ '\r') :
    Accounted r.mode c (r.lex c) := by
  have hpos := weight_pos c
  rcases r with ⟨mode, stack, seen, cr⟩
  cases mode with
  | outside first =>
      simp only [Reader.lex]
      split_ifs
      · exact accounted_go _ (by simp only [credit]; omega) (fun _ => trivial) fun _ => rfl
      · exact accounted_go_spare _ (by simp only [credit]; omega)
      · exact accounted_none _ c
  | content k => exact accounted_inContent _ k hc hr
  | reference body =>
      refine accounted_reference _ body .reference _ (fun h => h) ?_ ?_ ?_
      · intro b hb
        have := List.length_pos_iff.mpr hb
        simp only [credit, List.length_nil]
        omega
      · simp [credit]
      · intro d r' ts h
        cases h
        have := weight_le d
        simp only [cost, credit, List.length_nil]
        omega
  | opened first => exact accounted_inMarkup _ first
  | bang text => exact accounted_inBang _ text
  | comment dashes => exact accounted_comment rfl
  | cdata k => exact accounted_inCdata _ k
  | target first name => exact accounted_inTarget _ first name
  | targetEnd decl => exact accounted_targetEnd rfl
  | instruction decl body question => exact accounted_inInstruction _ decl body question
  | startName name =>
      simp only [Reader.lex]
      split_ifs
      · exact accounted_go _
          (by simp only [credit, textWeight_append, textWeight_cons, textWeight_nil]; omega)
          (fun _ => trivial) fun _ => rfl
      · apply accounted_tagEnd
        · exact Nat.le_refl _
        · intro _ a ha
          cases ha
        · exact fun _ => rfl
  | inTag t =>
      simp only [Reader.lex, Reader.inTag]
      split_ifs
      · exact accounted_go _ (by simp only [credit, textWeight_cons, textWeight_nil]; omega)
          (fun h => h) fun _ => rfl
      · exact accounted_tagEnd _ (Nat.le_succ _) (fun h => h) fun _ => rfl
  | attrName t attr => exact accounted_inAttrName _ t attr
  | attrEq t attr =>
      simp only [Reader.lex]
      split_ifs
      · exact accounted_untidy (fun h => h) fun r' ts h => by
          cases h
          simp only [cost, credit]
          omega
      · exact accounted_go_spare _ (by simp only [credit]; omega)
      · exact accounted_none _ c
  | attrQuote t attr => exact accounted_attrQuote rfl
  | attrValue t attr quote value => exact accounted_inAttrValue _ t attr quote value hc hr
  | attrReference t attr quote value body =>
      refine accounted_reference _ body (.attrReference t attr quote value) _ (fun h => h) ?_ ?_ ?_
      · intro b hb
        have := List.length_pos_iff.mpr hb
        simp only [credit, List.length_nil]
        omega
      · simp [credit]
      · intro d r' ts h
        cases h
        have := weight_le d
        simp only [cost, credit, List.length_nil, textWeight_append, textWeight_cons,
          textWeight_nil]
        omega
  | afterValue t => exact accounted_tagEnd _ (Nat.le_refl _) (fun h => h) fun _ => rfl
  | emptyTag t => exact accounted_emptyTag rfl
  | endName name => exact accounted_endName rfl
  | endTag name =>
      simp only [Reader.lex]
      split_ifs
      · exact accounted_endTag _ (Nat.le_refl _)
      · exact accounted_go_spare _ (by simp only [credit]; omega)
      · exact accounted_none _ c

end Lex

theorem accounted_step (r : Reader) (c : Char) : Accounted r.mode c (r.step c) := by
  unfold Reader.step
  split_ifs with h₁ h₂ h₃
  · exact accounted_none _ c
  · exact accounted_spare (by simp only [cost]; have := weight_pos c; omega)
  · subst h₃
    exact accounted_lex { r with cr := true } (by decide) (by decide)
  · rw [Bool.not_eq_true', Bool.not_eq_false] at h₁
    exact accounted_lex { r with cr := false } h₁ h₃

/-- A text is at least as heavy as its tokens need, and where it is no heavier its
tokens are plain. -/
theorem accounted_feed {r r' : Reader} {cs : Str} {ts : List Token}
    (h : r.feed cs = some (r', ts)) :
    cost false ts + credit r'.mode ≤ credit r.mode + textWeight cs ∧
    (credit r.mode + textWeight cs ≤ cost false ts + credit r'.mode → Tidy r.mode →
      ∀ k, PlainTokens (brackets r.mode k) ts) := by
  induction cs generalizing r ts with
  | nil =>
      cases h
      exact ⟨by simp [cost], fun _ _ k => trivial⟩
  | cons c cs ih =>
      obtain ⟨r₁, ts₁, ts₂, hstep, hfeed, rfl⟩ := feed_cons_eq_some h
      have hone := accounted_step r c r₁ ts₁ hstep
      have hrest := ih hfeed
      have happend := cost_append_le false ts₁ ts₂
      rw [textWeight_cons]
      constructor
      · omega
      · intro hge htidy
        obtain ⟨htidy₁, hplain⟩ := hone.2 (by omega) htidy
        exact hplain ts₂ (hrest.2 (by omega) htidy₁)

theorem cost_le_of_denotes {text : Str} {d : Node} (h : Denotes text d) :
    cost false d.tokens ≤ textWeight text := by
  obtain ⟨r, hfeed, _⟩ := h
  have hle : cost false d.tokens + credit r.mode ≤ 0 + textWeight text := (accounted_feed hfeed).1
  omega

theorem plain_of_denotes {text : Str} {d : Node} (h : Denotes text d)
    (hle : textWeight text ≤ cost false d.tokens) : PlainTokens 0 d.tokens := by
  obtain ⟨r, hfeed, _⟩ := h
  apply (accounted_feed hfeed).2 _ trivial
  change 0 + textWeight text ≤ _
  omega

/-! ## Documents -/

mutual
def nodeCost : Node → ℕ
  | .elem n as [] => 2 + textWeight n + attrsCost as + 1
  | .elem n as (k :: ks) => 2 + textWeight n + attrsCost as + (nodeCost k + forestCost ks) +
      (3 + textWeight n)
  | .char c => weight c

def forestCost : List Node → ℕ
  | [] => 0
  | k :: ks => nodeCost k + forestCost ks
end

mutual
theorem cost_node (f : Bool) : ∀ (d : Node) (us : List Token),
    cost f (d.tokens ++ us) = nodeCost d + cost false us
  | .elem n as [], us => by
      simp only [Node.tokens, forestTokens, List.nil_append, List.cons_append, cost, nodeCost,
        if_true]
      omega
  | .elem n as (k :: ks), us => by
      have hhead := cost_node true k (forestTokens ks ++ (.stop n :: us))
      have htail := cost_forest ks n us
      rw [Node.tokens, forestTokens, List.cons_append, cost, List.append_assoc, List.append_assoc,
        List.singleton_append, hhead, htail, nodeCost]
      omega
  | .char c, us => by
      rw [Node.tokens, List.singleton_append, cost, nodeCost]

theorem cost_forest : ∀ (ks : List Node) (n : Str) (us : List Token),
    cost false (forestTokens ks ++ (.stop n :: us)) =
      forestCost ks + (3 + textWeight n) + cost false us
  | [], n, us => by
      simp only [forestTokens, List.nil_append, cost, forestCost, Bool.false_eq_true, if_false]
      omega
  | k :: ks, n, us => by
      have hhead := cost_node false k (forestTokens ks ++ (.stop n :: us))
      have htail := cost_forest ks n us
      rw [forestTokens, List.append_assoc, hhead, htail, forestCost]
      omega
end

theorem cost_tokens (d : Node) : cost false d.tokens = nodeCost d := by
  have h := cost_node false d []
  rw [List.append_nil] at h
  exact h

theorem nodeCost_pos (d : Node) : 0 < nodeCost d := by
  cases d with
  | elem n as ks =>
      cases ks <;> simp only [nodeCost] <;> omega
  | char c => exact weight_pos c

/-- `]]>` in plain text would have been seen. -/
theorem not_close_of_plainTokens {k : ℕ} (hk : k ≤ 2) {s : Str} {us : List Token}
    (h : PlainTokens k (s.map .char ++ us)) :
    ¬ "]]>".toList <:+: List.replicate k ']' ++ s := by
  induction s generalizing k with
  | nil =>
      rw [List.append_nil]
      intro hin
      have hmem : '>' ∈ List.replicate k ']' := hin.subset (by decide)
      have := List.eq_of_mem_replicate hmem
      cases this
  | cons c cs ih =>
      obtain ⟨_, _, hclose, htail⟩ := h
      have hrest := ih (by split_ifs <;> omega) htail
      have hk' : k = 0 ∨ k = 1 ∨ k = 2 := by omega
      intro hin
      apply hrest
      by_cases hc : c = ']'
      · subst hc
        rw [if_pos rfl]
        rcases hk' with rfl | rfl | rfl
        · exact hin
        · exact hin
        · -- a third bracket pushes the first one out
          rcases List.infix_cons_iff.mp hin with hpre | hin
          · simp at hpre
          · exact hin
      · rw [if_neg hc]
        have hc' : ']' ≠ c := fun heq => hc heq.symm
        rcases hk' with rfl | rfl | rfl
        · rcases List.infix_cons_iff.mp hin with hpre | hin
          · simp [hc'] at hpre
          · exact hin
        · rcases List.infix_cons_iff.mp hin with hpre | hin
          · simp [hc'] at hpre
          · rcases List.infix_cons_iff.mp hin with hpre | hin
            · simp [hc'] at hpre
            · exact hin
        · have hgt : '>' ≠ c := fun heq => hclose ⟨heq.symm, Nat.le_refl 2⟩
          rcases List.infix_cons_iff.mp hin with hpre | hin
          · simp [hgt] at hpre
          · rcases List.infix_cons_iff.mp hin with hpre | hin
            · simp [hc'] at hpre
            · rcases List.infix_cons_iff.mp hin with hpre | hin
              · simp [hc'] at hpre
              · exact hin

theorem plainText_of_plainTokens {s : Str} {us : List Token}
    (h : PlainTokens 0 (s.map .char ++ us)) : PlainText s := by
  have hchars : ∀ (k : ℕ) (t : Str), PlainTokens k (t.map .char ++ us) →
      ∀ c ∈ t, isChar c = true ∧ (c ≠ '<' ∧ c ≠ '&' ∧ c ≠ '\r') := by
    intro k t
    induction t generalizing k with
    | nil =>
        intro _ c hc
        cases hc
    | cons d ds ih =>
        intro ht c hc
        rcases List.mem_cons.mp hc with rfl | hc
        · exact ⟨ht.1, ht.2.1⟩
        · exact ih _ ht.2.2.2 c hc
  constructor
  · exact fun c hc => (hchars 0 s h c hc).1
  · exact fun c hc => (hchars 0 s h c hc).2
  · exact not_close_of_plainTokens (Nat.zero_le 2) h

theorem plainTokens_after_text {k : ℕ} {s : Str} {n : Str} {us : List Token}
    (h : PlainTokens k (s.map .char ++ .stop n :: us)) : PlainTokens 0 us := by
  induction s generalizing k with
  | nil => exact h
  | cons c cs ih => exact ih h.2.2.2

end Stabber.XmlCost
