import Stabber.XmlNesting

/-!
# The tree that a reader has read

Every step of the reader opens or closes at most one element. From this, what has
been read is always the beginning of one tree: nothing, a root with some open
elements, or a whole tree.
-/

namespace Stabber.XmlTree
open XmlDocument XmlReader XmlNesting

def IsCharacter (t : Token) : Prop := ∃ c, t = .char c

/-- What one step does to the open elements, and the tokens that it returns. -/
inductive Moved (r r' : Reader) : List Token → Prop
  | characters {ts : List Token} : r'.stack = r.stack → r'.seen = r.seen →
      (∀ t ∈ ts, IsCharacter t) → (ts = [] ∨ r.stack ≠ []) → Moved r r' ts
  | opened (n : Str) (as : List (Str × Str)) : r'.stack = n :: r.stack → r'.seen = true →
      ¬ (r.stack = [] ∧ r.seen = true) → Moved r r' [.start n as]
  | empty (n : Str) (as : List (Str × Str)) : r'.stack = r.stack → r'.seen = true →
      ¬ (r.stack = [] ∧ r.seen = true) → Moved r r' [.start n as, .stop n]
  | closed (n : Str) : r.stack = n :: r'.stack → r'.seen = r.seen → Moved r r' [.stop n]

def Moves (r : Reader) (result : Result) : Prop :=
  ∀ r' ts, result = some (r', ts) → Moved r r' ts

theorem moves_none (r : Reader) : Moves r none := by
  intro r' ts h
  cases h

theorem moves_emit (r : Reader) (m : Mode) {ts : List Token} (hts : ∀ t ∈ ts, IsCharacter t)
    (hopen : ts = [] ∨ r.stack ≠ []) : Moves r (r.emit m ts) := by
  intro r' us h
  cases h
  exact .characters rfl rfl hts hopen

theorem moves_go (r : Reader) (m : Mode) : Moves r (r.go m) :=
  moves_emit r m (by simp) (Or.inl rfl)

section Lex
variable {r : Reader} (c : Char)

theorem moves_tagEnd (t : Tag) (ho : ¬ (r.stack = [] ∧ r.seen = true)) :
    Moves r (r.tagEnd t c) := by
  unfold Reader.tagEnd
  split_ifs
  · exact moves_go r _
  · intro r' ts h
    cases h
    exact .opened t.name t.attrs rfl rfl ho
  · exact moves_go r _
  · exact moves_none r

theorem moves_endTag (name : Str) : Moves r (r.endTag name) := by
  intro r' ts h
  unfold Reader.endTag at h
  split at h
  next n ns hstack =>
    split_ifs at h with hname
    cases h
    rw [← hname]
    exact .closed n hstack rfl
  next => cases h

theorem moves_inContent (k : ℕ) (hs : r.stack ≠ []) : Moves r (r.inContent k c) := by
  unfold Reader.inContent
  by_cases h₁ : c = '<'
  · rw [if_pos h₁]
    exact moves_go r _
  rw [if_neg h₁]
  by_cases h₂ : c = '&'
  · rw [if_pos h₂]
    exact moves_go r _
  rw [if_neg h₂]
  by_cases h₃ : c = '>' ∧ 2 ≤ k
  · rw [if_pos h₃]
    exact moves_none r
  · rw [if_neg h₃]
    exact moves_emit r _ (by simp [IsCharacter]) (Or.inr hs)

theorem moves_inMarkup (first : Bool) : Moves r (r.inMarkup first c) := by
  unfold Reader.inMarkup
  split_ifs
  · exact moves_none r
  · exact moves_go r _
  · exact moves_go r _
  · exact moves_go r _
  · exact moves_none r
  · exact moves_go r _
  · exact moves_none r

theorem moves_inBang (seen : Str) : Moves r (r.inBang seen c) := by
  unfold Reader.inBang
  dsimp only
  split_ifs
  · exact moves_go r _
  · exact moves_go r _
  · exact moves_none r
  · exact moves_go r _
  · exact moves_go r _
  · exact moves_none r

theorem moves_inCdata (k : ℕ) (hs : r.stack ≠ []) : Moves r (r.inCdata k c) := by
  unfold Reader.inCdata
  split_ifs
  · exact moves_go r _
  · exact moves_emit r _ (by simp [IsCharacter]) (Or.inr hs)
  · exact moves_go r _
  · apply moves_emit r _ _ (Or.inr hs)
    intro t ht
    rcases List.mem_append.mp ht with ht | ht
    · exact ⟨_, List.eq_of_mem_replicate ht⟩
    · exact ⟨_, List.mem_singleton.mp ht⟩

theorem moves_inTarget (first : Bool) (name : Str) : Moves r (r.inTarget first name c) := by
  unfold Reader.inTarget
  by_cases h₁ : name = []
  · rw [if_pos h₁]
    split_ifs
    · exact moves_go r _
    · exact moves_none r
  rw [if_neg h₁]
  by_cases h₂ : isNameChar c = true
  · rw [if_pos h₂]
    exact moves_go r _
  rw [if_neg h₂]
  rcases isDeclTarget first name with _ | decl
  · exact moves_none r
  · dsimp only
    split_ifs
    · exact moves_go r _
    · exact moves_go r _
    · exact moves_none r

theorem moves_inInstruction (decl : Bool) (body : Str) (question : Bool) :
    Moves r (r.inInstruction decl body question c) := by
  unfold Reader.inInstruction
  dsimp only
  split_ifs
  · exact moves_none r
  · exact moves_go r _
  · exact moves_go r _
  · exact moves_go r _
  · exact moves_go r _
  · exact moves_go r _

theorem moves_inReference (body : Str) (more : Str → Mode) {done : Char → Result}
    (hdone : ∀ d, Moves r (done d)) : Moves r (r.inReference body c more done) := by
  unfold Reader.inReference
  split_ifs
  · intro r' ts h
    obtain ⟨d, _, hd⟩ := Option.bind_eq_some_iff.mp h
    exact hdone d r' ts hd
  · exact moves_go r _
  · exact moves_none r

theorem moves_inAttrValue (t : Tag) (attr : Str) (quote : Char) (value : Str) :
    Moves r (r.inAttrValue t attr quote value c) := by
  unfold Reader.inAttrValue
  by_cases h₁ : c = quote
  · rw [if_pos h₁]
    split_ifs
    · exact moves_none r
    · exact moves_go r _
  rw [if_neg h₁]
  by_cases h₂ : c = '<'
  · rw [if_pos h₂]
    exact moves_none r
  rw [if_neg h₂]
  by_cases h₃ : c = '&'
  · rw [if_pos h₃]
    exact moves_go r _
  · rw [if_neg h₃]
    exact moves_go r _

end Lex

theorem moves_lex {r : Reader} (c : Char) (hn : Nested r) : Moves r (r.lex c) := by
  rcases r with ⟨mode, stack, seen, cr⟩
  have hm : Fits mode stack seen := hn.mode
  cases mode with
  | outside first =>
      simp only [Reader.lex]
      split_ifs
      · exact moves_go _ _
      · exact moves_go _ _
      · exact moves_none _
  | content k => exact moves_inContent c k hm
  | reference body =>
      exact moves_inReference c body _
        fun d => moves_emit _ _ (by simp [IsCharacter]) (Or.inr hm)
  | opened first => exact moves_inMarkup c first
  | bang text => exact moves_inBang c text
  | comment dashes =>
      rcases dashes with _ | _ | n
      · exact moves_go _ _
      · exact moves_go _ _
      · simp only [Reader.lex]
        split_ifs
        · exact moves_go _ _
        · exact moves_none _
  | cdata k => exact moves_inCdata c k hm
  | target first name => exact moves_inTarget c first name
  | targetEnd decl =>
      simp only [Reader.lex]
      split_ifs
      · exact moves_go _ _
      · exact moves_none _
  | instruction decl body question => exact moves_inInstruction c decl body question
  | startName name =>
      simp only [Reader.lex]
      split_ifs
      · exact moves_go _ _
      · exact moves_tagEnd c _ hm
  | inTag t =>
      simp only [Reader.lex, Reader.inTag]
      split_ifs
      · exact moves_go _ _
      · exact moves_tagEnd c t hm
  | attrName t attr =>
      simp only [Reader.lex, Reader.inAttrName]
      split_ifs
      · exact moves_go _ _
      · exact moves_go _ _
      · exact moves_go _ _
      · exact moves_none _
  | attrEq t attr =>
      simp only [Reader.lex]
      split_ifs
      · exact moves_go _ _
      · exact moves_go _ _
      · exact moves_none _
  | attrQuote t attr =>
      simp only [Reader.lex]
      split_ifs
      · exact moves_go _ _
      · exact moves_go _ _
      · exact moves_none _
  | attrValue t attr quote value => exact moves_inAttrValue c t attr quote value
  | attrReference t attr quote value body =>
      exact moves_inReference c body _ fun d => moves_go _ _
  | afterValue t => exact moves_tagEnd c t hm
  | emptyTag t =>
      simp only [Reader.lex]
      split_ifs
      · intro r' ts h
        cases h
        exact .empty t.name t.attrs rfl rfl hm
      · exact moves_none _
  | endName name =>
      simp only [Reader.lex]
      split_ifs
      · exact moves_go _ _
      · exact moves_none _
      · exact moves_endTag name
      · exact moves_go _ _
      · exact moves_none _
  | endTag name =>
      simp only [Reader.lex]
      split_ifs
      · exact moves_endTag name
      · exact moves_go _ _
      · exact moves_none _

/-- Whether a carriage return came last plays no part. -/
theorem Moved.of_cr {r r' : Reader} {cr : Bool} {ts : List Token}
    (h : Moved { r with cr := cr } r' ts) : Moved r r' ts := by
  cases h with
  | characters hstack hseen hts hopen => exact .characters hstack hseen hts hopen
  | opened n as hstack hseen hroot => exact .opened n as hstack hseen hroot
  | empty n as hstack hseen hroot => exact .empty n as hstack hseen hroot
  | closed n hstack hseen => exact .closed n hstack hseen

theorem moved_step {r r' : Reader} {c : Char} {ts : List Token} (hn : Nested r)
    (h : r.step c = some (r', ts)) : Moved r r' ts := by
  unfold Reader.step at h
  split_ifs at h
  · cases h
    exact .characters rfl rfl (by simp) (Or.inl rfl)
  · have hmoves := moves_lex (r := { r with cr := true }) '\n' ⟨hn.seen, hn.mode⟩
    exact (hmoves r' ts h).of_cr
  · have hmoves := moves_lex (r := { r with cr := false }) c ⟨hn.seen, hn.mode⟩
    exact (hmoves r' ts h).of_cr

/-! ## The tokens read so far -/

/-- The tokens of a document up to a point where these elements are open, innermost
first: each has its start tag and some complete content. -/
inductive Open : List Str → List Token → Prop
  | root (n : Str) (as : List (Str × Str)) (ks : List Node) :
      Open [n] (.start n as :: forestTokens ks)
  | child {stack : List Str} {ts : List Token} (n : Str) (as : List (Str × Str))
      (ks : List Node) : Open stack ts → Open (n :: stack) (ts ++ .start n as :: forestTokens ks)

theorem Open.append {stack : List Str} {ts : List Token} (h : Open stack ts) (ls : List Node) :
    Open stack (ts ++ forestTokens ls) := by
  rcases h with ⟨n, as, ks⟩ | ⟨n, as, ks, h⟩
  · rw [List.cons_append, ← forestTokens_append]
    exact .root n as (ks ++ ls)
  · rw [List.append_assoc, List.cons_append, ← forestTokens_append]
    exact .child n as (ks ++ ls) h

theorem Open.stop {n : Str} {stack : List Str} {ts : List Token} (h : Open (n :: stack) ts) :
    (stack = [] ∧ ∃ as ks, ts ++ [.stop n] = (Node.elem n as ks).tokens) ∨
      Open stack (ts ++ [.stop n]) := by
  rcases h with ⟨n, as, ks⟩ | ⟨n, as, ks, h⟩
  · exact Or.inl ⟨rfl, as, ks, rfl⟩
  · have happend := h.append [.elem n as ks]
    rw [forestTokens, Node.tokens, forestTokens, List.append_nil] at happend
    rw [List.append_assoc, List.cons_append]
    exact Or.inr happend

theorem Open.stack_ne_nil {stack : List Str} {ts : List Token} (h : Open stack ts) :
    stack ≠ [] := by
  rcases h with ⟨n, as, ks⟩ | ⟨n, as, ks, h⟩
  · exact List.cons_ne_nil _ _
  · exact List.cons_ne_nil _ _

theorem Open.starts {stack : List Str} {ts : List Token} (h : Open stack ts) :
    ∃ n as us, ts = .start n as :: us := by
  induction h with
  | root n as ks => exact ⟨n, as, _, rfl⟩
  | child n as ks _ ih =>
      obtain ⟨m, bs, us, rfl⟩ := ih
      exact ⟨m, bs, _, rfl⟩

/-- Before, inside and after the root element. -/
inductive Reading (r : Reader) : List Token → Prop
  | before : r.stack = [] → r.seen = false → Reading r []
  | inside {ts : List Token} : Open r.stack ts → Reading r ts
  | after (n : Str) (as : List (Str × Str)) (ks : List Node) : r.stack = [] → r.seen = true →
      Reading r (Node.elem n as ks).tokens

theorem forestTokens_characters {ts : List Token} (h : ∀ t ∈ ts, IsCharacter t) :
    ∃ ks, forestTokens ks = ts := by
  induction ts with
  | nil => exact ⟨[], rfl⟩
  | cons t ts ih =>
      obtain ⟨c, rfl⟩ := h t List.mem_cons_self
      obtain ⟨ks, hks⟩ := ih fun u hu => h u (List.mem_cons_of_mem _ hu)
      exact ⟨.char c :: ks, by rw [forestTokens, hks]; rfl⟩

theorem Reading.open_of_stack {r : Reader} {ts : List Token} (h : Reading r ts)
    (hs : r.stack ≠ []) : Open r.stack ts := by
  rcases h with ⟨hnil, -⟩ | hopen | ⟨n, as, ks, hnil, -⟩
  · exact (hs hnil).elim
  · exact hopen
  · exact (hs hnil).elim

/-- An element starts: it is the root, or a child of the innermost open element. -/
theorem Reading.start {r : Reader} {ts : List Token} (h : Reading r ts)
    (ho : ¬ (r.stack = [] ∧ r.seen = true)) (n : Str) (as : List (Str × Str)) :
    Open (n :: r.stack) (ts ++ [.start n as]) := by
  rcases h with ⟨hnil, -⟩ | hopen | ⟨m, bs, ks, hnil, hseen⟩
  · rw [hnil]
    exact .root n as []
  · exact .child n as [] hopen
  · exact (ho ⟨hnil, hseen⟩).elim

theorem Reading.moved {r r' : Reader} {ts us : List Token} (h : Reading r ts)
    (hseen : r.stack ≠ [] → r.seen = true) (hm : Moved r r' us) : Reading r' (ts ++ us) := by
  rcases hm with ⟨hstack, hsame, hus, hopen⟩ | ⟨n, as, hstack, _, ho⟩ |
    ⟨n, as, hstack, hnow, ho⟩ | ⟨n, hstack, hsame⟩
  · rcases hopen with rfl | hopen
    · rw [List.append_nil]
      rcases h with ⟨hnil, hno⟩ | hopen | ⟨n, as, ks, hnil, hyes⟩
      · exact .before (hstack.trans hnil) (hsame.trans hno)
      · exact .inside (hstack ▸ hopen)
      · exact .after n as ks (hstack.trans hnil) (hsame.trans hyes)
    · obtain ⟨ks, rfl⟩ := forestTokens_characters hus
      rw [← hstack] at hopen
      exact .inside (hstack ▸ (h.open_of_stack (hstack ▸ hopen)).append ks)
  · exact .inside (hstack ▸ h.start ho n as)
  · rcases (h.start ho n as).stop with ⟨hnil, bs, ks, htokens⟩ | hopen
    · rw [List.append_assoc, List.singleton_append] at htokens
      rw [htokens]
      exact .after n bs ks (hstack.trans hnil) hnow
    · rw [List.append_assoc, List.singleton_append] at hopen
      exact .inside (hstack ▸ hopen)
  · have hne : r.stack ≠ [] := by
      rw [hstack]
      exact List.cons_ne_nil _ _
    have hopen := h.open_of_stack hne
    rw [hstack] at hopen
    rcases hopen.stop with ⟨hnil, as, ks, htokens⟩ | hrest
    · rw [htokens]
      exact .after n as ks hnil (hsame.trans (hseen hne))
    · exact .inside hrest

theorem reading_feed {r r' : Reader} {cs : Str} {ts us : List Token} (hn : Nested r)
    (h : Reading r ts) (hfeed : r.feed cs = some (r', us)) : Reading r' (ts ++ us) := by
  induction cs generalizing r ts us with
  | nil =>
      cases hfeed
      rw [List.append_nil]
      exact h
  | cons c cs ih =>
      obtain ⟨r₁, us₁, us₂, hone, hrest, rfl⟩ := feed_cons_eq_some hfeed
      rw [← List.append_assoc]
      exact ih (nested_step c hn r₁ us₁ hone).1 (h.moved hn.seen (moved_step hn hone)) hrest

theorem reading_init {r : Reader} {cs : Str} {ts : List Token}
    (h : Reader.init.feed cs = some (r, ts)) : Reading r ts :=
  reading_feed nested_init (.before rfl rfl) h

/-- In the content of the root, its start tag and whole children have been read. -/
theorem tokens_of_root_open {r : Reader} {cs : Str} {ts : List Token} {n : Str}
    (h : Reader.init.feed cs = some (r, ts)) (hstack : r.stack = [n]) :
    ∃ as ks, ts = .start n as :: forestTokens ks := by
  rcases reading_init h with ⟨hnil, -⟩ | hopen | ⟨m, as, ks, hnil, -⟩
  · rw [hstack] at hnil
    cases hnil
  · rw [hstack] at hopen
    rcases hopen with ⟨n, as, ks⟩ | ⟨n, as, ks, hbelow⟩
    · exact ⟨as, ks, rfl⟩
    · exact (hbelow.stack_ne_nil rfl).elim
  · rw [hstack] at hnil
    cases hnil

/-- A text that the reader completes is a document. -/
theorem denotes_of_complete {r : Reader} {text : Str} {ts : List Token}
    (h : Reader.init.feed text = some (r, ts)) (hc : r.complete = true) :
    ∃ n as ks, ts = (Node.elem n as ks).tokens ∧ Denotes text (.elem n as ks) := by
  have hclosed : r.closed = true := by
    rw [Reader.complete, Bool.and_eq_true] at hc
    exact hc.1
  obtain ⟨hseen, hnil⟩ := closed_iff.mp hclosed
  rcases reading_init h with ⟨-, hno⟩ | hopen | ⟨n, as, ks, -, -⟩
  · rw [hseen] at hno
    cases hno
  · exact (hopen.stack_ne_nil hnil).elim
  · exact ⟨n, as, ks, rfl, r, h, hc⟩

end Stabber.XmlTree
