import Stabber.XmlReader
import Mathlib.Data.List.Nodup

/-!
# What the reader accepts is well formed

The names in every start tag that the reader returns are XML names, and those of
its attributes are distinct.
-/

namespace Stabber.XmlSoundness
open XmlDocument XmlReader

structure SoundTag (t : Tag) : Prop where
  name : isName t.name = true
  attrs : ∀ a ∈ t.attrs, isName a.1 = true
  distinct : (t.attrs.map Prod.fst).Nodup

def SoundToken : Token → Prop
  | .start n as => SoundTag ⟨n, as⟩
  | .stop _ => True
  | .char _ => True

def SoundMode : Mode → Prop
  | .startName name => isName name = true
  | .inTag t => SoundTag t
  | .attrName t attr => SoundTag t ∧ isName attr = true
  | .attrEq t attr => SoundTag t ∧ isName attr = true
  | .attrQuote t attr => SoundTag t ∧ isName attr = true
  | .attrValue t attr _ _ => SoundTag t ∧ isName attr = true
  | .attrReference t attr _ _ _ => SoundTag t ∧ isName attr = true
  | .afterValue t => SoundTag t
  | .emptyTag t => SoundTag t
  | _ => True

/-- The mode and the tokens after a step are sound. -/
def SoundResult (result : Result) : Prop :=
  ∀ r ts, result = some (r, ts) → SoundMode r.mode ∧ ∀ t ∈ ts, SoundToken t

theorem soundResult_none : SoundResult none := by
  intro r ts h
  cases h

theorem soundResult_emit (r : Reader) {m : Mode} {ts : List Token} (hm : SoundMode m)
    (hts : ∀ t ∈ ts, SoundToken t) : SoundResult (r.emit m ts) := by
  intro r' us h
  cases h
  exact ⟨hm, hts⟩

theorem soundResult_go (r : Reader) {m : Mode} (hm : SoundMode m) : SoundResult (r.go m) :=
  soundResult_emit r hm fun _ ht => by cases ht

/-- Character data is always sound. -/
theorem soundResult_chars (r : Reader) {m : Mode} (s : Str) (hm : SoundMode m) :
    SoundResult (r.emit m (s.map .char)) := by
  apply soundResult_emit r hm
  intro t ht
  obtain ⟨c, _, rfl⟩ := List.mem_map.mp ht
  exact trivial

theorem soundMode_home (stack : List Str) : SoundMode (home stack) := by
  unfold home
  split_ifs <;> exact trivial

theorem isName_snoc {n : Str} {c : Char} (hn : isName n = true) (hc : isNameChar c = true) :
    isName (n ++ [c]) = true := by
  cases n with
  | nil => cases hn
  | cons d ds =>
      simp only [isName, Bool.and_eq_true] at hn
      simp [isName, hn.1, hc]
      simpa using hn.2

theorem isName_single {c : Char} (hc : isNameStart c = true) : isName [c] = true := by
  simp [isName, hc]

section Lex
variable (r : Reader) (c : Char)

theorem sound_tagEnd {t : Tag} (ht : SoundTag t) : SoundResult (r.tagEnd t c) := by
  unfold Reader.tagEnd
  split_ifs
  · exact soundResult_go r ht
  · intro r' ts h
    cases h
    exact ⟨trivial, List.forall_mem_singleton.mpr ht⟩
  · exact soundResult_go r ht
  · exact soundResult_none

theorem sound_endTag (name : Str) : SoundResult (r.endTag name) := by
  intro r' ts h
  unfold Reader.endTag at h
  split at h
  · split_ifs at h
    cases h
    exact ⟨soundMode_home _, List.forall_mem_singleton.mpr trivial⟩
  · cases h

theorem sound_inMarkup (first : Bool) : SoundResult (r.inMarkup first c) := by
  unfold Reader.inMarkup
  split_ifs with h₁ h₂ h₃ h₄ h₅
  · exact soundResult_none
  · exact soundResult_go r trivial
  · exact soundResult_go r trivial
  · exact soundResult_go r trivial
  · exact soundResult_none
  · exact soundResult_go r (isName_single h₅)
  · exact soundResult_none

theorem sound_inContent (k : ℕ) : SoundResult (r.inContent k c) := by
  unfold Reader.inContent
  by_cases h₁ : c = '<'
  · rw [if_pos h₁]
    exact soundResult_go r trivial
  rw [if_neg h₁]
  by_cases h₂ : c = '&'
  · rw [if_pos h₂]
    exact soundResult_go r trivial
  rw [if_neg h₂]
  by_cases h₃ : c = '>' ∧ 2 ≤ k
  · rw [if_pos h₃]
    exact soundResult_none
  · rw [if_neg h₃]
    exact soundResult_chars r [c] trivial

theorem sound_inAttrName {t : Tag} {attr : Str} (ht : SoundTag t) (ha : isName attr = true) :
    SoundResult (r.inAttrName t attr c) := by
  unfold Reader.inAttrName
  split_ifs with h₁
  · exact soundResult_go r ⟨ht, isName_snoc ha h₁⟩
  · exact soundResult_go r ⟨ht, ha⟩
  · exact soundResult_go r ⟨ht, ha⟩
  · exact soundResult_none

theorem sound_inAttrValue {t : Tag} {attr : Str} (quote : Char) (value : Str) (ht : SoundTag t)
    (ha : isName attr = true) : SoundResult (r.inAttrValue t attr quote value c) := by
  unfold Reader.inAttrValue
  by_cases h₁ : c = quote
  · rw [if_pos h₁]
    by_cases h₂ : attr ∈ t.attrs.map Prod.fst
    · rw [if_pos h₂]
      exact soundResult_none
    · rw [if_neg h₂]
      apply soundResult_go r
      constructor
      · exact ht.name
      · intro a hmem
        rcases List.mem_append.mp hmem with hmem | hmem
        · exact ht.attrs a hmem
        · rw [List.mem_singleton.mp hmem]
          exact ha
      · rw [List.map_append]
        refine List.nodup_append.mpr ⟨ht.distinct, List.nodup_singleton _, ?_⟩
        intro a hmem b hb heq
        have hattr : b = attr := List.mem_singleton.mp hb
        rw [heq, hattr] at hmem
        exact h₂ hmem
  rw [if_neg h₁]
  split_ifs
  · exact soundResult_none
  · exact soundResult_go r ⟨ht, ha⟩
  · exact soundResult_go r ⟨ht, ha⟩
  · exact soundResult_go r ⟨ht, ha⟩

theorem sound_inBang (seen : Str) : SoundResult (r.inBang seen c) := by
  unfold Reader.inBang
  dsimp only
  split_ifs
  · exact soundResult_go r trivial
  · exact soundResult_go r trivial
  · exact soundResult_none
  · exact soundResult_go r trivial
  · exact soundResult_go r trivial
  · exact soundResult_none

theorem sound_inCdata (k : ℕ) : SoundResult (r.inCdata k c) := by
  unfold Reader.inCdata
  split_ifs
  · exact soundResult_go r trivial
  · exact soundResult_chars r [']'] trivial
  · exact soundResult_go r trivial
  · have hchars : List.replicate k (.char ']') ++ [.char c] =
        (List.replicate k ']' ++ [c]).map Token.char := by
      rw [List.map_append, List.map_replicate]
      rfl
    rw [hchars]
    exact soundResult_chars r _ trivial

theorem sound_inTarget (first : Bool) (name : Str) : SoundResult (r.inTarget first name c) := by
  unfold Reader.inTarget
  by_cases h₁ : name = []
  · rw [if_pos h₁]
    split_ifs
    · exact soundResult_go r trivial
    · exact soundResult_none
  rw [if_neg h₁]
  by_cases h₂ : isNameChar c = true
  · rw [if_pos h₂]
    exact soundResult_go r trivial
  rw [if_neg h₂]
  cases isDeclTarget first name with
  | none => exact soundResult_none
  | some decl =>
      dsimp only
      split_ifs
      · exact soundResult_go r trivial
      · exact soundResult_go r trivial
      · exact soundResult_none

theorem sound_inInstruction (decl : Bool) (body : Str) (question : Bool) :
    SoundResult (r.inInstruction decl body question c) := by
  unfold Reader.inInstruction
  dsimp only
  split_ifs
  · exact soundResult_none
  · exact soundResult_go r (soundMode_home _)
  · exact soundResult_go r trivial
  · exact soundResult_go r trivial
  · exact soundResult_go r trivial
  · exact soundResult_go r trivial

/-- A reference either goes on or ends where `done` says. -/
theorem sound_inReference (body : Str) {more : Str → Mode} {done : Char → Result}
    (hmore : ∀ b, SoundMode (more b)) (hdone : ∀ d, SoundResult (done d)) :
    SoundResult (r.inReference body c more done) := by
  unfold Reader.inReference
  split_ifs
  · intro r' ts h
    obtain ⟨d, _, hd⟩ := Option.bind_eq_some_iff.mp h
    exact hdone d r' ts hd
  · exact soundResult_go r (hmore _)
  · exact soundResult_none

theorem sound_lex (hm : SoundMode r.mode) : SoundResult (r.lex c) := by
  rcases r with ⟨mode, stack, seen, cr⟩
  cases mode with
  | outside first =>
      simp only [Reader.lex]
      split_ifs
      · exact soundResult_go _ trivial
      · exact soundResult_go _ trivial
      · exact soundResult_none
  | content k => exact sound_inContent _ c k
  | reference body =>
      apply sound_inReference _ c body
      · exact fun _ => trivial
      · exact fun d => soundResult_chars _ [d] trivial
  | opened first => exact sound_inMarkup _ c first
  | bang text => exact sound_inBang _ c text
  | comment dashes =>
      rcases dashes with _ | _ | n
      · exact soundResult_go _ trivial
      · exact soundResult_go _ trivial
      · simp only [Reader.lex]
        split_ifs
        · exact soundResult_go _ (soundMode_home _)
        · exact soundResult_none
  | cdata k => exact sound_inCdata _ c k
  | target first name => exact sound_inTarget _ c first name
  | targetEnd decl =>
      simp only [Reader.lex]
      split_ifs
      · exact soundResult_go _ (soundMode_home _)
      · exact soundResult_none
  | instruction decl body question => exact sound_inInstruction _ c decl body question
  | startName name =>
      simp only [Reader.lex]
      split_ifs with h₁
      · exact soundResult_go _ (isName_snoc hm h₁)
      · exact sound_tagEnd _ c ⟨hm, fun _ ha => (List.not_mem_nil ha).elim, List.nodup_nil⟩
  | inTag t =>
      simp only [Reader.lex, Reader.inTag]
      split_ifs with h₁
      · exact soundResult_go _ ⟨hm, isName_single h₁⟩
      · exact sound_tagEnd _ c hm
  | attrName t attr => exact sound_inAttrName _ c hm.1 hm.2
  | attrEq t attr =>
      simp only [Reader.lex]
      split_ifs
      · exact soundResult_go _ hm
      · exact soundResult_go _ hm
      · exact soundResult_none
  | attrQuote t attr =>
      simp only [Reader.lex]
      split_ifs
      · exact soundResult_go _ hm
      · exact soundResult_go _ hm
      · exact soundResult_none
  | attrValue t attr quote value => exact sound_inAttrValue _ c quote value hm.1 hm.2
  | attrReference t attr quote value body =>
      apply sound_inReference _ c body
      · exact fun _ => hm
      · exact fun d => soundResult_go _ hm
  | afterValue t => exact sound_tagEnd _ c hm
  | emptyTag t =>
      simp only [Reader.lex]
      split_ifs
      · intro r' ts h
        cases h
        refine ⟨soundMode_home _, ?_⟩
        exact List.forall_mem_cons.mpr ⟨hm, List.forall_mem_singleton.mpr trivial⟩
      · exact soundResult_none
  | endName name =>
      simp only [Reader.lex]
      split_ifs
      · exact soundResult_go _ trivial
      · exact soundResult_none
      · exact sound_endTag _ name
      · exact soundResult_go _ trivial
      · exact soundResult_none
  | endTag name =>
      simp only [Reader.lex]
      split_ifs
      · exact sound_endTag _ name
      · exact soundResult_go _ trivial
      · exact soundResult_none

end Lex

theorem sound_step (r : Reader) (c : Char) (hm : SoundMode r.mode) : SoundResult (r.step c) := by
  unfold Reader.step
  split_ifs
  · exact soundResult_none
  · exact soundResult_go { r with cr := false } hm
  · exact sound_lex { r with cr := true } '\n' hm
  · exact sound_lex { r with cr := false } c hm

theorem sound_feed {r r' : Reader} {cs : Str} {ts : List Token} (hm : SoundMode r.mode)
    (h : r.feed cs = some (r', ts)) : ∀ t ∈ ts, SoundToken t := by
  have hstep : ∀ s : Reader, ∀ c ∈ cs, SoundMode s.mode → SoundResult (s.step c) :=
    fun s c _ hs => sound_step s c hs
  exact (feed_invariant hstep hm h).2

theorem sound_of_denotes {text : Str} {d : Node} (h : Denotes text d) :
    ∀ t ∈ d.tokens, SoundToken t := by
  obtain ⟨r, hfeed, _⟩ := h
  exact sound_feed (r := Reader.init) trivial hfeed

end Stabber.XmlSoundness
