import Stabber.XmlDocument
import Mathlib.Data.Nat.Notation
import Mathlib.Data.List.Induction

/-!
# Prefixes of encoded text

A sequence of bytes that is cut anywhere in the encoding of a text may end inside
a character. A cut right after an ASCII byte does not, so a marker in ASCII that
ends at the cut is a marker in the text.
-/

namespace Stabber.Utf8
open XmlDocument

def utf8 (s : List Char) : List UInt8 := s.flatMap String.utf8EncodeChar

@[simp] theorem utf8_nil : utf8 [] = [] := rfl

@[simp] theorem utf8_cons (c : Char) (s : List Char) :
    utf8 (c :: s) = String.utf8EncodeChar c ++ utf8 s := rfl

@[simp] theorem utf8_append (s t : List Char) : utf8 (s ++ t) = utf8 s ++ utf8 t := by
  unfold utf8
  exact List.flatMap_append

/-- The byte of an ASCII character. -/
def Ascii (b : UInt8) : Prop := b.toNat < 128

instance (b : UInt8) : Decidable (Ascii b) := inferInstanceAs (Decidable (_ < _))

theorem head_eq_of_append_eq {c d : Char} {bs cs : List UInt8}
    (h : String.utf8EncodeChar c ++ bs = String.utf8EncodeChar d ++ cs) : c = d := by
  have hbytes := congrArg List.toByteArray h
  rw [List.toByteArray_append, List.toByteArray_append] at hbytes
  have hdecode := congrArg (ByteArray.utf8DecodeChar? · 0) hbytes
  simp only [ByteArray.utf8DecodeChar?_utf8EncodeChar_append] at hdecode
  exact Option.some.inj hdecode

/-- Only the encoding of a text's prefix is both encoded text and a prefix of the
encoding. -/
theorem prefix_of_utf8_prefix {s t : List Char} (h : utf8 s <+: utf8 t) : s <+: t := by
  induction s generalizing t with
  | nil => exact List.nil_prefix
  | cons c s ih =>
      obtain ⟨bs, hbs⟩ := h
      cases t with
      | nil =>
          rw [utf8_cons, utf8_nil, List.append_assoc] at hbs
          have hne := String.utf8EncodeChar_ne_nil (c := c)
          exact (hne (List.append_eq_nil_iff.mp hbs).1).elim
      | cons d t =>
          rw [utf8_cons, utf8_cons, List.append_assoc] at hbs
          have hcd := head_eq_of_append_eq hbs
          subst hcd
          exact List.cons_prefix_cons.mpr ⟨rfl, ih ⟨bs, List.append_cancel_left hbs⟩⟩

theorem utf8_inj {s t : List Char} (h : utf8 s = utf8 t) : s = t := by
  have hst : s <+: t := prefix_of_utf8_prefix (h ▸ List.prefix_rfl)
  have hts : t <+: s := prefix_of_utf8_prefix (h ▸ List.prefix_rfl)
  exact hst.eq_of_length_le hts.length_le

theorem high_or (x y : UInt8) (hy : 128 ≤ y.toNat) : ¬ Ascii (x ||| y) := by
  unfold Ascii
  rw [UInt8.toNat_or]
  have hle : y.toNat ≤ x.toNat ||| y.toNat := Nat.right_le_or
  omega

/-- An ASCII byte is never part of a longer encoding. -/
theorem utf8EncodeChar_of_ascii {c : Char} {b : UInt8} (hb : b ∈ String.utf8EncodeChar c)
    (ha : Ascii b) : String.utf8EncodeChar c = [b] := by
  rcases Char.utf8Size_eq c with h | h | h | h
  · rw [String.utf8EncodeChar_eq_singleton h, List.mem_singleton] at hb
    rw [String.utf8EncodeChar_eq_singleton h, hb]
  · rw [String.utf8EncodeChar_eq_cons_cons h] at hb
    simp only [List.mem_cons, List.not_mem_nil, or_false] at hb
    rcases hb with rfl | rfl <;> exact (high_or _ _ (by decide) ha).elim
  · rw [String.utf8EncodeChar_eq_cons_cons_cons h] at hb
    simp only [List.mem_cons, List.not_mem_nil, or_false] at hb
    rcases hb with rfl | rfl | rfl <;> exact (high_or _ _ (by decide) ha).elim
  · rw [String.utf8EncodeChar_eq_cons_cons_cons_cons h] at hb
    simp only [List.mem_cons, List.not_mem_nil, or_false] at hb
    rcases hb with rfl | rfl | rfl | rfl <;> exact (high_or _ _ (by decide) ha).elim

/-- A cut right after an ASCII byte falls between two characters. -/
theorem utf8_of_prefix {t : List Char} {bs : List UInt8} {b : UInt8} (ha : Ascii b)
    (h : bs ++ [b] <+: utf8 t) : ∃ s, s <+: t ∧ bs ++ [b] = utf8 s := by
  induction t generalizing bs with
  | nil =>
      rw [utf8_nil, List.prefix_nil] at h
      exact (List.append_ne_nil_of_right_ne_nil bs (List.cons_ne_nil b []) h).elim
  | cons c t ih =>
      rcases prefix_append_cases h with ⟨hpart, hlen⟩ | ⟨vs, hvs, hrest⟩
      · have hmem : b ∈ String.utf8EncodeChar c :=
          hpart.subset (List.mem_append_right bs List.mem_cons_self)
        rw [utf8EncodeChar_of_ascii hmem ha, List.length_append] at hlen
        simp only [List.length_cons, List.length_nil] at hlen
        omega
      · rcases List.eq_nil_or_concat vs with rfl | ⟨cs, d, rfl⟩
        · rw [List.append_nil] at hvs
          exact ⟨[c], List.cons_prefix_cons.mpr ⟨rfl, List.nil_prefix⟩, by
            rw [hvs, utf8_cons, utf8_nil, List.append_nil]⟩
        · rw [List.concat_eq_append, ← List.append_assoc] at hvs
          have hbd : b = d := List.singleton_inj.mp (List.append_inj_right' hvs rfl)
          subst hbd
          rw [List.concat_eq_append] at hrest
          obtain ⟨s, hs, henc⟩ := ih hrest
          refine ⟨c :: s, List.cons_prefix_cons.mpr ⟨rfl, hs⟩, ?_⟩
          rw [hvs, List.append_assoc, henc, utf8_cons]

/-- The last character of a text whose encoding ends in an ASCII byte. -/
theorem utf8EncodeChar_of_last {c : Char} {bs cs : List UInt8} {b : UInt8} (ha : Ascii b)
    (h : bs ++ [b] = cs ++ String.utf8EncodeChar c) : String.utf8EncodeChar c = [b] := by
  rcases List.eq_nil_or_concat (String.utf8EncodeChar c) with hnil | ⟨ds, d, hd⟩
  · exact (String.utf8EncodeChar_ne_nil hnil).elim
  · rw [List.concat_eq_append] at hd
    rw [hd, ← List.append_assoc] at h
    have hbd : b = d := List.singleton_inj.mp (List.append_inj_right' h rfl)
    subst hbd
    exact utf8EncodeChar_of_ascii (by simp [hd]) ha

/-- A text whose encoding ends in an ASCII marker ends in that marker. -/
theorem suffix_of_utf8_suffix {s m : List Char} (hm : ∀ b ∈ utf8 m, Ascii b)
    (h : utf8 m <:+ utf8 s) : m <:+ s := by
  induction m using List.reverseRecOn generalizing s with
  | nil => exact List.nil_suffix
  | append_singleton m c ih =>
      obtain ⟨bs, hbs⟩ := h
      rw [utf8_append, utf8_cons, utf8_nil, List.append_nil, ← List.append_assoc] at hbs
      rcases List.eq_nil_or_concat (String.utf8EncodeChar c) with hnil | ⟨cs, b, hb⟩
      · exact (String.utf8EncodeChar_ne_nil hnil).elim
      rw [List.concat_eq_append] at hb
      have ha : Ascii b := hm b (by simp [hb])
      have hc : String.utf8EncodeChar c = [b] := utf8EncodeChar_of_ascii (by simp [hb]) ha
      rcases List.eq_nil_or_concat s with rfl | ⟨s, d, rfl⟩
      · rw [hc, utf8_nil] at hbs
        exact (List.append_ne_nil_of_right_ne_nil _ (List.cons_ne_nil b []) hbs).elim
      · rw [List.concat_eq_append, utf8_append, utf8_cons, utf8_nil, List.append_nil, hc] at hbs
        have hd : String.utf8EncodeChar d = [b] := utf8EncodeChar_of_last ha hbs
        rw [hd] at hbs
        have hcd : c = d := @head_eq_of_append_eq c d [] [] (by rw [hc, hd])
        subst hcd
        have hrest := List.append_inj_left' hbs rfl
        have hsuffix := ih (fun b hmem => hm b (by simp [hmem])) ⟨bs, hrest⟩
        obtain ⟨p, rfl⟩ := hsuffix
        rw [List.concat_eq_append, List.append_assoc]
        exact List.suffix_append p (m ++ [c])

end Stabber.Utf8
