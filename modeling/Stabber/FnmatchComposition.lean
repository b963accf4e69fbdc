import Stabber.Fnmatch
import Mathlib.Data.List.Infix

/-!
# Patterns without quoting

A pattern in which no character opens a bracket expression or quotes the next
one is read character by character. Such a pattern matches itself, and patterns
whose only wildcard is the star compose: what a pattern matches, taken as a
pattern, matches no more than it does.
-/

namespace Stabber.Fnmatch
open XmlDocument Utf8

/-- No character opens a bracket expression, and none quotes the next one. -/
def Unquoted (pattern : Str) : Prop := '[' ∉ pattern ∧ '\\' ∉ pattern

/-- The star is the only wildcard. -/
def StarOnly (pattern : Str) : Prop := '?' ∉ pattern ∧ Unquoted pattern

/-- The piece of a character on its own. -/
def charPiece (c : Char) : Piece :=
  if c = '*' then .many else if c = '?' then .any else .literal c

theorem Unquoted.tail {c : Char} {cs : Str} (h : Unquoted (c :: cs)) : Unquoted cs :=
  ⟨fun hm => h.1 (List.mem_cons_of_mem _ hm), fun hm => h.2 (List.mem_cons_of_mem _ hm)⟩

theorem Unquoted.head {c : Char} {cs : Str} (h : Unquoted (c :: cs)) : c ≠ '[' ∧ c ≠ '\\' := by
  constructor
  · intro hc
    exact h.1 (hc ▸ List.mem_cons_self)
  · intro hc
    exact h.2 (hc ▸ List.mem_cons_self)

theorem StarOnly.tail {c : Char} {cs : Str} (h : StarOnly (c :: cs)) : StarOnly cs :=
  ⟨fun hm => h.1 (List.mem_cons_of_mem _ hm), h.2.tail⟩

theorem StarOnly.charPiece_head {c : Char} {cs : Str} (h : StarOnly (c :: cs)) (hc : c ≠ '*') :
    charPiece c = .literal c := by
  have hq : c ≠ '?' := fun hq => h.1 (hq ▸ List.mem_cons_self)
  rw [charPiece, if_neg hc, if_neg hq]

theorem pieces_of_unquoted (pattern : Str) (fuel : ℕ) (h : Unquoted pattern)
    (hfuel : pattern.length ≤ fuel) : pieces fuel pattern = some (pattern.map charPiece) := by
  induction pattern generalizing fuel with
  | nil => cases fuel <;> rfl
  | cons c cs ih =>
      rcases fuel with _ | fuel
      · simp at hfuel
      have hcs := ih fuel h.tail (by simpa using hfuel)
      have hhead := h.head
      unfold pieces
      split
      · rw [hcs]
        rfl
      · rw [hcs]
        rfl
      · exact (hhead.2 rfl).elim
      · exact (hhead.1 rfl).elim
      · rename_i hstar hany _ _
        rw [hcs, List.map_cons, charPiece, if_neg hstar, if_neg hany]
        rfl

theorem matchChars_of_unquoted {pattern : Str} (h : Unquoted pattern) (s : Str) :
    matchChars pattern s = matchPieces (pattern.map charPiece) s := by
  rw [matchChars, pieces_of_unquoted pattern _ h le_rfl]

/-- A star takes some first part of the string. -/
theorem matchPieces_many (ps : List Piece) (s : Str) :
    matchPieces (.many :: ps) s = true ↔ ∃ u v, s = u ++ v ∧ matchPieces ps v = true := by
  rw [matchPieces, List.any_eq_true]
  constructor
  · rintro ⟨v, hv, hmatch⟩
    obtain ⟨u, hu⟩ := (List.mem_tails _ _).mp hv
    exact ⟨u, v, hu.symm, hmatch⟩
  · rintro ⟨u, v, rfl, hmatch⟩
    exact ⟨v, (List.mem_tails _ _).mpr (List.suffix_append u v), hmatch⟩

/-- Any other piece takes one character. -/
theorem matchPieces_cons {p : Piece} (hp : p ≠ .many) (ps : List Piece) (s : Str) :
    matchPieces (p :: ps) s = true ↔
      ∃ c t, s = c :: t ∧ p.accepts c = true ∧ matchPieces ps t = true := by
  rcases s with _ | ⟨c, t⟩
  · simp [matchPieces]
  · rw [matchPieces, Bool.and_eq_true]
    · constructor
      · rintro ⟨hc, ht⟩
        exact ⟨c, t, rfl, hc, ht⟩
      · rintro ⟨c', t', hct, hc, ht⟩
        rw [List.cons.injEq] at hct
        exact ⟨hct.1 ▸ hc, hct.2 ▸ ht⟩
    · exact hp

/-- The two parts of a pattern match two parts of the string. -/
theorem matchPieces_append (ps qs : List Piece) (s : Str) :
    matchPieces (ps ++ qs) s = true ↔
      ∃ u v, s = u ++ v ∧ matchPieces ps u = true ∧ matchPieces qs v = true := by
  induction ps generalizing s with
  | nil => simp [matchPieces]
  | cons p ps ih =>
      by_cases hp : p = .many
      · subst hp
        rw [List.cons_append, matchPieces_many]
        constructor
        · rintro ⟨u, v, rfl, h⟩
          obtain ⟨v₁, v₂, rfl, h₁, h₂⟩ := (ih v).mp h
          exact ⟨u ++ v₁, v₂, by simp, (matchPieces_many _ _).mpr ⟨u, v₁, rfl, h₁⟩, h₂⟩
        · rintro ⟨u, v, rfl, h₁, h₂⟩
          obtain ⟨u₁, u₂, rfl, h₃⟩ := (matchPieces_many _ _).mp h₁
          exact ⟨u₁, u₂ ++ v, by simp, (ih _).mpr ⟨u₂, v, rfl, h₃, h₂⟩⟩
      · rw [List.cons_append, matchPieces_cons hp]
        constructor
        · rintro ⟨c, t, rfl, hc, h⟩
          obtain ⟨t₁, t₂, rfl, h₁, h₂⟩ := (ih t).mp h
          exact ⟨c :: t₁, t₂, by simp, (matchPieces_cons hp _ _).mpr ⟨c, t₁, rfl, hc, h₁⟩, h₂⟩
        · rintro ⟨u, v, rfl, h₁, h₂⟩
          obtain ⟨c, t₁, rfl, hc, h₃⟩ := (matchPieces_cons hp _ _).mp h₁
          exact ⟨c, t₁ ++ v, by simp, hc, (ih _).mpr ⟨t₁, v, rfl, h₃, h₂⟩⟩

theorem matchChars_self {pattern : Str} (h : Unquoted pattern) :
    matchChars pattern pattern = true := by
  rw [matchChars_of_unquoted h]
  clear h
  induction pattern with
  | nil => rfl
  | cons c cs ih =>
      rw [List.map_cons]
      by_cases hstar : c = '*'
      · rw [charPiece, if_pos hstar]
        exact (matchPieces_many _ _).mpr ⟨[c], cs, rfl, ih⟩
      · by_cases hany : c = '?'
        · rw [charPiece, if_neg hstar, if_pos hany]
          exact (matchPieces_cons (by simp) _ _).mpr ⟨c, cs, rfl, rfl, ih⟩
        · rw [charPiece, if_neg hstar, if_neg hany]
          exact (matchPieces_cons (by simp) _ _).mpr ⟨c, cs, rfl, by simp [Piece.accepts], ih⟩

theorem matchChars_literal {pattern : Str} (hstar : '*' ∉ pattern) (h : StarOnly pattern)
    (s : Str) : matchChars pattern s = true ↔ s = pattern := by
  rw [matchChars_of_unquoted h.2]
  induction pattern generalizing s with
  | nil => simp [matchPieces]
  | cons c cs ih =>
      have hc : c ≠ '*' := fun hc => hstar (hc ▸ List.mem_cons_self)
      have htail : '*' ∉ cs := fun hm => hstar (List.mem_cons_of_mem _ hm)
      rw [List.map_cons, h.charPiece_head hc, matchPieces_cons (by simp)]
      constructor
      · rintro ⟨d, t, rfl, hd, ht⟩
        have hdc : d = c := by simpa [Piece.accepts] using hd
        rw [hdc, (ih htail h.tail t).mp ht]
      · rintro rfl
        exact ⟨c, cs, rfl, by simp [Piece.accepts], (ih htail h.tail cs).mpr rfl⟩

/-- What matches a pattern, as a pattern, matches no string that the first does
not. The induction is on the first pattern; where it has a star, the second
splits, and with it the string. -/
theorem matchChars_trans {p q : Str} (hp : StarOnly p) (hq : StarOnly q)
    (hpq : matchChars p q = true) {s : Str} (hqs : matchChars q s = true) :
    matchChars p s = true := by
  rw [matchChars_of_unquoted hp.2] at hpq ⊢
  rw [matchChars_of_unquoted hq.2] at hqs
  clear hq
  induction p generalizing q s with
  | nil =>
      have hq : q = [] := by simpa [matchPieces] using hpq
      rw [hq] at hqs
      exact hqs
  | cons c cs ih =>
      rw [List.map_cons] at hpq ⊢
      by_cases hc : c = '*'
      · rw [charPiece, if_pos hc] at hpq ⊢
        obtain ⟨q₁, q₂, rfl, hq₂⟩ := (matchPieces_many _ _).mp hpq
        rw [List.map_append] at hqs
        obtain ⟨s₁, s₂, rfl, -, hs₂⟩ := (matchPieces_append _ _ _).mp hqs
        exact (matchPieces_many _ _).mpr ⟨s₁, s₂, rfl, ih hp.tail hq₂ hs₂⟩
      · have hpiece := hp.charPiece_head hc
        rw [hpiece] at hpq ⊢
        obtain ⟨d, q', rfl, hd, hq'⟩ := (matchPieces_cons (by simp) _ _).mp hpq
        have hdc : d = c := by simpa [Piece.accepts] using hd
        rw [List.map_cons, hdc, hpiece] at hqs
        obtain ⟨e, s', rfl, he, hs'⟩ := (matchPieces_cons (by simp) _ _).mp hqs
        exact (matchPieces_cons (by simp) _ _).mpr ⟨e, s', rfl, he, ih hp.tail hq' hs'⟩

/-! ## Bytes -/

/-- The characters of the bytes tell the bytes. -/
theorem ofNat_toNat_inj {b c : UInt8} (h : Char.ofNat b.toNat = Char.ofNat c.toNat) : b = c := by
  have hvalid : ∀ d : UInt8, (Char.ofNat d.toNat).toNat = d.toNat := by
    intro d
    have hd : d.toNat < 256 := d.toNat_lt
    rw [Char.ofNat, dif_pos (Or.inl (by omega))]
    rfl
  have hnat := congrArg Char.toNat h
  rw [hvalid, hvalid] at hnat
  exact UInt8.toNat_inj.mp hnat

theorem byteChars_inj {s t : Str} (h : byteChars s = byteChars t) : s = t := by
  have hbytes : utf8 s = utf8 t := List.map_injective_iff.mpr (fun _ _ => ofNat_toNat_inj) h
  exact utf8_inj hbytes

/-- An ASCII character is only the byte of itself. -/
theorem mem_of_mem_byteChars {c : Char} {b : UInt8} (hc : String.utf8EncodeChar c = [b])
    (hb : Ascii b ∧ c = Char.ofNat b.toNat) {s : Str} (h : c ∈ byteChars s) : c ∈ s := by
  obtain ⟨b', hb', hsame⟩ := List.mem_map.mp h
  rw [hb.2] at hsame
  obtain rfl := ofNat_toNat_inj hsame
  obtain ⟨d, hd, hmem⟩ := List.mem_flatMap.mp hb'
  have henc := utf8EncodeChar_of_ascii hmem hb.1
  have hdc : d = c := @head_eq_of_append_eq d c [] [] (by rw [henc, hc])
  rw [← hdc]
  exact hd

theorem Unquoted.byteChars {pattern : Str} (h : Unquoted pattern) :
    Unquoted (byteChars pattern) :=
  ⟨fun hmem => h.1 (mem_of_mem_byteChars (b := 91) (by decide) (by decide) hmem),
    fun hmem => h.2 (mem_of_mem_byteChars (b := 92) (by decide) (by decide) hmem)⟩

theorem StarOnly.byteChars {pattern : Str} (h : StarOnly pattern) :
    StarOnly (byteChars pattern) :=
  ⟨fun hmem => h.1 (mem_of_mem_byteChars (b := 63) (by decide) (by decide) hmem), h.2.byteChars⟩

/-- A pattern without quoting matches itself. -/
theorem fnmatch_self {pattern : Str} (h : Unquoted pattern) : fnmatch pattern pattern = true :=
  matchChars_self h.byteChars

/-- A pattern without wildcards matches one string. -/
theorem fnmatch_literal {pattern : Str} (hstar : '*' ∉ pattern) (h : StarOnly pattern) (s : Str) :
    fnmatch pattern s = true ↔ s = pattern := by
  have hnot : '*' ∉ byteChars pattern :=
    fun hmem => hstar (mem_of_mem_byteChars (b := 42) (by decide) (by decide) hmem)
  rw [fnmatch, matchChars_literal hnot h.byteChars]
  exact ⟨byteChars_inj, congrArg byteChars⟩

theorem fnmatch_trans {p q : Str} (hp : StarOnly p) (hq : StarOnly q) (hpq : fnmatch p q = true)
    {s : Str} (hqs : fnmatch q s = true) : fnmatch p s = true :=
  matchChars_trans hp.byteChars hq.byteChars hpq hqs

end Stabber.Fnmatch
