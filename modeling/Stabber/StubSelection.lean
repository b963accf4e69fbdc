import Stabber.PatternChoice
import Stabber.Waiting

/-!
# Which id stub is selected

`prime_get_for_id` chooses an entry by its key or by a pattern, and GLib's enumeration
of the keys decides between patterns. `id_callback` looks up the id first, and the name
with the id only if nothing is found.
-/

namespace Stabber.StubSelection
open XmlDocument Fnmatch Priming StubReplies Waiting PatternChoice

/-- The key matches as a pattern. -/
def Fits (key s : Str) : Prop := fnmatch key s = true

/-! ## Enumerations -/

-- a name for an instance that both of the following use
local instance lawfulStr : LawfulBEq Str := inferInstance

theorem perm_first (key : Str) (ks : List Str) :
    (if key ∈ ks then key :: ks.erase key else ks).Perm ks := by
  split_ifs with hmem
  · exact (List.perm_cons_erase hmem).symm
  · exact List.Perm.refl ks

/-- An enumeration that begins with this key. -/
def KeyOrder.first (key : Str) : KeyOrder where
  keys ks := if key ∈ ks then key :: ks.erase key else ks
  perm ks := perm_first key ks

theorem lookup_isSome_iff (t : Table Str) (key : Str) :
    (∃ stub, t.lookup key = some stub) ↔ key ∈ t.map Prod.fst := by
  induction t with
  | nil => simp [Table.lookup]
  | cons e t ih =>
      obtain ⟨k, v⟩ := e
      rw [Table.lookup, List.map_cons, List.mem_cons, ← ih]
      split_ifs with hkey
      · simp [hkey]
      · simp [hkey]

section Lookup
variable {p : Primed} {t : Table Str} (ht : p.idstubs = some t) (s : Str)
include ht

theorem primeGetForId_of_lookup_none (order : KeyOrder) (hnone : t.lookup s = none) :
    primeGetForId order p s =
      ((order.keys (t.map Prod.fst)).find? fun key => fnmatch key s).bind t.lookup := by
  rw [primeGetForId, ht, Option.bind_some, hnone]

/-- Every enumeration makes an admissible choice. -/
theorem primeGetForId_chosen (order : KeyOrder) :
    Chosen t.lookup Fits s (primeGetForId order p s) := by
  cases hexact : t.lookup s with
  | some stub =>
      have hget : primeGetForId order p s = some stub := by
        rw [primeGetForId, ht, Option.bind_some, hexact]
      rw [hget]
      exact .exact hexact
  | none =>
      rw [primeGetForId_of_lookup_none ht s order hexact]
      have hkeys := order.perm (t.map Prod.fst)
      cases hfind : (order.keys (t.map Prod.fst)).find? fun key => fnmatch key s with
      | some key =>
          have hmem := hkeys.mem_iff.mp (List.mem_of_find?_eq_some hfind)
          obtain ⟨stub, hstub⟩ := (lookup_isSome_iff t key).mpr hmem
          rw [Option.bind_some, hstub]
          have hfits : fnmatch key s = true := by simpa using List.find?_some hfind
          exact .fitting key hexact hfits hstub
      | none =>
          refine .nothing hexact ?_
          intro key hfits
          rw [List.find?_eq_none] at hfind
          rw [Option.eq_none_iff_forall_ne_some]
          intro stub hstub
          have hmem := (lookup_isSome_iff t key).mp ⟨stub, hstub⟩
          exact hfind key (hkeys.mem_iff.mpr hmem) hfits

/-- Every admissible choice is made in some enumeration. -/
theorem exists_order {a : Option Str} (h : Chosen t.lookup Fits s a) :
    ∃ order, primeGetForId order p s = a := by
  cases h with
  | exact hexact => exact ⟨.insertion, (primeGetForId_chosen ht s _).of_look hexact⟩
  | @fitting stub key hnone hfits hstub =>
      refine ⟨KeyOrder.first key, ?_⟩
      have hmem := (lookup_isSome_iff t key).mp ⟨stub, hstub⟩
      rw [primeGetForId_of_lookup_none ht s _ hnone, KeyOrder.first]
      dsimp only
      rw [if_pos hmem, List.find?_cons_of_pos (p := fun key => fnmatch key s) hfits,
        Option.bind_some, hstub]
  | nothing hnone hall =>
      exact ⟨.insertion, (Chosen.nothing hnone hall).eq_none (primeGetForId_chosen ht s _)⟩

theorem stubFor_chosen (order : KeyOrder) (name : Str) :
    ChosenOf t.lookup Fits s (fullId name s) (stubFor order p name s) := by
  unfold stubFor
  have hfirst := primeGetForId_chosen ht s order
  cases hget : primeGetForId order p s with
  | some stub =>
      rw [hget] at hfirst
      exact .first hfirst
  | none =>
      rw [hget] at hfirst
      exact .second hfirst (primeGetForId_chosen ht (fullId name s) order)

theorem exists_order_stubFor (name : Str) {a : Option Str}
    (h : ChosenOf t.lookup Fits s (fullId name s) a) : ∃ order, stubFor order p name s = a := by
  cases h with
  | first hchosen =>
      obtain ⟨order, horder⟩ := exists_order ht s hchosen
      refine ⟨order, ?_⟩
      rw [stubFor, horder]
  | second hnothing hchosen =>
      obtain ⟨order, horder⟩ := exists_order ht (fullId name s) hchosen
      refine ⟨order, ?_⟩
      rw [stubFor, hnothing.eq_none (primeGetForId_chosen ht s order)]
      exact horder

end Lookup

/-! ## Exact keys and wildcards -/

/-- The tables with these id stubs. -/
def withIds (t : Table Str) (p : Primed) : Primed := { p with idstubs := some t }

/-- For each of the two strings the exact key comes first, but a wildcard for the id
comes before the exact key for the name and the id. -/
theorem exact_before_wildcards (t : Table Str) (p : Primed) (name id : Str) :
    (∀ order, ChosenOf t.lookup Fits id (fullId name id)
      (stubFor order (withIds t p) name id)) ∧
    ((∀ order, ExactFirst t.lookup id (fullId name id) (stubFor order (withIds t p) name id)) ↔
      (t.lookup id = none → ∀ exact_stub, t.lookup (fullId name id) = some exact_stub →
        ∀ key stub, Fits key id → t.lookup key = some stub → stub = exact_stub)) := by
  have hchosen := stubFor_chosen (p := withIds t p) rfl id
  have hiff := @exactFirst_iff _ _ t.lookup Fits id (fullId name id)
  refine ⟨fun order => hchosen order name, ?_⟩
  rw [← hiff]
  constructor
  · intro h a ha
    obtain ⟨order, horder⟩ := exists_order_stubFor (p := withIds t p) rfl id name ha
    rw [← horder]
    exact h order
  · intro h order
    exact h _ (hchosen order name)

/-- A stub for presences with one id, and one for everything. -/
def exactAndWild : Table Str :=
  [("presence:id1".toList, "<exact/>".toList), ("*".toList, "<wild/>".toList)]

theorem wildcard_beats_full_id :
    ¬ ExactFirst exactAndWild.lookup "id1".toList (fullId "presence".toList "id1".toList)
      (stubFor .insertion (withIds exactAndWild ⟨none, none, none, none⟩) "presence".toList
        "id1".toList) := by
  intro h
  have hexact := h.second (by decide) "<exact/>".toList (by decide)
  exact absurd hexact (by decide)

/-! ## Orders of priming and of enumeration -/

/-- Stubs with distinct keys. -/
structure StubSet where
  pairs : Table Str
  distinct : (pairs.map Prod.fst).Nodup

/-- The stubs are primed one after another. -/
def primeAll (pairs : Table Str) (p : Primed) : Primed :=
  pairs.foldl (fun p e => primeForId e.1 e.2 p) (primeInit (primeFreeAll p))

theorem foldl_primeForId {p : Primed} {t : Table Str} (ht : p.idstubs = some t)
    (pairs : Table Str) :
    (pairs.foldl (fun p e => primeForId e.1 e.2 p) p).idstubs =
      some (pairs.foldl (fun t e => t.insert e.1 e.2) t) := by
  induction pairs generalizing p t with
  | nil => exact ht
  | cons e pairs ih =>
      have hone : (primeForId e.1 e.2 p).idstubs = some (t.insert e.1 e.2) := by
        simp [primeForId, ht]
      exact ih hone

/-- With distinct keys every entry stays as it was primed. -/
theorem lookup_foldl_insert (pairs t : Table Str) (hdistinct : (pairs.map Prod.fst).Nodup)
    (key : Str) :
    (pairs.foldl (fun t e => t.insert e.1 e.2) t).lookup key =
      (Table.lookup pairs key).or (t.lookup key) := by
  induction pairs generalizing t with
  | nil => rfl
  | cons e pairs ih =>
      obtain ⟨k, v⟩ := e
      rw [List.map_cons, List.nodup_cons] at hdistinct
      rw [List.foldl_cons, ih _ hdistinct.2, Table.lookup_insert, Table.lookup]
      by_cases hkey : key = k
      · have hnone : Table.lookup pairs key = none := by
          rw [Option.eq_none_iff_forall_ne_some]
          intro stub hstub
          rw [hkey] at hstub
          exact hdistinct.1 ((lookup_isSome_iff pairs k).mp ⟨stub, hstub⟩)
        rw [hnone, if_pos hkey, if_pos hkey]
        rfl
      · rw [if_neg hkey, if_neg hkey]

theorem lookup_eq_some_iff {t : Table Str} (hdistinct : (t.map Prod.fst).Nodup) (key stub : Str) :
    t.lookup key = some stub ↔ (key, stub) ∈ t := by
  induction t with
  | nil => simp [Table.lookup]
  | cons e t ih =>
      obtain ⟨k, v⟩ := e
      rw [List.map_cons, List.nodup_cons] at hdistinct
      rw [Table.lookup, List.mem_cons]
      split_ifs with hkey
      · subst hkey
        have hout : (key, stub) ∉ t := fun hmem =>
          hdistinct.1 (List.mem_map.mpr ⟨_, hmem, rfl⟩)
        simp [hout, eq_comm]
      · simp [hkey, ih hdistinct.2]

namespace StubSet
variable (S : StubSet)

def lookup (key : Str) : Option Str := Table.lookup S.pairs key

/-- In whatever order the stubs are primed, the table has these entries. -/
theorem primeAll_lookup {pairs : Table Str} (hperm : pairs.Perm S.pairs) (p : Primed) :
    ∃ t, (primeAll pairs p).idstubs = some t ∧ t.lookup = S.lookup := by
  refine ⟨_, foldl_primeForId rfl pairs, ?_⟩
  have hdistinct := (hperm.map Prod.fst).nodup_iff.mpr S.distinct
  funext key
  rw [lookup_foldl_insert pairs [] hdistinct, Table.lookup, Option.or_none]
  ext stub
  rw [lookup, lookup_eq_some_iff hdistinct, lookup_eq_some_iff S.distinct, hperm.mem_iff]

/-- Whatever the orders of priming and of enumeration, the selection is the same. -/
def SameSelection (select : KeyOrder → Primed → Option Str) : Prop :=
  ∀ pairs pairs', pairs.Perm S.pairs → pairs'.Perm S.pairs → ∀ order order' p p',
    select order (primeAll pairs p) = select order' (primeAll pairs' p')

/-- A selection that makes exactly the choices of a relation is the same everywhere if
and only if the relation allows one choice. -/
theorem sameSelection_iff {select : KeyOrder → Primed → Option Str} {R : Option Str → Prop}
    (hsound : ∀ order p t, p.idstubs = some t → t.lookup = S.lookup → R (select order p))
    (hcomplete : ∀ p t, p.idstubs = some t → t.lookup = S.lookup →
      ∀ a, R a → ∃ order, select order p = a) :
    S.SameSelection select ↔ ∀ a b, R a → R b → a = b := by
  constructor
  · intro h a b ha hb
    obtain ⟨t, ht, hlookup⟩ := S.primeAll_lookup (List.Perm.refl _) ⟨none, none, none, none⟩
    obtain ⟨order, rfl⟩ := hcomplete _ t ht hlookup a ha
    obtain ⟨order', rfl⟩ := hcomplete _ t ht hlookup b hb
    exact h _ _ (List.Perm.refl _) (List.Perm.refl _) order order' _ _
  · intro h pairs pairs' hpairs hpairs' order order' p p'
    obtain ⟨t, ht, hlookup⟩ := S.primeAll_lookup hpairs p
    obtain ⟨t', ht', hlookup'⟩ := S.primeAll_lookup hpairs' p'
    exact h _ _ (hsound order _ t ht hlookup) (hsound order' _ t' ht' hlookup')

end StubSet

/-- The selection is determined by the stubs exactly if no two patterns with different
stubs compete: for the id unless it is a key itself, and, where nothing is found for the
id, in the same way for the name with the id. -/
theorem selection_determined_iff (S : StubSet) (name id : Str) :
    (S.SameSelection (fun order p => primeGetForId order p id) ↔
      Determined S.lookup Fits id) ∧
    (S.SameSelection (fun order p => stubFor order p name id) ↔
      Determined S.lookup Fits id ∧
        (Chosen S.lookup Fits id none → Determined S.lookup Fits (fullId name id))) := by
  constructor
  · rw [← chosen_unique_iff]
    apply S.sameSelection_iff
    · intro order p t ht hlookup
      rw [← hlookup]
      exact primeGetForId_chosen ht id order
    · intro p t ht hlookup a ha
      rw [← hlookup] at ha
      exact exists_order ht id ha
  · rw [← chosenOf_unique_iff]
    apply S.sameSelection_iff
    · intro order p t ht hlookup
      rw [← hlookup]
      exact stubFor_chosen ht id order name
    · intro p t ht hlookup a ha
      rw [← hlookup] at ha
      exact exists_order_stubFor ht id name ha

/-- Two patterns that both match the id `ab`. -/
def competing : StubSet := ⟨[("a*".toList, "<a/>".toList), ("*b".toList, "<b/>".toList)], by decide⟩

theorem selection_not_determined :
    ¬ competing.SameSelection fun order p => primeGetForId order p "ab".toList := by
  intro h
  have hsame := h competing.pairs competing.pairs.reverse (List.Perm.refl _)
    (List.reverse_perm _) .insertion .insertion ⟨none, none, none, none⟩ ⟨none, none, none, none⟩
  exact absurd hsame (by decide)

end Stabber.StubSelection
