import Stabber.Fnmatch
import Stabber.StanzaParse

/-!
# Primed responses

The stub tables and the required password of `prime.c`. The order in which GLib
enumerates the keys of a hash table is not documented, so it is a parameter.
-/

namespace Stabber.Priming
open XmlDocument Stanza StanzaParse Fnmatch

/-- A table with one value for each key. -/
abbrev Table (α : Type) := List (Str × α)

section Table
variable {α : Type}

def Table.lookup : Table α → Str → Option α
  | [], _ => none
  | (k, v) :: t, key => if key = k then some v else Table.lookup t key

/-- An existing entry gets the new value. -/
def Table.insert : Table α → Str → α → Table α
  | [], key, value => [(key, value)]
  | (k, v) :: t, key, value =>
      if key = k then (k, value) :: t else (k, v) :: Table.insert t key value

theorem Table.lookup_insert (t : Table α) (key : Str) (value : α) (k : Str) :
    (t.insert key value).lookup k = if k = key then some value else t.lookup k := by
  induction t with
  | nil => rfl
  | cons e t ih =>
      rcases e with ⟨k', v⟩
      by_cases hkey : key = k'
      · subst hkey
        by_cases hk : k = key <;> simp [Table.insert, Table.lookup, hk]
      · by_cases hk : k = k'
        · have hne : ¬ k' = key := fun h => hkey h.symm
          simp [Table.insert, Table.lookup, hkey, hk, hne]
        · simp [Table.insert, Table.lookup, hkey, hk, ih]

theorem mem_of_lookup {t : Table α} {key : Str} {value : α}
    (h : t.lookup key = some value) : ∃ e ∈ t, e.2 = value := by
  induction t with
  | nil => cases h
  | cons e t ih =>
      rw [Table.lookup] at h
      split_ifs at h
      · exact ⟨e, List.mem_cons_self, Option.some.inj h⟩
      · obtain ⟨e', he', hvalue⟩ := ih h
        exact ⟨e', List.mem_cons_of_mem _ he', hvalue⟩

end Table

/-- Some enumeration of the keys. -/
structure KeyOrder where
  keys : List Str → List Str
  perm : ∀ ks, (keys ks).Perm ks

def KeyOrder.insertion : KeyOrder := ⟨fun ks => ks, fun _ => List.Perm.refl _⟩

/-- A null table is `none`, and a null stub is the value `none`. -/
structure Primed where
  required_passwd : Option Str
  idstubs : Option (Table Str)
  querystubs : Option (Table (Option XMPPStanza))
  xmlnsstubs : Option (Table (Option XMPPStanza))
deriving Repr

def primeInit (p : Primed) : Primed :=
  match p.idstubs with
  | some _ => p
  | none => ⟨some "password".toList, some [], some [], some []⟩

def primeFreeAll (_ : Primed) : Primed := ⟨none, none, none, none⟩

def primeRequiredPasswd (password : Str) (p : Primed) : Primed :=
  { p with required_passwd := some password }

def primeGetPasswd (p : Primed) : Option Str := p.required_passwd

def primeForId (id stream : Str) (p : Primed) : Primed :=
  let p := if p.idstubs.isNone then primeInit p else p
  { p with idstubs := p.idstubs.map fun t => t.insert id stream }

/-- A stub for exactly this id, or the first whose key matches it as a pattern. -/
def primeGetForId (order : KeyOrder) (p : Primed) (id : Str) : Option Str :=
  p.idstubs.bind fun t =>
    match t.lookup id with
    | some stream => some stream
    | none => ((order.keys (t.map Prod.fst)).find? fun key => fnmatch key id).bind t.lookup

def primeForQuery (E : Expat) (query stream : Str) (p : Primed) : Except Fault Primed := do
  let p := if p.querystubs.isNone then primeInit p else p
  let stanza ← stanzaParse E stream
  return { p with querystubs := p.querystubs.map fun t => t.insert query stanza }

def primeGetForQuery (p : Primed) (query : Str) : Option XMPPStanza :=
  (p.querystubs.bind fun t => t.lookup query).join

def primeForXmlns (E : Expat) (xmlns stream : Str) (p : Primed) : Except Fault Primed := do
  let p := if p.xmlnsstubs.isNone then primeInit p else p
  let stanza ← stanzaParse E stream
  return { p with xmlnsstubs := p.xmlnsstubs.map fun t => t.insert xmlns stanza }

def primeGetForXmlns (p : Primed) (xmlns : Str) : Option XMPPStanza :=
  (p.xmlnsstubs.bind fun t => t.lookup xmlns).join

/-- What is found for an id is an entry of the table. -/
theorem entry_of_primeGetForId {order : KeyOrder} {p : Primed} {id stream : Str}
    (h : primeGetForId order p id = some stream) :
    ∃ t key, p.idstubs = some t ∧ t.lookup key = some stream := by
  obtain ⟨t, ht, hstream⟩ := Option.bind_eq_some_iff.mp h
  cases hlookup : t.lookup id with
  | some value =>
      simp only [hlookup] at hstream
      exact ⟨t, id, ht, hlookup.trans hstream⟩
  | none =>
      simp only [hlookup] at hstream
      obtain ⟨key, -, hkey⟩ := Option.bind_eq_some_iff.mp hstream
      exact ⟨t, key, ht, hkey⟩

/-! ## What a primed stub gives back -/

theorem primeInit_ready (p : Primed) : ∃ t,
    (if p.idstubs.isNone then primeInit p else p).idstubs = some t := by
  cases h : p.idstubs with
  | none =>
      rw [Option.isNone_none, if_pos rfl, primeInit, h]
      exact ⟨[], rfl⟩
  | some t =>
      rw [Option.isNone_some, if_neg (by simp)]
      exact ⟨t, h⟩

theorem primeGetForId_primeForId (order : KeyOrder) (id stream : Str) (p : Primed) :
    primeGetForId order (primeForId id stream p) id = some stream := by
  obtain ⟨t, ht⟩ := primeInit_ready p
  have hlookup : (t.insert id stream).lookup id = some stream := by
    rw [Table.lookup_insert, if_pos rfl]
  unfold primeGetForId primeForId
  dsimp only
  rw [ht, Option.map_some, Option.bind_some, hlookup]

end Stabber.Priming
