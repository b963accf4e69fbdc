import Stabber.StanzaTemplates
import Stabber.StubReplies

/-!
# Waiting for an id

`server_wait_for` polls the store for a stanza that `stanzas_contains_id` accepts.
A stub primed under the same key is looked up by other strings of the stanza.
-/

namespace Stabber.Waiting
open XmlDocument Stanza Stanzas StanzaParse Fnmatch Priming StubReplies

/-- The name and the id of a stanza in one string. -/
def fullId (name id : Str) : Str := name ++ ":".toList ++ id

section Polls
variable {α : Type} (view : α → XMPPStanza) (id : Str) (stores : ℕ → List α)

/-- The remaining polls of the loop, where the stores are those that the polls find:
the number of the poll that ends the wait. -/
def poll : ℕ → ℕ → Option ℕ
  | 0, _ => none
  | remaining + 1, retries =>
      if stanzasContainsId view (stores retries) id then some retries
      else poll remaining (retries + 1)

def serverWaitFor : Option ℕ := poll view id stores 500 0

/-- The loop ends at the first poll that finds the id. -/
theorem poll_found {remaining retries n : ℕ} (hn : retries ≤ n) (hlt : n < retries + remaining)
    (h : stanzasContainsId view (stores n) id = true) :
    ∃ m ≤ n, poll view id stores remaining retries = some m := by
  induction remaining generalizing retries with
  | zero => omega
  | succ remaining ih =>
      rw [poll]
      split_ifs with hnow
      · exact ⟨retries, hn, rfl⟩
      · have hne : n ≠ retries := by
          rintro rfl
          exact hnow h
        exact ih (by omega) (by omega)

theorem serverWaitFor_found {n : ℕ} (hn : n < 500)
    (h : stanzasContainsId view (stores n) id = true) :
    ∃ m ≤ n, serverWaitFor view id stores = some m :=
  poll_found view id stores (Nat.zero_le n) (by omega) h

end Polls

/-- A stanza with this name and this id is in the store. -/
def Holds {α : Type} (view : α → XMPPStanza) (store : List α) (name id : Str) : Prop :=
  ∃ s ∈ store, (view s).name = name ∧ stanzaGetId (some (view s)) = some id

/-- The id is found in every store with such a stanza, and a wait ends with the first
poll of one at the latest. -/
structure Recognised (key name id : Str) : Prop where
  contains : ∀ {α : Type} (view : α → XMPPStanza) (store : List α), Holds view store name id →
    stanzasContainsId view store key = true
  wait : ∀ {α : Type} (view : α → XMPPStanza) (stores : ℕ → List α) (n : ℕ), n < 500 →
    Holds view (stores n) name id → ∃ m ≤ n, serverWaitFor view key stores = some m

/-- The stub primed under this key and no other is the one that answers. -/
def StubFound (key stub name id : Str) : Prop :=
  ∀ order p, stubFor order (primeForId key stub (primeFreeAll p)) name id = some stub

theorem primeGetForId_alone (order : KeyOrder) (key stub : Str) (p : Primed) (id : Str) :
    primeGetForId order (primeForId key stub (primeFreeAll p)) id =
      if key = id ∨ fnmatch key id = true then some stub else none := by
  have hkeys : order.keys [key] = [key] := List.perm_singleton.mp (order.perm [key])
  have hstubs : (primeForId key stub (primeFreeAll p)).idstubs = some [(key, stub)] := rfl
  rw [primeGetForId, hstubs, Option.bind_some]
  by_cases hid : id = key
  · simp [Table.lookup, hid]
  · have hne : ¬ key = id := fun h => hid h.symm
    by_cases hmatch : fnmatch key id = true
    · simp [Table.lookup, hid, hkeys, hmatch]
    · simp [Table.lookup, hid, hne, hkeys, hmatch]

/-- By which strings `id_callback` selects the stub. -/
theorem stubFound_iff (key stub name id : Str) : StubFound key stub name id ↔
    (key = id ∨ fnmatch key id = true) ∨
      key = fullId name id ∨ fnmatch key (fullId name id) = true := by
  have hfor : ∀ order p, stubFor order (primeForId key stub (primeFreeAll p)) name id =
      if (key = id ∨ fnmatch key id = true) ∨
        key = fullId name id ∨ fnmatch key (fullId name id) = true then some stub else none := by
    intro order p
    rw [stubFor, primeGetForId_alone, ← fullId, primeGetForId_alone]
    by_cases hid : key = id ∨ fnmatch key id = true
    · rw [if_pos hid, if_pos (Or.inl hid)]
    · rw [if_neg hid]
      simp only [hid, false_or]
  constructor
  · intro h
    have hfound := h .insertion ⟨none, none, none, none⟩
    rw [hfor] at hfound
    by_contra hnone
    rw [if_neg hnone] at hfound
    cases hfound
  · intro h order p
    rw [hfor, if_pos h]

/-- The store is searched by the full id alone. -/
theorem recognised_iff (key name id : Str) :
    Recognised key name id ↔ fnmatch key (fullId name id) = true := by
  have hcontains : fnmatch key (fullId name id) = true → ∀ {α : Type} (view : α → XMPPStanza)
      (store : List α), Holds view store name id → stanzasContainsId view store key = true := by
    intro h α view store hstore
    obtain ⟨s, hs, hname, hid⟩ := hstore
    rw [stanzasContainsId, List.any_eq_true]
    exact ⟨s, hs, by simpa only [hid, hname, fullId] using h⟩
  constructor
  · intro h
    let s : XMPPStanza := ⟨name, [⟨"id".toList, id⟩], [], none⟩
    have hid : stanzaGetId (some s) = some id := by simp [stanzaGetId, stanzaGetAttr, s]
    have hfound := h.contains (fun s => s) [s] ⟨s, List.mem_singleton_self s, rfl, hid⟩
    rw [stanzasContainsId, List.any_cons, List.any_nil, Bool.or_false, hid] at hfound
    exact hfound
  · intro h
    refine ⟨hcontains h, ?_⟩
    intro α view stores n hn hstore
    exact serverWaitFor_found view key stores hn (hcontains h _ _ hstore)

/-- Where a stub primed under the key would answer a stanza, a wait for the key
recognises the stanza. -/
def Agree (key name id : Str) : Prop :=
  ∀ stub, StubFound key stub name id → Recognised key name id

/-- Waiting and answering agree but for the keys that select the stub by the id alone,
or by being the full id, and do not match the full id as a pattern. -/
theorem wait_agrees_iff (key name id : Str) : Agree key name id ↔
    ¬ ((key = id ∨ fnmatch key id = true ∨ key = fullId name id) ∧
      fnmatch key (fullId name id) = false) := by
  simp only [Agree, stubFound_iff, recognised_iff, forall_const]
  cases fnmatch key (fullId name id)
  · simp [or_assoc]
  · simp

/-- An id without wildcards is never enough to be recognised. -/
theorem plain_id_disagrees {id : Str} (hstar : '*' ∉ id) (hid : StarOnly id) (name : Str) :
    ¬ Agree id name id := by
  intro h
  have hfound := (stubFound_iff id [] name id).mpr (Or.inl (Or.inl rfl))
  have hmatch := (recognised_iff id name id).mp (h [] hfound)
  have hlength := congrArg List.length ((fnmatch_literal hstar hid _).mp hmatch)
  have hcolon : (":".toList).length = 1 := rfl
  simp only [fullId, List.length_append, hcolon] at hlength
  omega

/-- A message with the id `someid`. -/
def someid : XMPPStanza := ⟨"message".toList, [⟨"id".toList, "someid".toList⟩], [], none⟩

/-- A wait for `someid` runs out although the message is there at every poll, and a stub
under `someid` would answer it. -/
theorem wait_for_someid_runs_out :
    StubFound "someid".toList "<ok/>".toList "message".toList "someid".toList ∧
    Holds (fun s => s) [someid] "message".toList "someid".toList ∧
    stanzasContainsId (fun s => s) [someid] "someid".toList = false ∧
    serverWaitFor (fun s => s) "someid".toList (fun _ => [someid]) = none := by
  constructor
  · exact (stubFound_iff _ _ _ _).mpr (Or.inl (Or.inl rfl))
  · exact ⟨⟨someid, List.mem_singleton_self _, rfl, rfl⟩, by decide +kernel, by decide +kernel⟩

end Stabber.Waiting
