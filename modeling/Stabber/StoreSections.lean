import Stabber.CriticalSections
import Stabber.StanzaHistory

/-!
# The store under its lock

The functions of `stanzas.c` as they run, one pass through a loop a step, called by any
number of threads. Each of them is one section under `stanzas_lock`, so that what they do
together are the operations of the store as a whole, one after the other.
-/

namespace Stabber.StoreSections
open XmlDocument Stanza Stanzas Fnmatch StanzaHistory Transition CriticalSections

/-- The functions with the arguments of a call. -/
inductive Operation where
  | stanzasInit
  | stanzasFreeAll
  | store (op : StoreOp)

/-- What a function returns. -/
inductive Answer where
  | void
  | result (found : Bool)
  | toVal (value : Option Str)
deriving DecidableEq

/-- Where a function is in its section. The pointer `curr` is a number of list nodes. -/
inductive Body where
  | init
  | freeAll
  | add (stanza : XMPPStanza)
  | containsId (id_filter : Str) (curr : ℕ)
  | verifyAny (template : XMPPStanza) (clear : Bool) (curr : ℕ)
  | verifyLast (template : XMPPStanza)
  | getToById (id : Option Str) (curr : ℕ)

def enter : Operation → Body
  | .stanzasInit => .init
  | .stanzasFreeAll => .freeAll
  | .store (.add stanza) => .add stanza
  | .store (.containsId id_filter) => .containsId id_filter 0
  | .store (.verifyAny template clear) => .verifyAny template clear 0
  | .store (.verifyLast template) => .verifyLast template
  | .store (.getToById id) => .getToById id 0

/-- One pass through a loop over the list: it ends at the end of the list, or with a `break`
at a stanza. -/
def pass (again : ℕ → Body) (stop : XMPPStanza → Bool)
    (found : ℕ → XMPPStanza → Answer × List XMPPStanza) (missed : Answer) (curr : ℕ)
    (received_stanzas : List XMPPStanza) : (Body ⊕ Answer) × List XMPPStanza :=
  match received_stanzas[curr]? with
  | none => (.inr missed, received_stanzas)
  | some stanza =>
      if stop stanza then (.inr (found curr stanza).1, (found curr stanza).2)
      else (.inl (again (curr + 1)), received_stanzas)

def idMatches (id_filter : Str) (stanza : XMPPStanza) : Bool :=
  match stanzaGetId (some stanza) with
  | some id => fnmatch id_filter (stanza.name ++ ":".toList ++ id)
  | none => false

def hasId (id : Option Str) (stanza : XMPPStanza) : Bool :=
  (stanzaGetId (some stanza)).isSome && stanzaGetId (some stanza) = id

def work (body : Body) (received_stanzas : List XMPPStanza) :
    (Body ⊕ Answer) × List XMPPStanza :=
  match body with
  | .init => (.inr .void, [])
  | .freeAll => (.inr .void, [])
  | .add stanza => (.inr .void, received_stanzas ++ [stanza])
  | .containsId id_filter curr =>
      pass (.containsId id_filter) (idMatches id_filter)
        (fun _ _ => (.result true, received_stanzas)) (.result false) curr received_stanzas
  | .verifyAny template clear curr =>
      pass (.verifyAny template clear) (fun received => stanzasEqual received template = 0)
        (fun curr _ => (.result true,
          if clear then received_stanzas.eraseIdx curr else received_stanzas))
        (.result false) curr received_stanzas
  | .verifyLast template =>
      match received_stanzas.getLast? with
      | some received =>
          (.inr (.result (stanzasEqual received template = 0)), received_stanzas)
      | none => (.inr (.result false), received_stanzas)
  | .getToById id curr =>
      pass (.getToById id) (hasId id)
        (fun _ stanza => (.toVal (stanzaGetAttr stanza "to".toList), received_stanzas))
        (.toVal none) curr received_stanzas

/-- The functions take the lock at once. -/
def procedures : Procedures (List XMPPStanza) Operation Body Answer := ⟨fun _ _ => true, enter, work⟩

/-- The operations of the store. -/
def whole : Whole (List XMPPStanza) Operation Answer where
  result
    | .stanzasInit, _ => .void
    | .stanzasFreeAll, _ => .void
    | .store (.add _), _ => .void
    | .store (.containsId id_filter), s => .result (stanzasContainsId id s id_filter)
    | .store (.verifyAny template clear), s => .result (stanzasVerifyAny id template clear s).1
    | .store (.verifyLast template), s => .result (stanzasVerifyLast id template s)
    | .store (.getToById i), s => .toVal (stanzasGetToById id i s)
  after
    | .stanzasInit, _ => []
    | .stanzasFreeAll, _ => []
    | .store op, s => storeAfter s op

section Loops
variable {again : ℕ → Body} {stop : XMPPStanza → Bool} {missed : Answer}
  {found : List XMPPStanza → ℕ → XMPPStanza → Answer × List XMPPStanza}

/-- A loop gets past stanzas at which it does not stop. -/
theorem finishes_past (hwork : ∀ curr s, work (again curr) s =
      pass again stop (found s) missed curr s) {before rest : List XMPPStanza}
    (hbefore : ∀ x ∈ before, stop x = false) {r : Answer} {t : List XMPPStanza}
    (hrest : Finishes procedures (again before.length) (before ++ rest) r t) :
    Finishes procedures (again 0) (before ++ rest) r t := by
  induction before using List.reverseRecOn generalizing rest with
  | nil => exact hrest
  | append_singleton xs x ih =>
      rw [List.append_assoc, List.singleton_append, List.length_append,
        List.length_singleton] at hrest
      rw [List.append_assoc, List.singleton_append]
      refine ih (fun y hy => hbefore y (List.mem_append_left _ hy)) (.next ?_ hrest)
      have hx := hbefore x (List.mem_append_right _ List.mem_cons_self)
      change work (again xs.length) _ = _
      rw [hwork, pass, List.getElem?_append_right (le_refl _), Nat.sub_self]
      dsimp only [List.getElem?_cons_zero]
      rw [hx, if_neg Bool.false_ne_true]

variable (found)

/-- The first stanza at which a loop stops. -/
theorem finishes_found (hwork : ∀ curr s, work (again curr) s =
      pass again stop (found s) missed curr s) {before after : List XMPPStanza}
    {stanza : XMPPStanza} (hbefore : ∀ x ∈ before, stop x = false) (hstop : stop stanza = true) :
    Finishes procedures (again 0) (before ++ stanza :: after)
      (found (before ++ stanza :: after) before.length stanza).1
      (found (before ++ stanza :: after) before.length stanza).2 := by
  refine finishes_past hwork hbefore (.done ?_)
  change work (again before.length) _ = _
  rw [hwork, pass, List.getElem?_append_right (le_refl _), Nat.sub_self]
  dsimp only [List.getElem?_cons_zero]
  rw [hstop, if_pos rfl]

theorem finishes_missed (hwork : ∀ curr s, work (again curr) s =
      pass again stop (found s) missed curr s) {s : List XMPPStanza}
    (hall : ∀ x ∈ s, stop x = false) : Finishes procedures (again 0) s missed s := by
  have hend : Finishes procedures (again s.length) (s ++ []) missed s := by
    rw [List.append_nil]
    refine .done ?_
    change work (again s.length) s = _
    rw [hwork, pass, List.getElem?_eq_none (le_refl _)]
  have hpast := finishes_past hwork hall hend
  rw [List.append_nil] at hpast
  exact hpast

end Loops

/-! ## Each function as a whole -/

theorem finishes_containsId (id_filter : Str) (s : List XMPPStanza) :
    Finishes procedures (.containsId id_filter 0) s
      (.result (stanzasContainsId id s id_filter)) s := by
  have hany : stanzasContainsId id s id_filter = s.any (idMatches id_filter) := rfl
  rw [hany]
  cases hfind : s.find? (idMatches id_filter) with
  | none =>
      have hall := List.find?_eq_none.mp hfind
      have hnone : s.any (idMatches id_filter) = false := List.any_eq_false.mpr hall
      rw [hnone]
      exact finishes_missed (fun s _ _ => (.result true, s)) (fun _ _ => rfl)
        fun x hx => Bool.eq_false_iff.mpr (hall x hx)
  | some stanza =>
      obtain ⟨hstop, before, after, rfl, hbefore⟩ := List.find?_eq_some_iff_append.mp hfind
      have hsome : (before ++ stanza :: after).any (idMatches id_filter) = true :=
        List.any_eq_true.mpr ⟨stanza, by simp, hstop⟩
      rw [hsome]
      exact finishes_found (fun s _ _ => (.result true, s)) (fun _ _ => rfl)
        (fun x hx => by simpa using hbefore x hx) hstop

theorem finishes_verifyAny (template : XMPPStanza) (clear : Bool) (s : List XMPPStanza) :
    Finishes procedures (.verifyAny template clear 0) s
      (.result (stanzasVerifyAny id template clear s).1)
      (stanzasVerifyAny id template clear s).2 := by
  have hwork : ∀ curr s, work (.verifyAny template clear curr) s =
      pass (.verifyAny template clear) (fun received => stanzasEqual received template = 0)
        (fun curr _ => (.result true, if clear then s.eraseIdx curr else s)) (.result false)
        curr s := fun _ _ => rfl
  rcases stanzasVerifyAny_cases id template clear s with ⟨hall, hnone⟩ |
    ⟨before, stanza, after, rfl, hbefore, hmatch, hfound⟩
  · rw [hnone]
    exact finishes_missed
      (fun s curr _ => (.result true, if clear then s.eraseIdx curr else s)) hwork
      fun x hx => decide_eq_false (hall x hx)
  · have hfinish : Finishes procedures (.verifyAny template clear 0)
        (before ++ stanza :: after) _ _ :=
      finishes_found (fun s curr _ => (.result true, if clear then s.eraseIdx curr else s))
        hwork (fun x hx => decide_eq_false (hbefore x hx)) (decide_eq_true hmatch)
    rw [hfound]
    dsimp only at hfinish ⊢
    rw [List.eraseIdx_append_of_length_le (le_refl _), Nat.sub_self] at hfinish
    exact hfinish

theorem finishes_verifyLast (template : XMPPStanza) (s : List XMPPStanza) :
    Finishes procedures (.verifyLast template) s
      (.result (stanzasVerifyLast id template s)) s := by
  refine .done ?_
  change work (.verifyLast template) s = _
  unfold work stanzasVerifyLast
  dsimp only
  cases s.getLast? with
  | none => rfl
  | some received => rfl

theorem finishes_getToById (i : Option Str) (s : List XMPPStanza) :
    Finishes procedures (.getToById i 0) s (.toVal (stanzasGetToById id i s)) s := by
  have hfind : stanzasGetToById id i s =
      (s.find? (hasId i)).bind fun stanza => stanzaGetAttr stanza "to".toList := rfl
  rw [hfind]
  cases hsearch : s.find? (hasId i) with
  | none =>
      have hall := List.find?_eq_none.mp hsearch
      exact finishes_missed
        (fun s _ stanza => (.toVal (stanzaGetAttr stanza "to".toList), s)) (fun _ _ => rfl)
        fun x hx => Bool.eq_false_iff.mpr (hall x hx)
  | some stanza =>
      obtain ⟨hstop, before, after, rfl, hbefore⟩ := List.find?_eq_some_iff_append.mp hsearch
      exact finishes_found
        (fun s _ stanza => (.toVal (stanzaGetAttr stanza "to".toList), s)) (fun _ _ => rfl)
        (fun x hx => by simpa using hbefore x hx) hstop

/-- Every function does what the operation does, and comes to its end. -/
theorem meets_whole : Meets procedures whole := by
  intro op s
  cases op with
  | stanzasInit => exact .done rfl
  | stanzasFreeAll => exact .done rfl
  | store op =>
      cases op with
      | add stanza => exact .done rfl
      | containsId id_filter => exact finishes_containsId id_filter s
      | verifyAny template clear => exact finishes_verifyAny template clear s
      | verifyLast template => exact finishes_verifyLast template s
      | getToById i => exact finishes_getToById i s

/-! ## Any number of threads -/

section Threads
variable {ι : Type} [DecidableEq ι] {w w' : System ι (List XMPPStanza) Operation Body Answer}

omit [DecidableEq ι] in
/-- While the store is neither made anew nor freed, it is what its history makes of it. -/
theorem serial_replay {sections : List (ι × Operation × Answer)} {t : List XMPPStanza}
    (h : Serial whole [] sections t) {ops : List StoreOp}
    (hops : sections.map (fun x => x.2.1) = ops.map .store) :
    t = (replay ops).store.map Prod.snd := by
  induction h generalizing ops with
  | nil =>
      cases ops with
      | nil => rfl
      | cons op ops => cases hops
  | @snoc sections t _ i op ih =>
      rw [List.map_append] at hops
      obtain ⟨ops₁, ops₂, rfl, hinit, hlast⟩ := List.map_eq_append_iff.mp hops.symm
      obtain ⟨o, ops', rfl, ho, hnil⟩ := List.map_eq_cons_iff.mp hlast
      obtain rfl := List.map_eq_nil_iff.mp hnil
      rw [replay_append_singleton, apply_store, ← ih hinit.symm]
      dsimp only at ho
      rw [← ho]
      rfl

/-- However the threads are interleaved, the functions that have returned did so with the
results of the operations of the store, one after the other in the order in which they gave
back the lock, and a thread that has the lock is alone in its section and can leave it. -/
theorem store_serial {as : List (Act ι Operation)} (hw : Free w)
    (h : run (System.step procedures) w as = some w') : ∃ sections t,
      w'.history = w.history ++ sections ∧ Serial whole w.shared sections t ∧
      (w'.lock = none → w'.shared = t) ∧
      (w.shared = [] → ∀ ops, sections.map (fun x => x.2.1) = ops.map .store →
        t = (replay ops).store.map Prod.snd) ∧
      (∀ i j, (w'.phases i).owns = true → (w'.phases j).owns = true → i = j) ∧
      ∀ i, w'.lock = some i → ∃ n v,
        run (System.step procedures) w' (List.replicate n (.work i) ++ [.release i]) = some v ∧
        v.lock = none := by
  obtain ⟨sections, t, hhistory, hatomic⟩ := atomic_of_run meets_whole hw h
  refine ⟨sections, t, hhistory, hatomic.serial, fun hlock => (hatomic.free hlock).1, ?_, ?_,
    fun i hlock => hatomic.released meets_whole hlock⟩
  · intro hempty ops hops
    have hserial := hatomic.serial
    rw [hempty] at hserial
    exact serial_replay hserial hops
  · intro i j hi hj
    have hlock := hatomic.owner hi
    rw [hatomic.owner hj] at hlock
    exact (Option.some.inj hlock).symm

end Threads

/-- A call of a function that is not disturbed. -/
def alone (i n : ℕ) : List (Act ℕ Operation) :=
  .acquire i :: (List.replicate n (.work i) ++ [.release i])

def anyStanza : XMPPStanza := ⟨"*".toList, [], [], none⟩

def presence : XMPPStanza := ⟨"presence".toList, [], [], none⟩

def consume (i : ℕ) : Act ℕ Operation := .call i (.store (.verifyAny anyStanza true))

/-- The second thread comes for the stanza while the first one is in its loop. -/
def bothConsume : List (Act ℕ Operation) :=
  [.call 0 (.store (.add presence)), consume 1, consume 2] ++ alone 0 1 ++
    [.acquire 1, .work 1, .release 1] ++ alone 2 1

def unlocked : System ℕ (List XMPPStanza) Operation Body Answer := ⟨[], none, fun _ => .outside, []⟩

theorem store_serial_bothConsume : ∃ w' sections t,
    run (System.step procedures) unlocked bothConsume = some w' ∧
    w'.history.map (fun x => x.2.2) = [.void, .result true, .result false] ∧
    w'.history = sections ∧ Serial whole [] sections t ∧ w'.shared = t := by
  have hrun : (run (System.step procedures) unlocked bothConsume).any (fun w' => w'.lock.isNone &&
      decide (w'.history.map (fun x => x.2.2) = [.void, .result true, .result false])) = true := by
    decide +kernel
  obtain ⟨w', hw', htest⟩ := (Option.any_eq_true _ _).mp hrun
  rw [Bool.and_eq_true, Option.isNone_iff_eq_none, decide_eq_true_eq] at htest
  obtain ⟨sections, t, hhistory, hserial, hshared, -⟩ :=
    store_serial (w := unlocked) ⟨rfl, fun _ => rfl⟩ hw'
  exact ⟨w', sections, t, hw', htest.2, hhistory, hserial, hshared htest.1⟩

end Stabber.StoreSections
