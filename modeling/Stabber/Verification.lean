import Stabber.StanzaParse
import Stabber.StanzaHistory
import Mathlib.Algebra.Order.Ring.Rat
import Mathlib.Tactic.NormNum

/-!
# Verification with a timeout

`verify.c`: a verification looks at the store again and again until a look succeeds
or the time is up. The time is compared before every look, the first included.
-/

namespace Stabber.Verification
open XmlDocument XmlReader Stanza Stanzas StanzaParse

/-! ## The two looks at the store -/

section Looks
variable {α : Type} (view : α → XMPPStanza)

/-- `stanzas_verify_any`: the template is read through for each stanza of the store. -/
def stanzasVerifyAnyAt (template : Option XMPPStanza) (clear : Bool) (store : List α) :
    Except Fault (Bool × List α) :=
  match template, store with
  | some t, _ => .ok (stanzasVerifyAny view t clear store)
  | none, [] => .ok (false, [])
  | none, _ :: _ => .error .nullDereference

/-- `stanzas_verify_last`, which leaves the store as it is. -/
def stanzasVerifyLastAt (template : Option XMPPStanza) (store : List α) :
    Except Fault (Bool × List α) :=
  match template, store with
  | some t, _ => .ok (stanzasVerifyLast view t store, store)
  | none, [] => .ok (false, [])
  | none, _ :: _ => .error .nullDereference

end Looks

/-- On plain stanzas a look is the operation of the store's history. -/
theorem stanzasVerifyAnyAt_storeAfter (template : XMPPStanza) (clear : Bool)
    (store : List XMPPStanza) : stanzasVerifyAnyAt id (some template) clear store =
      .ok ((stanzasVerifyAny id template clear store).1,
        StanzaHistory.storeAfter store (.verifyAny template clear)) := rfl

/-! ## The loop -/

/-- The readings of the timer, one before each look. -/
structure Clock where
  elapsed : ℕ → ℚ
  mono : Monotone elapsed
  nonneg : ∀ k, 0 ≤ elapsed k
  first : elapsed 0 < 1

/-- What a call returns, how often it has slept, and the store it leaves. -/
structure Verdict (α : Type) where
  result : Bool
  sleeps : ℕ
  received_stanzas : List α
deriving Repr

section Loop
variable {α : Type}

/-- `while (g_timer_elapsed(timer, NULL) < verify_timeout)`, where the stores are those
that the looks find. -/
def poll (look : List α → Except Fault (Bool × List α)) (stores : ℕ → List α)
    (clock : Clock) (verify_timeout : ℤ) : ℕ → ℕ → Except Fault (Option (Verdict α))
  | 0, _ => .ok none
  | fuel + 1, sleeps =>
      if clock.elapsed sleeps < verify_timeout then do
        let (result, store) ← look (stores sleeps)
        if result then
          return some ⟨true, sleeps, store⟩
        poll look stores clock verify_timeout fuel (sleeps + 1)
      else .ok (some ⟨false, sleeps, stores sleeps⟩)

variable (E : Expat) (view : α → XMPPStanza) (stores : ℕ → List α) (clock : Clock)
  (verify_timeout : ℤ)

def verifyAny (stanza_text : Str) (clear : Bool) (fuel : ℕ) :
    Except Fault (Option (Verdict α)) := do
  let stanza ← stanzaParse E stanza_text
  poll (stanzasVerifyAnyAt view stanza clear) stores clock verify_timeout fuel 0

def verifyLast (stanza_text : Str) (fuel : ℕ) : Except Fault (Option (Verdict α)) := do
  let stanza ← stanzaParse E stanza_text
  poll (stanzasVerifyLastAt view stanza) stores clock verify_timeout fuel 0

end Loop

section Passes
variable {α : Type} (found : List α → Bool × List α) (stores : ℕ → List α) (clock : Clock)
  (verify_timeout : ℤ)

/-- The loop with a look that cannot fault. -/
def passes (fuel sleeps : ℕ) : Except Fault (Option (Verdict α)) :=
  poll (fun store => .ok (found store)) stores clock verify_timeout fuel sleeps

variable {found stores clock verify_timeout}

theorem passes_expired {sleeps : ℕ} (h : ¬ clock.elapsed sleeps < verify_timeout) (fuel : ℕ) :
    passes found stores clock verify_timeout (fuel + 1) sleeps =
      .ok (some ⟨false, sleeps, stores sleeps⟩) := by
  rw [passes, poll, if_neg h]

theorem passes_found {sleeps : ℕ} (h : clock.elapsed sleeps < verify_timeout)
    (hfound : (found (stores sleeps)).1 = true) (fuel : ℕ) :
    passes found stores clock verify_timeout (fuel + 1) sleeps =
      .ok (some ⟨true, sleeps, (found (stores sleeps)).2⟩) := by
  rw [passes, poll, if_pos h]
  simp only [bind, Except.bind, hfound, if_true, pure, Except.pure]

theorem passes_again {sleeps : ℕ} (h : clock.elapsed sleeps < verify_timeout)
    (hfound : (found (stores sleeps)).1 = false) (fuel : ℕ) :
    passes found stores clock verify_timeout (fuel + 1) sleeps =
      passes found stores clock verify_timeout fuel (sleeps + 1) := by
  rw [passes, poll, if_pos h]
  simp only [bind, Except.bind, hfound, Bool.false_eq_true, if_false, passes]

/-- The three kinds of passes, by induction over the loop: what holds where the time is
up, holds where a look succeeds and is handed back over a sleep holds of the verdict. -/
theorem passes_induction {P : ℕ → Verdict α → Prop}
    (hexpired : ∀ k, verify_timeout ≤ clock.elapsed k → P k ⟨false, k, stores k⟩)
    (hfound : ∀ k, clock.elapsed k < verify_timeout → (found (stores k)).1 = true →
      P k ⟨true, k, (found (stores k)).2⟩)
    (hagain : ∀ k v, clock.elapsed k < verify_timeout → (found (stores k)).1 = false →
      P (k + 1) v → P k v) {fuel sleeps : ℕ} {v : Verdict α}
    (h : passes found stores clock verify_timeout fuel sleeps = .ok (some v)) : P sleeps v := by
  induction fuel generalizing sleeps with
  | zero => simp [passes, poll] at h
  | succ fuel ih =>
      by_cases htime : clock.elapsed sleeps < verify_timeout
      · cases hlook : (found (stores sleeps)).1 with
        | true =>
            rw [passes_found htime hlook] at h
            simp only [Except.ok.injEq, Option.some.injEq] at h
            rw [← h]
            exact hfound sleeps htime hlook
        | false =>
            rw [passes_again htime hlook] at h
            exact hagain sleeps v htime hlook (ih h)
      · rw [passes_expired htime] at h
        simp only [Except.ok.injEq, Option.some.injEq] at h
        rw [← h]
        exact hexpired sleeps (not_lt.mp htime)

/-- A success is that of the last look, made in time. -/
theorem passes_true {fuel sleeps : ℕ} {v : Verdict α}
    (h : passes found stores clock verify_timeout fuel sleeps = .ok (some v)) :
    v.result = true →
      clock.elapsed v.sleeps < verify_timeout ∧ (found (stores v.sleeps)).1 = true := by
  refine passes_induction (P := fun _ v => v.result = true →
    clock.elapsed v.sleeps < verify_timeout ∧ (found (stores v.sleeps)).1 = true) ?_ ?_ ?_ h
  · intro k _ hresult
    cases hresult
  · intro k htime hlook _
    exact ⟨htime, hlook⟩
  · intro k v _ _ hv
    exact hv

/-- No look before the end of a call has succeeded, and a failure ends it when the time
is up. -/
theorem passes_false {fuel sleeps : ℕ} {v : Verdict α}
    (h : passes found stores clock verify_timeout fuel sleeps = .ok (some v)) :
    sleeps ≤ v.sleeps ∧ (∀ k, sleeps ≤ k → k < v.sleeps → (found (stores k)).1 = false) ∧
      (v.result = false → verify_timeout ≤ clock.elapsed v.sleeps) := by
  refine passes_induction (P := fun sleeps v => sleeps ≤ v.sleeps ∧
    (∀ k, sleeps ≤ k → k < v.sleeps → (found (stores k)).1 = false) ∧
      (v.result = false → verify_timeout ≤ clock.elapsed v.sleeps)) ?_ ?_ ?_ h
  · intro k htime
    exact ⟨le_refl k, fun j hj hlt => absurd hlt (not_lt.mpr hj), fun _ => htime⟩
  · intro k _ _
    exact ⟨le_refl k, fun j hj hlt => absurd hlt (not_lt.mpr hj), fun hfalse => by cases hfalse⟩
  · intro k v _ hlook ih
    obtain ⟨hle, hbefore, hend⟩ := ih
    refine ⟨by omega, ?_, hend⟩
    intro j hj hlt
    by_cases hjk : j = k
    · rw [hjk]
      exact hlook
    · exact hbefore j (by omega) hlt

/-- The call returns by the time that some reading reaches the timeout. -/
theorem passes_return {n : ℕ} (h : verify_timeout ≤ clock.elapsed n) {sleeps : ℕ}
    (hle : sleeps ≤ n) :
    ∃ v, passes found stores clock verify_timeout (n - sleeps + 1) sleeps = .ok (some v) := by
  induction hd : n - sleeps generalizing sleeps with
  | zero =>
      have hsleeps : sleeps = n := by omega
      rw [hsleeps]
      exact ⟨_, passes_expired (not_lt.mpr h) 0⟩
  | succ d ih =>
      by_cases htime : clock.elapsed sleeps < verify_timeout
      · cases hlook : (found (stores sleeps)).1 with
        | true => exact ⟨_, passes_found htime hlook _⟩
        | false =>
            rw [passes_again htime hlook]
            exact ih (by omega) (by omega)
      · exact ⟨_, passes_expired htime _⟩

end Passes

/-! ## What a verification promises -/

section Answers
variable {α : Type}

/-- Enough passes of the loop give this verdict. -/
def Returns (call : ℕ → Except Fault (Option (Verdict α))) (v : Verdict α) : Prop :=
  ∃ fuel, call fuel = .ok (some v)

/-- The answers that are asked for, where `holds k` is the matching condition at the
`k`-th reading of the timer. -/
structure Answers (call : ℕ → Except Fault (Option (Verdict α))) (holds : ℕ → Prop)
    (verify_timeout : ℤ) : Prop where
  returns : (∀ k, holds k) → ∃ v, Returns call v
  success : ∀ v, Returns call v → (∀ k ≤ v.sleeps, holds k) → v.result = true
  sound : ∀ v, Returns call v → v.result = true → ∃ k ≤ v.sleeps, holds k
  immediate : verify_timeout ≤ 0 →
    ∃ v, Returns call v ∧ v.sleeps = 0 ∧ (v.result = true ↔ holds 0)

variable {found : List α → Bool × List α} {stores : ℕ → List α} {clock : Clock}
  {verify_timeout : ℤ}

/-- The first look is made when the timeout is positive, and only then. -/
theorem first_look (clock : Clock) (verify_timeout : ℤ) :
    clock.elapsed 0 < verify_timeout ↔ 0 < verify_timeout := by
  constructor
  · intro h
    have hpos : (0 : ℚ) < verify_timeout := lt_of_le_of_lt (clock.nonneg 0) h
    exact_mod_cast hpos
  · intro h
    have hone : (1 : ℚ) ≤ verify_timeout := by exact_mod_cast h
    exact lt_of_lt_of_le clock.first hone

/-- A call that ends in its first pass has no other verdict. -/
theorem returned_eq {v w : Verdict α}
    (hfirst : ∀ fuel, passes found stores clock verify_timeout (fuel + 1) 0 = .ok (some w))
    (hv : Returns (fun fuel => passes found stores clock verify_timeout fuel 0) v) : v = w := by
  obtain ⟨fuel, hv⟩ := hv
  dsimp only at hv
  cases fuel with
  | zero => simp [passes, poll] at hv
  | succ fuel =>
      rw [hfirst fuel] at hv
      simp only [Except.ok.injEq, Option.some.injEq] at hv
      exact hv.symm

/-- The loop answers as asked, but for a timeout that leaves it no look and a condition
that holds at once. -/
theorem passes_answers_iff {condition : List α → Prop}
    (hfound : ∀ store, (found store).1 = true ↔ condition store) :
    Answers (fun fuel => passes found stores clock verify_timeout fuel 0)
        (fun k => condition (stores k)) verify_timeout ↔
      0 < verify_timeout ∨ ¬ condition (stores 0) := by
  have hfirst := first_look clock verify_timeout
  constructor
  · intro h
    by_contra hnot
    rw [not_or, not_not] at hnot
    have hexpired : ¬ clock.elapsed 0 < verify_timeout := fun hlt => hnot.1 (hfirst.mp hlt)
    obtain ⟨v, hv, _, hiff⟩ := h.immediate (not_lt.mp hnot.1)
    have hresult := hiff.mpr hnot.2
    rw [returned_eq (passes_expired hexpired) hv] at hresult
    cases hresult
  · intro h
    constructor
    · intro hall
      have hpos : 0 < verify_timeout := h.resolve_right (not_not.mpr (hall 0))
      exact ⟨_, 1, passes_found (hfirst.mpr hpos) ((hfound _).mpr (hall 0)) 0⟩
    · intro v hv hall
      have hzero := hall 0 (Nat.zero_le _)
      have hpos : 0 < verify_timeout := h.resolve_right (not_not.mpr hzero)
      rw [returned_eq (passes_found (hfirst.mpr hpos) ((hfound _).mpr hzero)) hv]
    · intro v hv hresult
      obtain ⟨fuel, hv⟩ := hv
      exact ⟨v.sleeps, le_refl _, (hfound _).mp (passes_true hv hresult).2⟩
    · intro hle
      have hno : ¬ condition (stores 0) := h.resolve_left (not_lt.mpr hle)
      have hexpired : ¬ clock.elapsed 0 < verify_timeout := fun hlt =>
        absurd (hfirst.mp hlt) (not_lt.mpr hle)
      refine ⟨_, ⟨1, passes_expired hexpired 0⟩, rfl, ?_⟩
      constructor
      · intro hfalse
        cases hfalse
      · intro hcond
        exact (hno hcond).elim

/-- Under a clock that reaches the timeout the loop ends, and it has succeeded just if
the condition held at some reading below the timeout. -/
theorem passes_verdict {condition : List α → Prop}
    (hfound : ∀ store, (found store).1 = true ↔ condition store) {n : ℕ}
    (hn : verify_timeout ≤ clock.elapsed n) :
    ∃ v, Returns (fun fuel => passes found stores clock verify_timeout fuel 0) v ∧
      (v.result = true ↔
        ∃ k, clock.elapsed k < verify_timeout ∧ condition (stores k)) := by
  have hreturn : ∃ v, passes found stores clock verify_timeout (n - 0 + 1) 0 = .ok (some v) :=
    passes_return hn (Nat.zero_le n)
  obtain ⟨v, hv⟩ := hreturn
  refine ⟨v, ⟨_, hv⟩, ?_⟩
  constructor
  · intro hresult
    have hlook := passes_true hv hresult
    exact ⟨v.sleeps, hlook.1, (hfound _).mp hlook.2⟩
  · intro hex
    obtain ⟨k, htime, hcond⟩ := hex
    by_contra hresult
    obtain ⟨_, hbefore, hend⟩ := passes_false hv
    have hexpired := hend (Bool.eq_false_of_not_eq_true hresult)
    have hlt : k < v.sleeps := by
      by_contra hge
      have hmono := clock.mono (not_lt.mp hge)
      exact absurd (lt_of_lt_of_le htime hexpired) (not_lt.mpr hmono)
    have hfalse := hbefore k (Nat.zero_le k) hlt
    rw [(hfound _).mpr hcond] at hfalse
    cases hfalse

end Answers

section Functions
variable {α : Type} (view : α → XMPPStanza) (template : XMPPStanza)

/-- Some stored stanza matches the template. -/
def SomeMatches (store : List α) : Prop := ∃ r ∈ store, stanzasEqual (view r) template = 0

/-- The last stored stanza matches the template. -/
def LastMatches (store : List α) : Prop :=
  ∃ r, store.getLast? = some r ∧ stanzasEqual (view r) template = 0

theorem stanzasVerifyLast_iff (store : List α) :
    stanzasVerifyLast view template store = true ↔ LastMatches view template store := by
  unfold stanzasVerifyLast LastMatches
  cases store.getLast? with
  | none => simp
  | some r => simp

variable {view} {stores : ℕ → List α} {clock : Clock} {verify_timeout : ℤ} (E : Expat)
  {text n : Str} {as : List (Str × Str)} {ks : List Node}

theorem verifyAny_document (h : Denotes text (.elem n as ks)) (clear : Bool) :
    verifyAny E view stores clock verify_timeout text clear = fun fuel =>
      passes (stanzasVerifyAny view (fill (stanzaNew n as) ks) clear) stores clock
        verify_timeout fuel 0 := by
  funext fuel
  rw [verifyAny, stanzaParse_document E h]
  rfl

theorem verifyLast_document (h : Denotes text (.elem n as ks)) :
    verifyLast E view stores clock verify_timeout text = fun fuel =>
      passes (fun store => (stanzasVerifyLast view (fill (stanzaNew n as) ks) store, store))
        stores clock verify_timeout fuel 0 := by
  funext fuel
  rw [verifyLast, stanzaParse_document E h]
  rfl

variable (view stores clock verify_timeout)

/-- For a well-formed template both functions answer as asked if and only if the timeout
is positive or the condition does not hold when they are called: a timeout of zero or
less leaves no look at all, and the verdict is that nothing was found. -/
theorem answers_iff (clear : Bool) (h : Denotes text (.elem n as ks)) :
    (Answers (verifyAny E view stores clock verify_timeout text clear)
        (fun k => SomeMatches view (fill (stanzaNew n as) ks) (stores k)) verify_timeout ↔
      0 < verify_timeout ∨ ¬ SomeMatches view (fill (stanzaNew n as) ks) (stores 0)) ∧
    (Answers (verifyLast E view stores clock verify_timeout text)
        (fun k => LastMatches view (fill (stanzaNew n as) ks) (stores k)) verify_timeout ↔
      0 < verify_timeout ∨ ¬ LastMatches view (fill (stanzaNew n as) ks) (stores 0)) := by
  constructor
  · rw [verifyAny_document E h]
    exact passes_answers_iff fun store => stanzasVerifyAny_fst view _ clear store
  · rw [verifyLast_document E h]
    exact passes_answers_iff fun store => stanzasVerifyLast_iff view _ store

/-- What the verdicts are when the time runs out at some reading. -/
theorem verification_verdicts (clear : Bool) (h : Denotes text (.elem n as ks)) {last : ℕ}
    (hlast : verify_timeout ≤ clock.elapsed last) :
    (∃ v, Returns (verifyAny E view stores clock verify_timeout text clear) v ∧
      (v.result = true ↔ ∃ k, clock.elapsed k < verify_timeout ∧
        SomeMatches view (fill (stanzaNew n as) ks) (stores k))) ∧
    ∃ v, Returns (verifyLast E view stores clock verify_timeout text) v ∧
      (v.result = true ↔ ∃ k, clock.elapsed k < verify_timeout ∧
        LastMatches view (fill (stanzaNew n as) ks) (stores k)) := by
  constructor
  · rw [verifyAny_document E h]
    exact passes_verdict (fun store => stanzasVerifyAny_fst view _ clear store) hlast
  · rw [verifyLast_document E h]
    exact passes_verdict (fun store => stanzasVerifyLast_iff view _ store) hlast

end Functions

/-- A clock that each sleep moves by its ten milliseconds. -/
def Clock.sleeping : Clock where
  elapsed k := k * (1 / 100)
  mono := by
    intro j k hjk
    have hcast : (j : ℚ) ≤ k := by exact_mod_cast hjk
    exact mul_le_mul_of_nonneg_right hcast (by norm_num)
  nonneg k := mul_nonneg (Nat.cast_nonneg k) (by norm_num)
  first := by norm_num

def presence : XMPPStanza := ⟨"presence".toList, [], [], none⟩

theorem denotes_presence : Denotes "<presence/>".toList (.elem "presence".toList [] []) :=
  ⟨⟨.outside false, [], true, false⟩, by decide +kernel, rfl⟩

theorem presence_matches : SomeMatches id presence [presence] :=
  ⟨presence, List.mem_singleton_self _, by decide +kernel⟩

/-- With a timeout of three seconds the presence in the store is found. -/
theorem presence_verified :
    Answers (verifyAny Expat.reference id (fun _ => [presence]) .sleeping 3 "<presence/>".toList
      true) (fun _ => SomeMatches id presence [presence]) 3 ∧
    Answers (verifyLast Expat.reference id (fun _ => [presence]) .sleeping 3
      "<presence/>".toList) (fun _ => LastMatches id presence [presence]) 3 :=
  have h := answers_iff id (fun _ => [presence]) .sleeping 3 Expat.reference true denotes_presence
  ⟨h.1.mpr (Or.inl (by decide)), h.2.mpr (Or.inl (by decide))⟩

/-- With a timeout of zero it is not, although it is in the store all the time. -/
theorem presence_not_verified :
    (∀ fuel, verifyAny Expat.reference id (fun _ => [presence]) .sleeping 0 "<presence/>".toList
      false (fuel + 1) = .ok (some ⟨false, 0, [presence]⟩)) ∧
    SomeMatches id presence [presence] ∧
    ¬ Answers (verifyAny Expat.reference id (fun _ => [presence]) .sleeping 0
      "<presence/>".toList false) (fun _ => SomeMatches id presence [presence]) 0 := by
  have hcall : ∀ fuel, verifyAny Expat.reference id (fun _ => [presence]) .sleeping 0
      "<presence/>".toList false (fuel + 1) = .ok (some ⟨false, 0, [presence]⟩) := by
    intro fuel
    rw [verifyAny_document _ denotes_presence]
    exact passes_expired (fun hlt => by simp [Clock.sleeping] at hlt) fuel
  refine ⟨hcall, presence_matches, ?_⟩
  intro h
  have hresult := h.success _ ⟨1, hcall 0⟩ fun _ _ => presence_matches
  cases hresult

end Stabber.Verification
