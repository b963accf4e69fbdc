import Stabber.WriteStream
import Mathlib.Algebra.BigOperators.Intervals
import Mathlib.Data.Nat.Count

/-!
# One call of `write_stream`

The loop from its first round to its end, under any results of `write`. What the socket
has taken are the bytes that `write` reported, and with what is left to send they make up
the message before every round. The rounds are counted by the marker, which every success
moves, and by the timeouts so far.
-/

namespace Stabber.WriteLoop
open WriteStream

/-- Where a call is: in its loop, or returned, after the loop or after an error. -/
inductive Progress where
  | looping (w : Writing)
  | returned
  | failed
deriving Repr, DecidableEq

structure Call where
  progress : Progress
  /-- The bytes that the socket has taken, in order. -/
  taken : List UInt8
deriving Repr, DecidableEq

/-- One round of the loop, the last one included, which finds nothing left to send. -/
def Call.round (c : Call) (result : WriteResult) : Call :=
  match c.progress with
  | .looping w =>
      if w.to_send ≤ 0 then { c with progress := .returned }
      else match w.write result with
        | some (bs, some w') => ⟨.looping w', c.taken ++ bs⟩
        | some (bs, none) => ⟨.failed, c.taken ++ bs⟩
        -- more than was asked for is never reported
        | none => c
  | _ => c

/-- The call before its round with this number, where the results are those of `write`. -/
def call (stream : List UInt8) (results : ℕ → WriteResult) : ℕ → Call
  | 0 => ⟨.looping (writeStream stream), []⟩
  | k + 1 => (call stream results k).round (results k)

/-- A success reports at least one byte and no more than the bytes asked for. -/
def Possible (w : Writing) (result : WriteResult) : Prop :=
  ∀ count, result = .sent count → 1 ≤ count ∧ (count : ℤ) ≤ w.to_send

/-- The next round calls `write`. -/
def Call.writes (c : Call) : Bool :=
  match c.progress with
  | .looping w => 0 < w.to_send
  | _ => false

/-- The bytes that a result says were sent. -/
def reported : WriteResult → ℕ
  | .sent count => count
  | _ => 0

/-- The call has come to its end. -/
def Call.Ended (c : Call) : Prop := ∀ w, c.progress ≠ .looping w

section Rounds
variable {c : Call} {w : Writing} {result : WriteResult}

theorem round_returned (hc : c.progress = .looping w) (hsend : w.to_send ≤ 0) :
    c.round result = { c with progress := .returned } := by
  unfold Call.round
  rw [hc]
  exact if_pos hsend

/-- A round in which `write` is called. -/
theorem round_write (hc : c.progress = .looping w) (hsend : 0 < w.to_send)
    {bs : List UInt8} {rest : Option Writing} (hwrite : w.write result = some (bs, rest)) :
    c.round result = ⟨rest.elim .failed .looping, c.taken ++ bs⟩ := by
  unfold Call.round
  rw [hc]
  dsimp only
  rw [if_neg (not_le.mpr hsend), hwrite]
  cases rest with
  | none => rfl
  | some w' => rfl

/-- What a possible result makes of the loop. -/
theorem write_of_possible (hsend : 0 < w.to_send) (hpossible : Possible w result) :
    (∃ count, result = .sent count ∧ 1 ≤ count ∧ w.write result =
      some ((w.stream.drop w.marker).take count,
        some { w with marker := w.marker + count, to_send := w.to_send - count })) ∨
    (result = .again ∧ w.write result = some ([], some w)) ∨
    (result = .failed ∧ w.write result = some ([], none)) := by
  have hpos : ¬ w.to_send ≤ 0 := not_le.mpr hsend
  unfold Writing.write
  rw [if_neg hpos]
  cases result with
  | sent count =>
      have hcount := hpossible count rfl
      left
      exact ⟨count, rfl, hcount.1, if_pos hcount.2⟩
  | again => exact Or.inr (Or.inl ⟨rfl, rfl⟩)
  | failed => exact Or.inr (Or.inr ⟨rfl, rfl⟩)

theorem round_of_ended (h : c.Ended) : c.round result = c := by
  unfold Call.round
  split
  next w hc => exact (h w hc).elim
  next => rfl

end Rounds

/-! ## What the socket has taken -/

/-- The part of the message that the socket has taken. -/
def Taken (stream : List UInt8) (c : Call) : Prop :=
  match c.progress with
  | .looping w => w.stream = stream ∧ w.Exact ∧ c.taken = w.done
  | .returned => c.taken = stream
  | .failed => c.taken <+: stream ∧ c.taken ≠ stream

section Taken
variable {stream : List UInt8} {c : Call} {w : Writing} {result : WriteResult}

theorem taken_looping (h : Taken stream c) (hc : c.progress = .looping w) :
    w.stream = stream ∧ w.Exact ∧ c.taken = w.done := by
  unfold Taken at h
  rw [hc] at h
  exact h

theorem taken_round (h : Taken stream c)
    (hpossible : ∀ w, c.progress = .looping w → 0 < w.to_send → Possible w result) :
    Taken stream (c.round result) := by
  by_cases hended : c.Ended
  · rw [round_of_ended hended]
    exact h
  · obtain ⟨w, hc⟩ := not_forall_not.mp hended
    obtain ⟨hstream, hexact, htaken⟩ := taken_looping h hc
    rcases le_or_gt w.to_send 0 with hsend | hsend
    · rw [round_returned hc hsend]
      have hdone := Writing.done_of_returned hexact hsend
      change c.taken = stream
      rw [htaken, hdone, hstream]
    · rcases write_of_possible hsend (hpossible w hc hsend) with
        ⟨count, _, _, hwrite⟩ | ⟨_, hwrite⟩ | ⟨_, hwrite⟩
      · rw [round_write hc hsend hwrite]
        obtain ⟨hexact', _, hdone'⟩ := Writing.done_of_write hexact hwrite
        refine ⟨hstream, hexact', ?_⟩
        rw [hdone', htaken]
      · rw [round_write hc hsend hwrite]
        refine ⟨hstream, hexact, ?_⟩
        dsimp only
        rw [List.append_nil, htaken]
      · rw [round_write hc hsend hwrite, List.append_nil]
        change c.taken <+: stream ∧ c.taken ≠ stream
        rw [htaken, ← hstream]
        have hleft := hexact.to_send
        exact ⟨List.take_prefix _ _, Writing.done_ne_of_lt (by omega)⟩

theorem writes_of_ended (h : c.Ended) : c.writes = false := by
  unfold Call.writes
  split
  next w hc => exact (h w hc).elim
  next => rfl

theorem writes_of_looping (hc : c.progress = .looping w) : c.writes = decide (0 < w.to_send) := by
  unfold Call.writes
  rw [hc]

/-- A round takes what its `write` reports, and fails if and only if that fails. -/
theorem ledger_round (h : Taken stream c)
    (hpossible : ∀ w, c.progress = .looping w → 0 < w.to_send → Possible w result) :
    (c.round result).taken.length = c.taken.length + (if c.writes then reported result else 0) ∧
      ((c.round result).progress = .failed ↔
        c.progress = .failed ∨ (c.writes = true ∧ result = .failed)) := by
  by_cases hended : c.Ended
  · rw [round_of_ended hended, writes_of_ended hended]
    simp
  · obtain ⟨w, hc⟩ := not_forall_not.mp hended
    rw [writes_of_looping hc]
    rcases le_or_gt w.to_send 0 with hsend | hsend
    · rw [round_returned hc hsend, decide_eq_false (not_lt.mpr hsend)]
      simp [hc]
    · obtain ⟨-, hexact, -⟩ := taken_looping h hc
      have hpossible := hpossible w hc hsend
      rw [decide_eq_true hsend]
      rcases write_of_possible hsend hpossible with
        ⟨count, rfl, _, hwrite⟩ | ⟨rfl, hwrite⟩ | ⟨rfl, hwrite⟩
      · rw [round_write hc hsend hwrite]
        have hcount := (hpossible count rfl).2
        have hleft := hexact.to_send
        have htaken : ((w.stream.drop w.marker).take count).length = count := by
          rw [List.length_take, List.length_drop]
          omega
        rw [List.length_append, htaken]
        simp [reported, hc]
      · rw [round_write hc hsend hwrite]
        simp [reported, hc]
      · rw [round_write hc hsend hwrite]
        simp [reported]

end Taken

/-! ## All rounds -/

section Rounds
variable {stream : List UInt8} {results : ℕ → WriteResult}

/-- Every result of a `write` that is made is possible. -/
def AllPossible (stream : List UInt8) (results : ℕ → WriteResult) : Prop :=
  ∀ k w, (call stream results k).progress = .looping w → 0 < w.to_send → Possible w (results k)

theorem taken_call (hlength : stream.length < 2 ^ 31) (h : AllPossible stream results) (k : ℕ) :
    Taken stream (call stream results k) := by
  induction k with
  | zero => exact ⟨rfl, exact_writeStream hlength, rfl⟩
  | succ k ih => exact taken_round ih (h k)

theorem ledger_call (hlength : stream.length < 2 ^ 31) (h : AllPossible stream results) (k : ℕ) :
    (call stream results k).taken.length = ∑ j ∈ Finset.range k,
        (if (call stream results j).writes then reported (results j) else 0) ∧
      ((call stream results k).progress = .failed ↔
        ∃ j < k, (call stream results j).writes = true ∧ results j = .failed) := by
  induction k with
  | zero =>
      refine ⟨rfl, iff_of_false nofun ?_⟩
      rintro ⟨j, hj, -⟩
      exact absurd hj (Nat.not_lt_zero j)
  | succ k ih =>
      obtain ⟨hlen, hfailed⟩ := ledger_round (taken_call hlength h k) (h k)
      constructor
      · rw [Finset.sum_range_succ, ← ih.1]
        exact hlen
      · rw [call, hfailed, ih.2]
        constructor
        · rintro (⟨j, hj, hwrites⟩ | hwrites)
          · exact ⟨j, Nat.lt_succ_of_lt hj, hwrites⟩
          · exact ⟨k, Nat.lt_succ_self k, hwrites⟩
        · rintro ⟨j, hj, hwrites⟩
          rcases Nat.lt_succ_iff_lt_or_eq.mp hj with hj | rfl
          · exact Or.inl ⟨j, hj, hwrites⟩
          · exact Or.inr hwrites

/-- While the call is in its loop, each round so far has moved the marker or was a timeout. -/
theorem rounds_le (h : AllPossible stream results) {k : ℕ} {w : Writing}
    (hc : (call stream results k).progress = .looping w) :
    k ≤ w.marker + Nat.count (fun j => results j = .again) k := by
  induction k generalizing w with
  | zero => exact Nat.zero_le _
  | succ k ih =>
      change ((call stream results k).round (results k)).progress = .looping w at hc
      by_cases hended : (call stream results k).Ended
      · rw [round_of_ended hended] at hc
        exact (hended w hc).elim
      · obtain ⟨u, hu⟩ := not_forall_not.mp hended
        have hle := ih hu
        rcases le_or_gt u.to_send 0 with hsend | hsend
        · rw [round_returned hu hsend] at hc
          cases hc
        · rw [Nat.count_succ]
          rcases write_of_possible hsend (h k u hu hsend) with
            ⟨count, hresult, hcount, hwrite⟩ | ⟨hresult, hwrite⟩ | ⟨_, hwrite⟩
          · rw [round_write hu hsend hwrite] at hc
            cases hc
            dsimp only
            omega
          · rw [round_write hu hsend hwrite] at hc
            cases hc
            rw [if_pos hresult]
            omega
          · rw [round_write hu hsend hwrite] at hc
            cases hc

/-- The call ends after as many rounds as there are bytes and timeouts, and one more. -/
theorem ended_of_finite (hlength : stream.length < 2 ^ 31) (h : AllPossible stream results)
    (hagain : {k | results k = .again}.Finite) :
    (call stream results (stream.length + hagain.toFinset.card + 1)).Ended := by
  intro w hc
  have hrounds := rounds_le h hc
  have htimeouts := Nat.count_le_card hagain (stream.length + hagain.toFinset.card + 1)
  obtain ⟨hstream, hexact, _⟩ := taken_looping (taken_call hlength h _) hc
  have hmarker := hexact.marker
  rw [hstream] at hmarker
  omega

end Rounds

/-- What is left to send before a round is the rest of the message. -/
theorem taken_left {stream : List UInt8} {c : Call} {w : Writing} (h : Taken stream c)
    (hc : c.progress = .looping w) :
    0 ≤ w.to_send ∧ w.marker + w.to_send = stream.length ∧
      c.taken ++ (stream.drop w.marker).take w.to_send.toNat = stream := by
  obtain ⟨hstream, hexact, htaken⟩ := taken_looping h hc
  have hmarker := hexact.marker
  have hleft := hexact.to_send
  rw [hstream] at hmarker hleft
  have hrest : (stream.drop w.marker).take w.to_send.toNat = stream.drop w.marker := by
    apply List.take_of_length_le
    rw [List.length_drop]
    omega
  refine ⟨by omega, by omega, ?_⟩
  rw [hrest, htaken, Writing.done, hstream]
  exact List.take_append_drop _ _

/-- A call ends when there are finitely many timeouts. The socket has taken as many bytes as
the calls of `write` reported, and before every round these and the bytes at the marker are
the message. The call fails if and only if a `write` fails; then the socket has taken a part
of the message that is not the whole, and where the call returns it has taken the message. -/
theorem call_sends_once {stream : List UInt8} {results : ℕ → WriteResult}
    (hlength : stream.length < 2 ^ 31) (hpossible : AllPossible stream results)
    (hagain : {k | results k = .again}.Finite) :
    (∃ n, (call stream results n).Ended) ∧
    (∀ k, (call stream results k).taken.length = ∑ j ∈ Finset.range k,
      (if (call stream results j).writes then reported (results j) else 0)) ∧
    (∀ k w, (call stream results k).progress = .looping w →
      0 ≤ w.to_send ∧ w.marker + w.to_send = stream.length ∧
        (call stream results k).taken ++ (stream.drop w.marker).take w.to_send.toNat = stream) ∧
    (∀ k, (call stream results k).progress = .returned →
      (call stream results k).taken = stream) ∧
    ∀ k, ((call stream results k).progress = .failed ↔
        ∃ j < k, (call stream results j).writes = true ∧ results j = .failed) ∧
      ((call stream results k).progress = .failed →
        (call stream results k).taken <+: stream ∧ (call stream results k).taken ≠ stream) := by
  have htaken := taken_call hlength hpossible
  have hledger := ledger_call hlength hpossible
  refine ⟨⟨_, ended_of_finite hlength hpossible hagain⟩, fun k => (hledger k).1, ?_, ?_, ?_⟩
  · intro k w hc
    exact taken_left (htaken k) hc
  · intro k hc
    have h := htaken k
    unfold Taken at h
    rw [hc] at h
    exact h
  · intro k
    refine ⟨(hledger k).2, fun hc => ?_⟩
    have h := htaken k
    unfold Taken at h
    rw [hc] at h
    exact h

/-- A timeout, a short count, another timeout, and the rest. -/
def inTwoPieces : ℕ → WriteResult
  | 0 => .again
  | 1 => .sent 1
  | 2 => .again
  | 3 => .sent 2
  | _ => .failed

theorem possible_inTwoPieces : AllPossible [60, 97, 62] inTwoPieces := by
  intro k w hc _ count hresult
  match k with
  | 0 => cases hresult
  | 1 =>
      cases hc
      cases hresult
      decide
  | 2 => cases hresult
  | 3 =>
      cases hc
      cases hresult
      decide
  | k + 4 => cases hresult

/-- Three bytes are sent in two pieces, each byte once, and the call returns. -/
theorem three_bytes_sent :
    (∃ n, (call [60, 97, 62] inTwoPieces n).Ended) ∧
      (call [60, 97, 62] inTwoPieces 5).taken = [60, 97, 62] ∧
      (call [60, 97, 62] inTwoPieces 3).taken.length = 1 := by
  have hfinite : {k | inTwoPieces k = .again}.Finite := by
    apply Set.Finite.subset (Set.finite_le_nat 3)
    intro k hk
    by_contra hlt
    obtain ⟨j, rfl⟩ : ∃ j, k = j + 4 := ⟨k - 4, by simp at hlt; omega⟩
    cases hk
  obtain ⟨hended, hlength, _, hreturned, _⟩ :=
    call_sends_once (by decide) possible_inTwoPieces hfinite
  exact ⟨hended, hreturned 5 rfl, hlength 3⟩

end Stabber.WriteLoop
