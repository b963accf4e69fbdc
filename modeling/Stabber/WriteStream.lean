import Mathlib.Tactic.Common
import Mathlib.Algebra.Ring.Int.Defs
import Mathlib.Algebra.Ring.Nat

/-!
# Writing to the client

The loop of `write_stream`. The length of the message is kept in an `int`, so a
message of 2^31 bytes or more has another length there.
-/

namespace Stabber.WriteStream

/-- A `size_t` stored in an `int`. -/
def toInt (n : ℕ) : ℤ := Int.bmod n (2 ^ 32)

/-- The variables of the loop. The marker is counted from the start of the message. -/
structure Writing where
  stream : List UInt8
  marker : ℕ
  to_send : ℤ
deriving Repr, DecidableEq

/-- What a call of `write` reports: a count, a timeout, or another error. -/
inductive WriteResult where
  | sent (count : ℕ)
  | again
  | failed
deriving Repr, DecidableEq

def writeStream (stream : List UInt8) : Writing := ⟨stream, 0, toInt stream.length⟩

namespace Writing

/-- One round of the loop: the bytes that the socket has taken, and the loop
afterwards, unless the error ends it. The socket takes no more than it is given. -/
def write (w : Writing) (result : WriteResult) : Option (List UInt8 × Option Writing) :=
  if w.to_send ≤ 0 then none
  else match result with
    | .sent count =>
        if (count : ℤ) ≤ w.to_send then
          some ((w.stream.drop w.marker).take count,
            some { w with marker := w.marker + count, to_send := w.to_send - count })
        else none
    | .again => some ([], some w)
    | .failed => some ([], none)

/-- The bytes sent so far. -/
def done (w : Writing) : List UInt8 := w.stream.take w.marker

/-- The loop has the right number of bytes left to send. -/
structure Exact (w : Writing) : Prop where
  marker : w.marker ≤ w.stream.length
  to_send : w.to_send = w.stream.length - w.marker

end Writing

theorem toInt_of_lt {n : ℕ} (h : n < 2 ^ 31) : toInt n = n := by
  unfold toInt
  rw [Int.bmod_def]
  split_ifs <;> omega

theorem toInt_le (n : ℕ) : toInt n ≤ n := by
  unfold toInt
  rw [Int.bmod_def]
  split_ifs <;> omega

theorem toInt_lt (n : ℕ) : toInt n < 2 ^ 31 := by
  unfold toInt
  rw [Int.bmod_def]
  split_ifs <;> omega

theorem exact_writeStream {stream : List UInt8} (h : stream.length < 2 ^ 31) :
    (writeStream stream).Exact := by
  constructor
  · exact Nat.zero_le _
  · unfold writeStream
    dsimp only
    rw [toInt_of_lt h]
    omega

namespace Writing
variable {w : Writing}

/-- What a round can do. -/
theorem write_cases {result : WriteResult} {bs : List UInt8} {rest : Option Writing}
    (h : w.write result = some (bs, rest)) : 0 < w.to_send ∧
      ((∃ count : ℕ, result = .sent count ∧ (count : ℤ) ≤ w.to_send ∧
          bs = (w.stream.drop w.marker).take count ∧
          rest = some { w with marker := w.marker + count, to_send := w.to_send - count }) ∨
        (result = .again ∧ bs = [] ∧ rest = some w) ∨
        (result = .failed ∧ bs = [] ∧ rest = none)) := by
  unfold write at h
  split_ifs at h with hsend
  refine ⟨by omega, ?_⟩
  cases result with
  | sent count =>
      dsimp only at h
      split_ifs at h with hcount
      cases h
      exact Or.inl ⟨count, rfl, hcount, rfl, rfl⟩
  | again =>
      cases h
      exact Or.inr (Or.inl ⟨rfl, rfl, rfl⟩)
  | failed =>
      cases h
      exact Or.inr (Or.inr ⟨rfl, rfl, rfl⟩)

/-- A round adds what the socket has taken to what has been sent. -/
theorem done_append {result : WriteResult} {bs : List UInt8} {w' : Writing}
    (h : w.write result = some (bs, some w')) :
    w'.stream = w.stream ∧ w'.done = w.done ++ bs := by
  rcases write_cases h with ⟨_, ⟨count, _, _, rfl, hw⟩ | ⟨_, rfl, hw⟩ | ⟨_, _, hw⟩⟩
  · cases hw
    exact ⟨rfl, List.take_add⟩
  · cases hw
    exact ⟨rfl, (List.append_nil _).symm⟩
  · cases hw

theorem done_of_write {w' : Writing} {bs : List UInt8} {result : WriteResult} (he : w.Exact)
    (h : w.write result = some (bs, some w')) :
    w'.Exact ∧ w'.stream = w.stream ∧ w'.done = w.done ++ bs := by
  refine ⟨?_, done_append h⟩
  rcases write_cases h with ⟨_, ⟨count, _, hcount, _, hw⟩ | ⟨_, _, hw⟩ | ⟨_, _, hw⟩⟩
  · cases hw
    have hmarker := he.marker
    have hsend := he.to_send
    constructor
    · change w.marker + count ≤ w.stream.length
      omega
    · change w.to_send - count = w.stream.length - ((w.marker + count : ℕ) : ℤ)
      omega
  · cases hw
    exact he
  · cases hw

/-- Only an error ends the call in a `write`. -/
theorem ended_of_write {result : WriteResult} {bs : List UInt8}
    (hwrite : w.write result = some (bs, none)) :
    0 < w.to_send ∧ result = .failed ∧ bs = [] := by
  rcases write_cases hwrite with
    ⟨hsend, ⟨_, _, _, _, hw⟩ | ⟨_, _, hw⟩ | ⟨hresult, hbs, _⟩⟩
  · cases hw
  · cases hw
  · exact ⟨hsend, hresult, hbs⟩

/-- Short of the end of the message, something is missing. -/
theorem done_ne_of_lt (h : w.marker < w.stream.length) : w.done ≠ w.stream := by
  intro hdone
  have hlength := congrArg List.length hdone
  unfold done at hlength
  rw [List.length_take] at hlength
  omega

/-- When the loop ends by itself, everything has been sent. -/
theorem done_of_returned (he : w.Exact) (h : w.to_send ≤ 0) : w.done = w.stream := by
  have hsend := he.to_send
  have hmarker := he.marker
  exact List.take_of_length_le (by omega)

end Writing

end Stabber.WriteStream
