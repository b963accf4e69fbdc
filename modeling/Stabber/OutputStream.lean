import Stabber.ServerSteps

/-!
# Messages one after the other

The calls of `write_stream` that the drain of the queue and the callbacks make, with any
results of `write`. A call that ends by an error tells its caller nothing, and the next
message follows. The messages are kept with what the socket has taken of each of them.
-/

namespace Stabber.OutputStream
open Callbacks Utf8 WriteStream Transition

/-- A message given to `write_stream`, and what the socket has taken of it. -/
structure Piece where
  message : List UInt8
  taken : List UInt8
deriving Repr, DecidableEq

def Piece.Whole (p : Piece) : Prop := p.taken = p.message

structure Output where
  /-- What the socket has taken, in order. -/
  wire : List UInt8
  /-- History: the calls that have returned. -/
  ended : List Piece
  /-- The call that is in its loop, and what the socket has taken from it. -/
  current : Option (Writing × List UInt8)
deriving Repr, DecidableEq

inductive Act where
  /-- `write_stream` is called. -/
  | call (stream : List UInt8)
  | write (result : WriteResult)
  /-- The loop is left with nothing to send. -/
  | returned
deriving Repr, DecidableEq

namespace Output
variable (o : Output)

def init : Output := ⟨[], [], none⟩

/-- The messages so far, in order. -/
def pieces : List Piece :=
  o.ended ++ (o.current.map fun c => Piece.mk c.1.stream c.2).toList

/-- The call in progress goes on, or is over. -/
def advance (stream taken bs : List UInt8) : Option Writing → Output
  | some w => { o with wire := o.wire ++ bs, current := some (w, taken ++ bs) }
  | none =>
      { wire := o.wire ++ bs
        ended := o.ended ++ [⟨stream, taken ++ bs⟩]
        current := none }

def step (o : Output) : Act → Option Output
  | .call stream =>
      match o.current with
      | none => some { o with current := some (writeStream stream, []) }
      | some _ => none
  | .write result =>
      match o.current with
      | none => none
      | some (w, taken) =>
          (w.write result).map fun p => o.advance w.stream taken p.1 p.2
  | .returned =>
      match o.current with
      | none => none
      | some (w, taken) =>
          if w.to_send ≤ 0 then some (o.advance w.stream taken [] none) else none

end Output

/-- The bytes that the socket has taken are the first part of the messages. Of two
messages, the first has been taken as a whole or nothing of the second has. -/
structure Uncorrupted (o : Output) : Prop where
  concatenation : o.wire <+: (o.pieces.map Piece.message).flatten
  kept : o.pieces.Pairwise fun p q => p.Whole ∨ q.taken = []

def messages (as : List Act) : List (List UInt8) :=
  as.filterMap fun
    | .call stream => some stream
    | _ => none

/-- A `write` that takes at least one byte. -/
def Act.takes : Act → Prop
  | .write (.sent count) => 0 < count
  | _ => False

/-- When the socket takes a byte, no `write` has failed for good before, and the messages
before the one being written had a length that fits into an `int`. -/
def Clear (as : List Act) : Prop :=
  .write .failed ∉ as ∧ ∀ m ∈ (messages as).dropLast, m.length < 2 ^ 31

def Undisturbed (as : List Act) : Prop :=
  ∀ before a after, as = before ++ a :: after → a.takes → Clear before

/-- The marker has moved by what the counter has been lowered, for any length. -/
structure Counted (w : Writing) : Prop where
  marker : (w.marker : ℤ) ≤ max 0 (toInt w.stream.length)
  to_send : w.to_send = toInt w.stream.length - w.marker

namespace Counted
variable {w : Writing}

theorem start (stream : List UInt8) : Counted (writeStream stream) := by
  unfold writeStream
  constructor
  · dsimp only
    omega
  · dsimp only
    omega

/-- With bytes left to send the message has not been taken as a whole. -/
theorem done_ne (h : Counted w) (hsend : 0 < w.to_send) : w.done ≠ w.stream := by
  have hleft := h.to_send
  have hle := toInt_le w.stream.length
  exact Writing.done_ne_of_lt (by omega)

/-- A loop that is left by itself has sent the message, if its length fits. -/
theorem done_eq_iff (h : Counted w) (hsend : w.to_send ≤ 0) :
    w.done = w.stream ↔ w.stream.length < 2 ^ 31 := by
  have hmarker := h.marker
  have hleft := h.to_send
  constructor
  · intro hdone
    have hlt := toInt_lt w.stream.length
    by_contra hlong
    exact Writing.done_ne_of_lt (by omega) hdone
  · intro hlt
    rw [toInt_of_lt hlt] at hleft
    exact List.take_of_length_le (by omega)

theorem write (h : Counted w) {result : WriteResult} {bs : List UInt8} {w' : Writing}
    (hwrite : w.write result = some (bs, some w')) : Counted w' ∧ result ≠ .failed := by
  have hmarker := h.marker
  have hleft := h.to_send
  rcases Writing.write_cases hwrite with
    ⟨_, ⟨count, hresult, hcount, _, hw⟩ | ⟨hresult, _, hw⟩ | ⟨_, _, hw⟩⟩
  · cases hw
    rw [hresult]
    refine ⟨⟨?_, ?_⟩, WriteResult.noConfusion⟩
    · dsimp only
      omega
    · dsimp only
      omega
  · cases hw
    rw [hresult]
    exact ⟨h, WriteResult.noConfusion⟩
  · cases hw

/-- A `write` takes bytes just if it reports a positive count. -/
theorem takes_iff (h : Counted w) {result : WriteResult} {bs : List UInt8}
    {rest : Option Writing} (hwrite : w.write result = some (bs, rest)) :
    (Act.write result).takes ↔ bs ≠ [] := by
  rcases Writing.write_cases hwrite with
    ⟨_, ⟨count, hresult, hcount, hbs, _⟩ | ⟨hresult, hbs, _⟩ | ⟨hresult, hbs, _⟩⟩
  · have hleft := h.to_send
    have hle := toInt_le w.stream.length
    rw [hresult, hbs, Act.takes, ← List.length_pos_iff, List.length_take, List.length_drop]
    omega
  · rw [hresult, hbs]
    exact iff_of_false id fun hne => hne rfl
  · rw [hresult, hbs]
    exact iff_of_false id fun hne => hne rfl

end Counted

section Step
variable {o o' : Output} {a : Act} {w : Writing} {taken : List UInt8}

/-- What a step can do. -/
theorem step_cases (h : o.step a = some o') :
    (∃ stream, a = .call stream ∧ o.current = none ∧
      o' = { o with current := some (writeStream stream, []) }) ∨
    (∃ w taken result bs rest, a = .write result ∧ o.current = some (w, taken) ∧
      w.write result = some (bs, rest) ∧ o' = o.advance w.stream taken bs rest) ∨
    (∃ w taken, a = .returned ∧ o.current = some (w, taken) ∧ w.to_send ≤ 0 ∧
      o' = o.advance w.stream taken [] none) := by
  cases a with
  | call stream =>
      unfold Output.step at h
      dsimp only at h
      split at h
      next hcurrent =>
        cases h
        exact Or.inl ⟨stream, rfl, hcurrent, rfl⟩
      next => cases h
  | write result =>
      unfold Output.step at h
      dsimp only at h
      split at h
      next => cases h
      next w taken hcurrent =>
        obtain ⟨p, hwrite, rfl⟩ := Option.map_eq_some_iff.mp h
        exact Or.inr (Or.inl ⟨w, taken, result, p.1, p.2, rfl, hcurrent, hwrite, rfl⟩)
  | returned =>
      unfold Output.step at h
      dsimp only at h
      split at h
      next => cases h
      next w taken hcurrent =>
        split_ifs at h with hsend
        cases h
        exact Or.inr (Or.inr ⟨w, taken, rfl, hcurrent, hsend, rfl⟩)

theorem pieces_idle (h : o.current = none) : o.pieces = o.ended := by
  rw [Output.pieces, h]
  exact List.append_nil _

theorem pieces_busy (h : o.current = some (w, taken)) :
    o.pieces = o.ended ++ [⟨w.stream, taken⟩] := by
  rw [Output.pieces, h]
  rfl

theorem pieces_advance (stream taken bs : List UInt8) {rest : Option Writing}
    (hrest : ∀ w', rest = some w' → w'.stream = stream) :
    (o.advance stream taken bs rest).pieces = o.ended ++ [⟨stream, taken ++ bs⟩] := by
  cases rest with
  | none => exact List.append_nil _
  | some w' =>
      rw [← hrest w' rfl]
      rfl

theorem messages_append (as bs : List Act) : messages (as ++ bs) = messages as ++ messages bs :=
  List.filterMap_append

theorem undisturbed_nil : Undisturbed [] := by
  intro before a after h
  cases before <;> cases h

theorem undisturbed_snoc (as : List Act) (a : Act) :
    Undisturbed (as ++ [a]) ↔ Undisturbed as ∧ (a.takes → Clear as) := by
  constructor
  · intro h
    constructor
    · intro before b after has
      exact h before b (after ++ [a]) (by rw [has, List.append_assoc, List.cons_append])
    · exact h as a [] rfl
  · intro h before b after has
    rcases List.eq_nil_or_concat after with hnil | ⟨after', c, hafter⟩
    · rw [hnil] at has
      obtain ⟨hbefore, hlast⟩ := List.append_inj' has rfl
      cases hlast
      rw [← hbefore]
      exact h.2
    · rw [hafter, List.concat_eq_append, ← List.cons_append, ← List.append_assoc] at has
      obtain ⟨hfront, _⟩ := List.append_inj' has rfl
      exact h.1 before b after' hfront

end Step

def Kept (ps : List Piece) : Prop := ps.Pairwise fun p q => p.Whole ∨ q.taken = []

/-- The messages up to one that is not taken as a whole are all that the socket has. -/
theorem flatten_of_kept {ps : List Piece} (hbegun : ∀ p ∈ ps, p.taken <+: p.message)
    (h : Kept ps) : (ps.map Piece.taken).flatten <+: (ps.map Piece.message).flatten := by
  induction ps with
  | nil => exact List.nil_prefix
  | cons p ps ih =>
      obtain ⟨hp, hps⟩ := List.pairwise_cons.mp h
      have hrest := ih (fun q hq => hbegun q (List.mem_cons_of_mem _ hq)) hps
      rw [List.map_cons, List.map_cons, List.flatten_cons, List.flatten_cons]
      by_cases hwhole : p.Whole
      · rw [hwhole]
        exact (List.prefix_append_right_inj _).mpr hrest
      · have hnothing : (ps.map Piece.taken).flatten = [] := by
          rw [List.flatten_eq_nil_iff]
          intro bs hbs
          obtain ⟨q, hq, rfl⟩ := List.mem_map.mp hbs
          exact (hp q hq).resolve_left hwhole
        rw [hnothing, List.append_nil]
        exact (hbegun p List.mem_cons_self).trans (List.prefix_append _ _)

theorem kept_snoc (ps : List Piece) (p : Piece) :
    Kept (ps ++ [p]) ↔ Kept ps ∧ ∀ q ∈ ps, q.Whole ∨ p.taken = [] := by
  unfold Kept
  rw [List.pairwise_append]
  simp

/-- More bytes of the last message are taken. -/
theorem kept_more (ps : List Piece) (stream taken bs : List UInt8) :
    Kept (ps ++ [⟨stream, taken ++ bs⟩]) ↔
      Kept (ps ++ [⟨stream, taken⟩]) ∧ (bs ≠ [] → ∀ p ∈ ps, p.Whole) := by
  rw [kept_snoc, kept_snoc]
  by_cases hbs : bs = []
  · rw [hbs, List.append_nil]
    simp
  · have hne : ¬ taken ++ bs = [] := fun h => hbs (List.append_eq_nil_iff.mp h).2
    constructor
    · intro h
      have hwhole : ∀ p ∈ ps, p.Whole := fun p hp => (h.2 p hp).resolve_right hne
      exact ⟨⟨h.1, fun p hp => Or.inl (hwhole p hp)⟩, fun _ => hwhole⟩
    · intro h
      exact ⟨h.1.1, fun p hp => Or.inl (h.2 hbs p hp)⟩

/-- The pieces after these calls and results. -/
structure Sound (o : Output) (as : List Act) : Prop where
  wire : o.wire = (o.pieces.map Piece.taken).flatten
  begun : ∀ p ∈ o.pieces, p.taken <+: p.message
  given : o.pieces.map Piece.message = messages as
  current : ∀ w taken, o.current = some (w, taken) → Counted w ∧ taken = w.done
  whole : (∀ p ∈ o.ended, p.Whole) ↔
    .write .failed ∉ as ∧ ∀ p ∈ o.ended, p.message.length < 2 ^ 31
  kept : Kept o.pieces ↔ Undisturbed as

theorem sound_init : Sound .init [] := by
  constructor
  · rfl
  · intro p hp
    cases hp
  · rfl
  · intro w taken h
    cases h
  · simp [Output.init]
  · exact iff_of_true List.Pairwise.nil undisturbed_nil

namespace Sound
variable {o : Output} {as : List Act} {w : Writing} {taken : List UInt8}

/-- The messages before the one being written are those of the calls that have ended. -/
theorem clear_iff (h : Sound o as) (hcurrent : o.current = some (w, taken)) :
    Clear as ↔ ∀ p ∈ o.ended, p.Whole := by
  have hmessages := h.given
  rw [pieces_busy hcurrent, List.map_append] at hmessages
  rw [h.whole, Clear, ← hmessages, List.map_singleton, List.dropLast_concat]
  simp

theorem call (h : Sound o as) (stream : List UInt8) (hcurrent : o.current = none) :
    Sound { o with current := some (writeStream stream, []) } (as ++ [.call stream]) := by
  have hidle := pieces_idle hcurrent
  have hpieces : ({ o with current := some (writeStream stream, []) } : Output).pieces =
      o.ended ++ [⟨stream, []⟩] := rfl
  constructor
  · rw [hpieces, List.map_append, List.flatten_append, ← hidle, ← h.wire]
    exact (List.append_nil _).symm
  · rw [hpieces]
    intro p hp
    rcases List.mem_append.mp hp with hp | hp
    · exact h.begun p (hidle ▸ hp)
    · rw [List.mem_singleton.mp hp]
      exact List.nil_prefix
  · rw [hpieces, List.map_append, ← hidle, h.given, messages_append]
    rfl
  · intro w taken hw
    cases hw
    exact ⟨Counted.start stream, rfl⟩
  · dsimp only
    rw [h.whole]
    simp
  · rw [hpieces, kept_snoc, undisturbed_snoc, ← h.kept, hidle]
    simp [Act.takes]

/-- The call in progress goes on or ends, after these bytes of its message. -/
theorem advance (h : Sound o as) (hcurrent : o.current = some (w, taken)) {a : Act}
    {bs : List UInt8} {rest : Option Writing} (ha : messages [a] = [])
    (htakes : a.takes ↔ bs ≠ []) (hbegun : taken ++ bs <+: w.stream)
    (hrest : ∀ w', rest = some w' →
      Counted w' ∧ w'.stream = w.stream ∧ w'.done = taken ++ bs ∧ a ≠ .write .failed)
    (hended : rest = none →
      (taken ++ bs = w.stream ↔ a ≠ .write .failed ∧ w.stream.length < 2 ^ 31)) :
    Sound (o.advance w.stream taken bs rest) (as ++ [a]) := by
  have hbusy := pieces_busy hcurrent
  have hpieces := @pieces_advance o w.stream taken bs rest fun w' hw' => (hrest w' hw').2.1
  constructor
  · have hwire : (o.advance w.stream taken bs rest).wire = o.wire ++ bs := by
      cases rest <;> rfl
    rw [hwire, h.wire, hpieces, hbusy]
    simp
  · rw [hpieces]
    intro p hp
    rcases List.mem_append.mp hp with hp | hp
    · apply h.begun
      rw [hbusy]
      exact List.mem_append_left _ hp
    · rw [List.mem_singleton.mp hp]
      exact hbegun
  · rw [messages_append, ha, List.append_nil, ← h.given, hpieces, hbusy]
    simp
  · intro u bytes hu
    cases rest with
    | none => cases hu
    | some w' =>
        cases hu
        obtain ⟨hcounted, _, hdone, _⟩ := hrest _ rfl
        exact ⟨hcounted, hdone.symm⟩
  · cases rest with
    | none =>
        change (∀ p ∈ o.ended ++ [⟨w.stream, taken ++ bs⟩], p.Whole) ↔
          .write .failed ∉ as ++ [a] ∧
            ∀ p ∈ o.ended ++ [⟨w.stream, taken ++ bs⟩], p.message.length < 2 ^ 31
        rw [List.forall_mem_append, List.forall_mem_append, h.whole, List.forall_mem_singleton,
          List.forall_mem_singleton, Piece.Whole, hended rfl, List.mem_append, List.mem_singleton,
          not_or]
        constructor
        · intro hall
          exact ⟨⟨hall.1.1, Ne.symm hall.2.1⟩, hall.1.2, hall.2.2⟩
        · intro hall
          exact ⟨⟨hall.1.1, hall.2.1⟩, Ne.symm hall.1.2, hall.2.2⟩
    | some w' =>
        have hfailed := (hrest w' rfl).2.2.2
        change (∀ p ∈ o.ended, p.Whole) ↔ .write .failed ∉ as ++ [a] ∧ _
        rw [h.whole, List.mem_append, List.mem_singleton, not_or]
        constructor
        · intro hall
          exact ⟨⟨hall.1, Ne.symm hfailed⟩, hall.2⟩
        · intro hall
          exact ⟨hall.1.1, hall.2⟩
  · rw [hpieces, kept_more, undisturbed_snoc, ← h.kept, hbusy, htakes, h.clear_iff hcurrent]

end Sound

/-- What the socket has taken of a message, when it is a part of it. -/
theorem part_of_taken {w : Writing} {taken : List UInt8} (htaken : taken = w.done) :
    taken ++ [] <+: w.stream := by
  rw [List.append_nil, htaken]
  exact List.take_prefix _ _

theorem sound_step {o o' : Output} {as : List Act} {a : Act} (h : Sound o as)
    (hstep : o.step a = some o') : Sound o' (as ++ [a]) := by
  rcases step_cases hstep with ⟨stream, rfl, hcurrent, rfl⟩ |
    ⟨w, taken, result, bs, rest, rfl, hcurrent, hwrite, rfl⟩ |
    ⟨w, taken, rfl, hcurrent, hsend, rfl⟩
  · exact h.call stream hcurrent
  · obtain ⟨hcounted, htaken⟩ := h.current w taken hcurrent
    have htakes := hcounted.takes_iff hwrite
    cases rest with
    | some w' =>
        obtain ⟨hcounted', hresult⟩ := hcounted.write hwrite
        obtain ⟨hstream, hdone⟩ := Writing.done_append hwrite
        rw [← htaken] at hdone
        have hbegun : taken ++ bs <+: w.stream := by
          rw [← hdone, ← hstream]
          exact List.take_prefix _ _
        apply h.advance hcurrent rfl htakes hbegun
        · intro u hu
          cases hu
          exact ⟨hcounted', hstream, hdone, fun hfailed => hresult (Act.write.inj hfailed)⟩
        · intro hnone
          cases hnone
    | none =>
        obtain ⟨hsend, hresult, hbs⟩ := Writing.ended_of_write hwrite
        subst hresult hbs
        apply h.advance hcurrent rfl htakes (part_of_taken htaken)
        · intro u hu
          cases hu
        · intro _
          rw [List.append_nil, htaken]
          exact iff_of_false (hcounted.done_ne hsend) fun hfailed => hfailed.1 rfl
  · obtain ⟨hcounted, htaken⟩ := h.current w taken hcurrent
    apply h.advance hcurrent rfl (iff_of_false id fun hne => hne rfl) (part_of_taken htaken)
    · intro u hu
      cases hu
    · intro _
      rw [List.append_nil, htaken, hcounted.done_eq_iff hsend]
      exact (and_iff_right Act.noConfusion).symm

theorem sound_of_run {o : Output} {as : List Act} (h : run Output.step .init as = some o) :
    Sound o as := by
  apply run_induction (P := fun as o => Sound o as) sound_init ?_ h
  intro as a o o' hsound hstep
  exact sound_step hsound hstep

/-- What the socket has taken is the first part of the messages, with nothing passed over,
just if the socket never takes a byte after an error or after a message whose length does
not fit into an `int`. -/
theorem uncorrupted_iff {o : Output} {as : List Act}
    (h : run Output.step .init as = some o) : Uncorrupted o ↔ Undisturbed as := by
  have hsound := sound_of_run h
  constructor
  · intro hun
    exact hsound.kept.mp hun.kept
  · intro hun
    have hkept := hsound.kept.mpr hun
    constructor
    · rw [hsound.wire]
      exact flatten_of_kept hsound.begun hkept
    · exact hkept

/-- Until the first error everything is taken in order, and after it nothing is. -/
theorem undisturbed_of_silent {as bs : List Act} (herror : .write .failed ∉ as)
    (hlength : ∀ m ∈ messages as, m.length < 2 ^ 31) (hsilent : ∀ a ∈ bs, ¬ a.takes) :
    Undisturbed (as ++ bs) := by
  intro before a after has htakes
  have hclear : ∀ rest, as = before ++ a :: rest → Clear before := by
    rintro rest rfl
    constructor
    · exact fun hmem => herror (List.mem_append_left _ hmem)
    · intro m hm
      apply hlength
      rw [messages_append]
      exact List.mem_append_left _ (List.dropLast_subset _ hm)
  rcases List.append_eq_append_iff.mp has with ⟨c, -, hbs⟩ | ⟨c, has, hrest⟩
  · have hmem : a ∈ bs := by
      rw [hbs]
      exact List.mem_append_right _ List.mem_cons_self
    exact (hsilent a hmem htakes).elim
  · cases c with
    | nil =>
        have hmem : a ∈ bs := by
          rw [← List.nil_append bs, ← hrest]
          exact List.mem_cons_self
        exact (hsilent a hmem htakes).elim
    | cons b c =>
        obtain ⟨rfl, -⟩ := List.cons.inj hrest
        exact hclear c has

/-- Four messages: the first is taken in two pieces, an error cuts off the second, and of
the others the socket takes nothing. -/
def cutOff : List Act :=
  [.call [60, 97], .write (.sent 1), .write .again, .write (.sent 1), .returned, .call [62, 98],
    .write (.sent 1)] ++
  [.write .failed, .call [99], .write .again, .write .failed, .call [100]]

theorem cut_off_uncorrupted : ∃ o, run Output.step .init cutOff = some o ∧
    o.pieces.map Piece.taken = [[60, 97], [62], [], []] ∧ Uncorrupted o := by
  have hrun : run Output.step .init cutOff =
      some ⟨[60, 97, 62], [⟨[60, 97], [60, 97]⟩, ⟨[62, 98], [62]⟩, ⟨[99], []⟩],
        some (writeStream [100], [])⟩ := by decide +kernel
  have hclear : Undisturbed cutOff :=
    undisturbed_of_silent (by decide) (by decide) (by simp [Act.takes])
  exact ⟨_, hrun, rfl, (uncorrupted_iff hrun).mpr hclear⟩

/-- The answer to a stream header, whose first message is cut off by an error while the
next one is taken. -/
theorem cut_header_corrupted : ∃ o, run Output.step .init
    [.call (utf8 XML_START), .write (.sent 5), .write .failed, .call (utf8 STREAM_RESP),
      .write (.sent 14)] = some o ∧
    ¬ o.wire <+: (o.pieces.map Piece.message).flatten ∧ ¬ Uncorrupted o := by
  have hrun : (run Output.step .init
      [.call (utf8 XML_START), .write (.sent 5), .write .failed, .call (utf8 STREAM_RESP),
        .write (.sent 14)]).any (fun o =>
      !(o.wire.isPrefixOf (o.pieces.map Piece.message).flatten)) = true := by decide +kernel
  obtain ⟨o, ho, htest⟩ := (Option.any_eq_true _ _).mp hrun
  have hwire : ¬ o.wire <+: (o.pieces.map Piece.message).flatten := by
    intro h
    rw [List.isPrefixOf_iff_prefix.mpr h] at htest
    cases htest
  exact ⟨o, ho, hwire, fun h => hwire h.concatenation⟩

/-! ## The server -/

/-- The calls, the wire and the loop of the server are those of these messages. -/
structure Carries (s : Server.State) (o : Output) : Prop where
  entered : s.entered.map Prod.snd = o.pieces.map Piece.message
  wire : s.wire.map Prod.snd = o.wire
  writing : s.writing.map Prod.snd = o.current.map Prod.fst

theorem run_one {o o' : Output} {a : Act} (h : o.step a = some o') :
    run Output.step o [a] = some o' := by
  rw [run, h]
  rfl

namespace Carries
variable {S : Server.Setting} {s t : Server.State} {o : Output}

theorem same (h : Carries s o) (hentered : t.entered = s.entered) (hwire : t.wire = s.wire)
    (hwriting : t.writing = s.writing) : Carries t o := by
  constructor
  · rw [hentered]
    exact h.entered
  · rw [hwire]
    exact h.wire
  · rw [hwriting]
    exact h.writing

/-- `write_stream` is entered. -/
theorem enter (h : Carries s o) (hw : s.writing = none) {origin : Server.Origin}
    {m : List UInt8} (hentered : t.entered = s.entered ++ [(origin, m)])
    (hwire : t.wire = s.wire) (hwriting : t.writing = some (origin, writeStream m)) :
    ∃ as o', run Output.step o as = some o' ∧ Carries t o' := by
  have hcurrent : o.current = none := by
    have hwritings := h.writing
    rw [hw] at hwritings
    exact Option.map_eq_none_iff.mp hwritings.symm
  have hstep : o.step (.call m) = some { o with current := some (writeStream m, []) } := by
    unfold Output.step
    rw [hcurrent]
  refine ⟨_, _, run_one hstep, ?_, ?_, ?_⟩
  · rw [hentered, List.map_append, h.entered, pieces_idle hcurrent, Output.pieces,
      List.map_append]
    rfl
  · rw [hwire]
    exact h.wire
  · rw [hwriting]
    rfl

/-- The loop that the server is in. -/
theorem current (h : Carries s o) {origin : Server.Origin} {w : Writing}
    (hw : s.writing = some (origin, w)) : ∃ taken, o.current = some (w, taken) := by
  have hwritings := h.writing
  rw [hw] at hwritings
  obtain ⟨c, hc, hcw⟩ := Option.map_eq_some_iff.mp hwritings.symm
  refine ⟨c.2, ?_⟩
  rw [hc]
  exact congrArg some (Prod.ext hcw rfl)

theorem advance (h : Carries s o) {w : Writing} {taken bs : List UInt8}
    {rest : Option Writing} (hcurrent : o.current = some (w, taken))
    (hrest : ∀ w', rest = some w' → w'.stream = w.stream) (hentered : t.entered = s.entered)
    (hwire : t.wire.map Prod.snd = s.wire.map Prod.snd ++ bs)
    (hwriting : t.writing.map Prod.snd = rest) : Carries t (o.advance w.stream taken bs rest) := by
  constructor
  · rw [hentered, h.entered, pieces_busy hcurrent, pieces_advance _ _ _ hrest]
    simp
  · rw [hwire, h.wire]
    cases rest <;> rfl
  · rw [hwriting]
    cases rest <;> rfl

/-- Every step of the server makes at most one of these steps. -/
theorem step (h : Carries s o) {a : Server.Action} (hstep : Server.Step S s a t) :
    ∃ as o', run Output.step o as = some o' ∧ Carries t o' := by
  cases hstep with
  | @write result origin w bs rest hw hwrite =>
      obtain ⟨taken, hcurrent⟩ := h.current hw
      have ho' : o.step (.write result) = some (o.advance w.stream taken bs rest) := by
        unfold Output.step
        rw [hcurrent]
        dsimp only
        rw [hwrite]
        rfl
      refine ⟨_, _, run_one ho', h.advance hcurrent ?_ ?_ ?_ ?_⟩
      · intro w' hw'
        rw [hw'] at hwrite
        exact (Writing.done_append hwrite).1
      · rfl
      · simp
      · simp
  | @returned origin w hw hsend =>
      obtain ⟨taken, hcurrent⟩ := h.current hw
      have ho' : o.step .returned = some (o.advance w.stream taken [] none) := by
        unfold Output.step
        rw [hcurrent]
        exact if_pos hsend
      refine ⟨_, _, run_one ho', h.advance hcurrent ?_ ?_ ?_ ?_⟩
      · intro w' hw'
        cases hw'
      · rfl
      · simp
      · rfl
  | take hw hpc => exact h.enter hw rfl rfl rfl
  | reply hw hpc => exact h.enter hw rfl rfl rfl
  | streamEnd hw hpc hend => exact h.enter hw rfl rfl rfl
  | @call _ _ _ c _ _ _ hw hpc hclient hcall =>
      obtain ⟨_, _, _, hrecord⟩ := s.record_eq c
      rw [hrecord]
      exact ⟨[], o, rfl, h.same rfl rfl rfl⟩
  | _ => exact ⟨[], o, rfl, h.same rfl rfl rfl⟩

end Carries

/-- In every run of the server the wire carries the messages that the drain and the
callbacks give to `write_stream`, as some calls and results make it. -/
theorem carries_of_run {S : Server.Setting} {s t : Server.State} {as : List Server.Action}
    (hs : Server.Started s) (h : run (Server.step S) s as = some t) :
    ∃ bs o, run Output.step .init bs = some o ∧ Carries t o := by
  apply run_induction
    (P := fun _ u => ∃ bs o, run Output.step .init bs = some o ∧ Carries u o) ?_ ?_ h
  · refine ⟨[], .init, rfl, ?_, ?_, ?_⟩
    · rw [hs.entered]
      rfl
    · rw [hs.wire]
      rfl
    · rw [hs.writing]
      rfl
  · intro _ a u v hu hstep
    obtain ⟨bs, o, hbs, hcarries⟩ := hu
    obtain ⟨cs, o', hcs, hcarries'⟩ := hcarries.step (Server.step_cases hstep)
    refine ⟨bs ++ cs, o', ?_, hcarries'⟩
    rw [run_append, hbs]
    exact hcs

end Stabber.OutputStream
