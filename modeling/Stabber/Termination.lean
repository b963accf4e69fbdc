import Mathlib.Data.Prod.Lex
import Stabber.FairRuns
import Stabber.Lifecycle

/-!
# The server thread comes to its end

`server_stop` sets `kill_recv` and joins the server thread. From then on the thread has only
so much left to do: each of its steps, but a `write` that takes nothing, brings it nearer to
its end, and no step of another thread takes it back.
-/

namespace Stabber.Termination
open XmlDocument Stanza StanzaParse StreamParser StreamTree Callbacks Utf8 ReadStream WriteStream
open Transition FairRuns Server State

/-- The places of the thread, from the last. -/
def phase : Pc → ℕ
  | .finished => 0
  | .crashed => 0
  | .top => 1
  | .ending => 2
  | .feeding _ _ _ _ => 3
  | .receiving => 4
  | .draining _ => 5
  | .accepting => 6

def eventsLeft : Pc → ℕ
  | .feeding _ events _ _ => events.length
  | _ => 0

def callsLeft : Pc → ℕ
  | .feeding _ _ calls _ => calls.length
  | _ => 0

def messagesLeft : Pc → ℕ
  | .feeding _ _ _ replies => replies.length
  | .draining rest => rest.length
  | _ => 0

/-- What `write_stream` has left to do. -/
def writingLeft : Option (Origin × Writing) → ℕ
  | none => 0
  | some (_, w) => w.to_send.toNat + 1

abbrev Rank := ℕ ×ₗ ℕ ×ₗ ℕ ×ₗ ℕ ×ₗ ℕ

def rankOf (pc : Pc) (writing : Option (Origin × Writing)) : Rank :=
  toLex (phase pc, toLex (eventsLeft pc, toLex (callsLeft pc,
    toLex (messagesLeft pc, writingLeft writing))))

def rank (s : State) : Rank := rankOf s.pc s.writing

/-- A step of the thread, unless it is a `write` that takes nothing. -/
def Progresses : Action → Prop
  | .accept _ => True
  | .recv _ => True
  | .thread => True
  | .write .failed => True
  | .write (.sent count) => 0 < count
  | _ => False

section Order
variable {s t : State}

theorem lex_head {β : Type} [LT β] {a a' : ℕ} {b b' : β} (h : a < a') :
    toLex (a, b) < toLex (a', b') :=
  Prod.Lex.toLex_lt_toLex.mpr (Or.inl h)

theorem lex_tail {β : Type} [LT β] {a : ℕ} {b b' : β} (h : b < b') :
    toLex (a, b) < toLex (a, b') :=
  Prod.Lex.toLex_lt_toLex.mpr (Or.inr ⟨rfl, h⟩)

theorem rank_lt_of_phase (h : phase t.pc < phase s.pc) : rank t < rank s := lex_head h

theorem rank_lt_of_pc {pc : Pc} (hpc : s.pc = pc) (h : phase t.pc < phase pc) :
    rank t < rank s := by
  apply rank_lt_of_phase
  rw [hpc]
  exact h

theorem rank_lt_of_writing (hpc : t.pc = s.pc) (h : writingLeft t.writing < writingLeft s.writing) :
    rank t < rank s := by
  unfold rank rankOf
  rw [hpc]
  exact lex_tail (lex_tail (lex_tail (lex_tail h)))

theorem rank_eq (hpc : t.pc = s.pc) (hw : t.writing = s.writing) : rank t = rank s := by
  unfold rank rankOf
  rw [hpc, hw]

theorem rank_le_of_writing (hpc : t.pc = s.pc) (h : writingLeft t.writing ≤ writingLeft s.writing) :
    rank t ≤ rank s := by
  rcases h.lt_or_eq with hlt | heq
  · exact (rank_lt_of_writing hpc hlt).le
  · refine le_of_eq ?_
    unfold rank rankOf
    rw [hpc, heq]

/-- A fault ends the thread as well. -/
theorem rank_crash (s : State) : rank s.crash ≤ rank s := by
  by_cases hphase : phase s.pc = 0
  · have hrest : eventsLeft s.pc = 0 ∧ callsLeft s.pc = 0 ∧ messagesLeft s.pc = 0 := by
      cases hpc : s.pc <;> rw [hpc] at hphase <;> first | exact ⟨rfl, rfl, rfl⟩ | cases hphase
    have hsame : rank s.crash = rank s := by
      unfold rank rankOf
      rw [hphase, hrest.1, hrest.2.1, hrest.2.2]
      rfl
    exact hsame.le
  · have hpos : phase s.crash.pc < phase s.pc := Nat.pos_of_ne_zero hphase
    exact (rank_lt_of_phase hpos).le

end Order

section Steps
variable {S : Setting} {s t : State}

theorem rank_call (S : Setting) {chunk : List UInt8} {events : List Event}
    {c : Call XMPPStanza} {calls : List (Call XMPPStanza)}
    (hpc : s.pc = .feeding chunk events (c :: calls) []) :
    rank (s.call S chunk events calls c) < rank s := by
  have hcrash : rank s.crash < rank s := rank_lt_of_pc hpc (by decide : 0 < 3)
  unfold State.call
  split
  next => exact hcrash
  next client hclient =>
    split
    next => exact hcrash
    next client' messages hcall =>
      unfold rank rankOf
      rw [hpc]
      exact lex_tail (lex_tail (lex_head (Nat.lt_succ_self _)))

theorem rank_event {chunk : List UInt8} {e : Event} {events : List Event}
    (hpc : s.pc = .feeding chunk (e :: events) [] []) : rank (s.event chunk events e) < rank s := by
  unfold State.event
  split
  next => exact rank_lt_of_pc hpc (by decide : 0 < 3)
  next parser hevent =>
    unfold rank rankOf
    rw [hpc]
    exact lex_tail (lex_head (Nat.lt_succ_self _))

theorem rank_endChunk {chunk : List UInt8} (hpc : s.pc = .feeding chunk [] [] []) :
    rank (s.endChunk chunk) < rank s := by
  unfold endChunk
  dsimp only
  split_ifs
  · exact rank_lt_of_pc hpc (by decide : 2 < 3)
  · exact rank_lt_of_pc hpc (by decide : 1 < 3)

theorem rank_thread (hkill : s.kill_recv = true) (h : s.thread S = some t) : rank t < rank s := by
  unfold thread at h
  split at h
  next origin w hw =>
    split_ifs at h
    cases h
    refine rank_lt_of_writing rfl ?_
    rw [hw]
    exact Nat.succ_pos _
  next hw =>
    split at h
    next hpc =>
      -- with `kill_recv` set the thread does not go round the loop again
      rw [if_pos hkill] at h
      cases h
      exact rank_lt_of_pc hpc (by decide : 0 < 1)
    next stream rest hpc =>
      cases h
      unfold rank rankOf
      rw [hpc]
      exact lex_tail (lex_tail (lex_tail (lex_head (Nat.lt_succ_self _))))
    next hpc =>
      cases h
      exact rank_lt_of_pc hpc (by decide : 4 < 5)
    next chunk events calls m replies hpc =>
      cases h
      unfold rank rankOf
      rw [hpc]
      exact lex_tail (lex_tail (lex_tail (lex_head (Nat.lt_succ_self _))))
    next chunk events c calls hpc =>
      cases h
      exact rank_call S hpc
    next chunk e events hpc =>
      cases h
      exact rank_event hpc
    next chunk hpc =>
      cases h
      exact rank_endChunk hpc
    next hpc =>
      cases h
      exact rank_lt_of_pc hpc (by decide : 1 < 2)
    next => cases h

theorem rank_accept {result : AcceptResult} (hkill : s.kill_recv = true)
    (h : s.accept result = some t) : rank t < rank s := by
  unfold accept at h
  split at h
  next hpc =>
    rw [if_pos hkill] at h
    cases h
    exact rank_lt_of_pc hpc (by decide : 0 < 6)
  next => cases h

theorem rank_recv {result : RecvResult} (h : s.recv result = some t) : rank t < rank s := by
  unfold recv at h
  split at h
  next hpc =>
    cases result with
    | closed =>
        cases h
        exact rank_lt_of_pc hpc (by decide : 0 < 4)
    | again =>
        cases h
        exact rank_lt_of_pc hpc (by decide : 1 < 4)
    | failed =>
        cases h
        exact rank_lt_of_pc hpc (by decide : 0 < 4)
    | data chunk events =>
        dsimp only at h
        split_ifs at h
        cases h
        exact rank_lt_of_pc hpc (by decide : 3 < 4)
  next => cases h

/-- A round of `write_stream` leaves no more to do, and less if the socket takes a byte or
fails. -/
theorem writingLeft_write (origin : Origin) {w : Writing} {result : WriteResult} {bs : List UInt8}
    {rest : Option Writing} (h : w.write result = some (bs, rest)) :
    writingLeft (rest.map (origin, ·)) ≤ writingLeft (some (origin, w)) ∧
      (Progresses (.write result) →
        writingLeft (rest.map (origin, ·)) < writingLeft (some (origin, w))) := by
  rcases Writing.write_cases h with
    ⟨hsend, ⟨count, rfl, hcount, -, rfl⟩ | ⟨rfl, -, rfl⟩ | ⟨rfl, -, rfl⟩⟩
  · change (w.to_send - count).toNat + 1 ≤ w.to_send.toNat + 1 ∧
      (0 < count → (w.to_send - count).toNat + 1 < w.to_send.toNat + 1)
    omega
  · exact ⟨le_refl _, False.elim⟩
  · exact ⟨Nat.zero_le _, fun _ => Nat.succ_pos _⟩

theorem rank_write {result : WriteResult} (h : s.write result = some t) :
    rank t ≤ rank s ∧ (Progresses (.write result) → rank t < rank s) := by
  unfold State.write at h
  split at h
  next => cases h
  next origin w hw =>
    obtain ⟨⟨bs, rest⟩, hwrite, rfl⟩ := Option.map_eq_some_iff.mp h
    obtain ⟨hle, hlt⟩ := writingLeft_write origin hwrite
    rw [← hw] at hle hlt
    exact ⟨rank_le_of_writing rfl hle, fun ha => rank_lt_of_writing rfl (hlt ha)⟩

theorem rank_primeWith (primed : Except Fault Priming.Primed) :
    rank (s.primeWith primed) ≤ rank s := by
  cases primed with
  | error fault => exact rank_crash s
  | ok primed => exact (rank_eq rfl rfl).le

/-- Once `kill_recv` is set, no step adds to what the thread has to do, and the thread's own
steps leave less. -/
theorem rank_step {a : Action} (hkill : s.kill_recv = true) (h : step S s a = some t) :
    rank t ≤ rank s ∧ (Progresses a → rank t < rank s) := by
  have hcrash := running_of_step h
  have hown : rank t < rank s → rank t ≤ rank s ∧ (Progresses a → rank t < rank s) :=
    fun hlt => ⟨hlt.le, fun _ => hlt⟩
  unfold step at h
  rw [if_neg hcrash] at h
  cases a with
  | send stream =>
      dsimp only at h
      split_ifs at h
      cases h
      exact ⟨(rank_eq rfl rfl).le, False.elim⟩
  | requiredPasswd | forId | setTimeout | verifyAny | verifyLast | containsId | stop =>
      cases h
      exact ⟨(rank_eq rfl rfl).le, False.elim⟩
  | forQuery | forXmlns =>
      cases h
      exact ⟨rank_primeWith _, False.elim⟩
  | accept result => exact hown (rank_accept hkill h)
  | recv result => exact hown (rank_recv h)
  | write result => exact rank_write h
  | thread => exact hown (rank_thread hkill h)

theorem kill_stays {a : Action} (hkill : s.kill_recv = true) (h : step S s a = some t) :
    t.kill_recv = true := by
  cases step_cases h with
  | @call _ _ _ c _ _ _ hw hpc hclient hcall => exact (s.record_kill_recv c).trans hkill
  | stop | kill => rfl
  | _ => exact hkill

theorem running_of_ne (h : s.pc ≠ .crashed) : ¬ s.pc.isCrashed = true := by
  intro hcrash
  cases hpc : s.pc with
  | crashed => exact h hpc
  | _ =>
      rw [hpc] at hcrash
      cases hcrash

/-- In `write_stream` the next round is due, or the loop is over. -/
theorem isSome_writing {origin : Origin} {w : Writing} (hw : s.writing = some (origin, w))
    (hrunning : ¬ s.pc.isCrashed = true) :
    (step S s .thread).isSome = true ∨ (step S s (.write .failed)).isSome = true := by
  by_cases hsend : w.to_send ≤ 0
  · left
    rw [step_returned (by simpa using hrunning) hw hsend]
    rfl
  · right
    unfold step
    rw [if_neg hrunning]
    dsimp only
    unfold State.write
    rw [hw]
    dsimp only
    unfold Writing.write
    rw [if_neg hsend]
    rfl

/-- Until it has come to its end the thread can always go on. -/
theorem can_progress (S : Setting) (hkill : s.kill_recv = true) (hfinished : s.pc ≠ .finished)
    (hcrashed : s.pc ≠ .crashed) : ∃ a, Progresses a ∧ (step S s a).isSome = true := by
  have hrunning := running_of_ne hcrashed
  cases hw : s.writing with
  | some p =>
      rcases isSome_writing (S := S) hw hrunning with hthread | hfailed
      · exact ⟨.thread, trivial, hthread⟩
      · exact ⟨.write .failed, trivial, hfailed⟩
  | none =>
      have hthread : (s.thread S).isSome = true →
          ∃ a, Progresses a ∧ (step S s a).isSome = true := by
        intro h
        refine ⟨.thread, trivial, ?_⟩
        unfold step
        rw [if_neg hrunning]
        exact h
      cases hpc : s.pc with
      | accepting =>
          refine ⟨.accept .again, trivial, ?_⟩
          unfold step
          rw [if_neg hrunning]
          dsimp only
          unfold accept
          rw [hpc]
          dsimp only
          rw [if_pos hkill]
          rfl
      | receiving =>
          refine ⟨.recv .closed, trivial, ?_⟩
          unfold step
          rw [if_neg hrunning]
          dsimp only
          unfold recv
          rw [hpc]
          rfl
      | finished => exact (hfinished hpc).elim
      | crashed => exact (hcrashed hpc).elim
      | top =>
          apply hthread
          unfold thread
          rw [hw, hpc]
          dsimp only
          rw [if_pos hkill]
          rfl
      | draining rest =>
          apply hthread
          unfold thread
          rw [hw, hpc]
          cases rest <;> rfl
      | feeding chunk events calls replies =>
          apply hthread
          unfold thread
          rw [hw, hpc]
          cases replies with
          | cons m replies => rfl
          | nil =>
              cases calls with
              | cons c calls => rfl
              | nil => cases events <;> rfl
      | ending =>
          apply hthread
          unfold thread
          rw [hw, hpc]
          rfl

end Steps

/-! ## The join -/

section Join
open Lifecycle
variable {S : Setting} {w v : World}

/-- What the thread that is joined has left to do. -/
def joinRank (w : World) : Rank :=
  match w.threads.getLast? with
  | some t => rankOf t.pc t.writing
  | none => rankOf .finished none

/-- `stbbr_stop` is in `pthread_join`. -/
structure Joining (w : World) : Prop where
  caller : w.caller = .joining
  kill_recv : w.shared.kill_recv = true

/-- A step of the thread that is joined, unless it is a `write` that takes nothing. -/
def Nearer (w : World) : Act → Prop
  | .thread i a => i + 1 = w.threads.length ∧ Progresses a
  | _ => False

/-- The join is over, or the process. -/
def Over (w : World) : Prop := w.caller = .idle ∨ w.crashed = true

theorem getLast?_set {α : Type} {xs : List α} {i : ℕ} {x : α} (hi : i < xs.length) :
    (xs.set i x).getLast? = if i + 1 = xs.length then some x else xs.getLast? := by
  rw [List.getLast?_eq_getElem?, List.getLast?_eq_getElem?, List.length_set, List.getElem?_set]
  split_ifs with hlast hnot hnot
  · rfl
  · omega
  · omega
  · rfl

/-- Only a step of the thread that is joined changes what it has left to do. -/
theorem joinRank_set {i : ℕ} {t : Thread} (ht : w.threads[i]? = some t) (s : State) :
    joinRank { w with threads := w.threads.set i ⟨s.pc, s.writing, s.stream, t.joined⟩ } =
      if i + 1 = w.threads.length then rank s else joinRank w := by
  have hi : i < w.threads.length := (List.getElem?_eq_some_iff.mp ht).1
  unfold joinRank
  dsimp only
  rw [getLast?_set hi]
  split_ifs
  · rfl
  · rfl

theorem joinRank_view {i : ℕ} {t : Thread} (ht : w.threads[i]? = some t)
    (hi : i + 1 = w.threads.length) : joinRank w = rank (w.view t) := by
  have hlast : w.threads.getLast? = some t := by
    rw [List.getLast?_eq_getElem?, ← ht, ← hi]
    rfl
  unfold joinRank
  rw [hlast]
  rfl

theorem joining_thread (h : Joining w) {i : ℕ} {a : Action} (hstep : w.threadStep S i a = some v) :
    Over v ∨ Joining v ∧ Lowers joinRank Nearer w (.thread i a) v := by
  rcases threadStep_changes hstep with rfl | ⟨t, s, ht, -, hs, rfl⟩
  · exact Or.inl (Or.inr rfl)
  · have hkill : (w.view t).kill_recv = true := h.kill_recv
    have hstays := kill_stays hkill hs
    obtain ⟨hle, hlt⟩ := rank_step hkill hs
    have hrank := joinRank_set ht s
    refine Or.inr ⟨⟨h.caller, hstays⟩, ?_⟩
    by_cases hi : i + 1 = w.threads.length
    · rw [if_pos hi] at hrank
      have hview := joinRank_view ht hi
      constructor
      · refine hrank.trans_le ?_
        rw [hview]
        exact hle
      · intro hnearer
        refine hrank.trans_lt ?_
        rw [hview]
        exact hlt hnearer.2
    · rw [if_neg hi] at hrank
      exact ⟨hrank.le, fun hnearer => (hi hnearer.1).elim⟩

theorem ranked_join (S : Setting) :
    Ranked (Lifecycle.step S) joinRank Joining Over Nearer := by
  intro w a v h hstep
  have hjoining : Joining { w with returned := none } := ⟨h.caller, h.kill_recv⟩
  cases step_turn hstep with
  | call a hcall =>
      obtain ⟨shared, crashed, rfl, -, hkill, -⟩ := call_changes hcall
      exact Or.inr ⟨⟨h.caller, hkill.trans h.kill_recv⟩, le_refl _, False.elim⟩
  | request a hcall =>
      obtain ⟨shared, crashed, rfl, -, hkill, -⟩ := call_changes hcall
      exact Or.inr ⟨⟨h.caller, hkill.trans h.kill_recv⟩, le_refl _, False.elim⟩
  | thread i a hthread =>
      rcases joining_thread hjoining hthread with hover | ⟨hv, hlowers⟩
      · exact Or.inl hover
      · exact Or.inr ⟨hv, hlowers.le, hlowers.lt⟩
  | startAgain port httpport hcaller => cases h.caller.symm.trans hcaller
  | start port httpport hcaller => cases h.caller.symm.trans hcaller
  | run os hcaller => cases h.caller.symm.trans hcaller
  | httpStarted daemon hcaller => cases h.caller.symm.trans hcaller
  | stopAgain hcaller => cases h.caller.symm.trans hcaller
  | stop hcaller => cases h.caller.symm.trans hcaller
  | joined hcaller => exact Or.inl (Or.inl rfl)

/-- The join can return. -/
def Joinable (w : World) : Prop := w.server_thread_started = true → lastFinished w = true

theorem uncrashed {worlds : ℕ → World} {acts : ℕ → Act}
    (h : Forever (Lifecycle.step S) worlds acts) (n : ℕ) : (worlds n).crashed = false := by
  cases hcrash : (worlds n).crashed with
  | false => rfl
  | true =>
      have hnext := h.next n
      unfold Lifecycle.step at hnext
      rw [hcrash, if_pos rfl] at hnext
      cases hnext

theorem idle_of_joined (h : Lifecycle.step S w .joined = some v) : v.caller = .idle := by
  cases step_turn h with
  | joined hcaller => rfl

/-- `stbbr_stop` returns, whatever clients, HTTP requests and other threads do meanwhile, if
the thread that it joins keeps running without `write` timing out for ever, and if the join
of a thread that has returned goes through. -/
theorem stop_returns {S : Setting} {worlds : ℕ → World} {acts : ℕ → Act}
    (h : Forever (Lifecycle.step S) worlds acts) (hjoining : Joining (worlds 0))
    (hruns : ∀ n, Joining (worlds n) → ¬ Joinable (worlds n) →
      ∃ m, n ≤ m ∧ (Joinable (worlds m) ∨ Nearer (worlds m) (acts m)))
    (hjoins : ∀ n, Joining (worlds n) → Joinable (worlds n) → ∃ m, n ≤ m ∧ acts m = .joined) :
    ∃ n, (worlds n).caller = .idle := by
  by_contra hnever
  have hgoal : ∀ n, ¬ Over (worlds n) := by
    rintro n (hidle | hcrash)
    · exact hnever ⟨n, hidle⟩
    · rw [uncrashed h n] at hcrash
      cases hcrash
  obtain ⟨k, hk, hnone⟩ := h.finitely_often (ranked_join S) hgoal hjoining
  have hjoined : ∀ n, k ≤ n → ¬ Joinable (worlds n) := by
    intro n hn hjoinable
    have hinv := (h.after (ranked_join S) hgoal hjoining (Nat.zero_le n)).1
    obtain ⟨m, -, hm⟩ := hjoins n hinv hjoinable
    have hnext := h.next m
    rw [hm] at hnext
    exact hnever ⟨m + 1, idle_of_joined hnext⟩
  have hinv := (h.after (ranked_join S) hgoal hjoining hk).1
  obtain ⟨m, hm, hjoinable | hnearer⟩ := hruns k hinv (hjoined k (le_refl k))
  · exact hjoined m hm hjoinable
  · exact hnone m hm hnearer

/-! ## A stop in the middle of a write -/

/-- A client has opened its stream and sent a stanza and a half, and the header is being
answered when something is queued and a stop goes into the join. -/
def stopping : World :=
  (run (Lifecycle.step .plain) .init
    ([.start 5230 0, .run (allSucceed 3)] ++
      (connect "<stream:stream><presence/><mess".toList ++
        [Action.thread, .thread, .thread, .write (.sent 5)]).map (Act.thread 0) ++
      [.call (.send (utf8 "<message/>".toList)), .stop])).getD .init

/-- The client takes the header after a while, the thread handles the chunk to its end and
sees the flag, and the join returns. -/
def finishing : List Act :=
  ([Action.write .again, .write (.sent 16), .thread] ++ written STREAM_RESP ++ written FEATURES ++
    List.replicate 5 Action.thread).map (Act.thread 0) ++ [.joined]

/-- Then the caller goes on with other things. -/
def stopActs (n : ℕ) : Act := finishing.getD n (.call (.setTimeout 10))

def stopWorlds : ℕ → World
  | 0 => stopping
  | n + 1 => (Lifecycle.step .plain (stopWorlds n) (stopActs n)).getD (stopWorlds n)

structure Idle (w : World) : Prop where
  caller : w.caller = .idle
  crashed : w.crashed = false
  running : w.shared.pc.isCrashed = false

theorem idle_setTimeout (h : Idle w) :
    ∃ v, Lifecycle.step .plain w (.call (.setTimeout 10)) = some v ∧ Idle v := by
  have hnext : Server.step .plain w.shared (.setTimeout 10) =
      some { w.shared with verify_timeout := 10 } := by
    unfold Server.step
    rw [h.running]
    rfl
  refine ⟨{ w with
      shared := World.threadless { w.shared with verify_timeout := 10 }
      returned := none
      crashed := w.shared.pc.isCrashed }, ?_, h.caller, h.running, rfl⟩
  unfold Lifecycle.step
  rw [h.crashed, if_neg Bool.false_ne_true]
  dsimp only
  rw [h.caller]
  dsimp only
  unfold World.call
  rw [if_pos ⟨rfl, by simp [takesLock]⟩]
  dsimp only
  rw [hnext]
  rfl

theorem stopActs_later (n : ℕ) : stopActs (n + 15) = .call (.setTimeout 10) := by
  have hlen : finishing.length = 15 := by decide
  rw [stopActs, List.getD_eq_getElem?_getD, List.getElem?_eq_none (by omega)]
  rfl

theorem idle_later (n : ℕ) : Idle (stopWorlds (n + 15)) := by
  induction n with
  | zero => exact ⟨by decide +kernel, by decide +kernel, by decide +kernel⟩
  | succ n ih =>
      obtain ⟨v, hv, hidle⟩ := idle_setTimeout ih
      have hsame : stopWorlds (n + 16) = v := by
        rw [stopWorlds, stopActs_later, hv]
        rfl
      rw [show n + 1 + 15 = n + 16 by omega, hsame]
      exact hidle

theorem forever_stopWorlds : Forever (Lifecycle.step .plain) stopWorlds stopActs := by
  refine forever_of_isSome (fun _ => rfl) ?_
  have hbegin : ∀ n < 15, (Lifecycle.step .plain (stopWorlds n) (stopActs n)).isSome = true := by
    decide +kernel
  intro n
  by_cases hn : n < 15
  · exact hbegin n hn
  · obtain ⟨k, rfl⟩ := Nat.exists_eq_add_of_le' (not_lt.mp hn)
    obtain ⟨v, hv, -⟩ := idle_setTimeout (idle_later k)
    rw [stopActs_later, hv]
    rfl

theorem stop_returns_midWrite :
    (stopping.threads.any fun t => t.writing.isSome) = true ∧ stopping.shared.send_queue ≠ [] ∧
      ∃ n, (stopWorlds n).caller = .idle := by
  refine ⟨by decide +kernel, by decide +kernel, ?_⟩
  have hlater : ∀ n, ¬ n < 15 → ¬ Joining (stopWorlds n) := by
    intro n hn h
    obtain ⟨k, rfl⟩ := Nat.exists_eq_add_of_le' (not_lt.mp hn)
    cases h.caller.symm.trans (idle_later k).caller
  have hjoinable : Joinable (stopWorlds 14) := fun _ => by decide +kernel
  refine stop_returns forever_stopWorlds ⟨by decide +kernel, by decide +kernel⟩ ?_ ?_
  · intro n hjoining hnot
    by_cases hn : n < 14
    · exact ⟨13, by omega, Or.inr ⟨by decide +kernel, trivial⟩⟩
    · by_cases hlast : n = 14
      · rw [hlast] at hnot
        exact (hnot hjoinable).elim
      · exact (hlater n (by omega) hjoining).elim
  · intro n hjoining _
    by_cases hn : n < 15
    · exact ⟨14, by omega, rfl⟩
    · exact (hlater n hn hjoining).elim

/-- The thread stays in `write_stream`, and so the join waits for ever. -/
theorem unread_hangs {s : State} {origin : Origin} {u : Writing}
    (hw : s.writing = some (origin, u)) (hsend : 0 < u.to_send) (hcrash : s.pc ≠ .crashed) :
    Forever (Server.step S) (fun _ => s) (fun _ => .write .again) := by
  constructor
  intro n
  unfold Server.step
  rw [if_neg (running_of_ne hcrash)]
  dsimp only
  unfold State.write
  rw [hw]
  dsimp only
  unfold Writing.write
  rw [if_neg (by omega)]
  change some _ = some s
  congr 1
  rcases s with ⟨pc, writing, _, _, _, _, _, _, _, _, _, wire, _, _, _, _, failed, _⟩
  obtain rfl : writing = some (origin, u) := hw
  simp

end Join

end Stabber.Termination
