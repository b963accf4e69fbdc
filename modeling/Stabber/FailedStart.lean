import Stabber.Stopping

/-!
# What a failed start leaves behind

All failures of `server_run` go through `_shutdown`, which frees the tables and ends
the session, but neither closes the listen socket nor joins the thread. Only where
`socket()` itself fails is there nothing to close, and then the tables are lost.
-/

namespace Stabber.FailedStart
open Priming Server Transition Lifecycle Stopping

/-- Stopped, but for what has been primed, queued or set since. -/
structure Halted (w : World) : Prop where
  caller : w.caller = .idle
  stbbr_running : w.stbbr_running = false
  crashed : w.crashed = false
  threads : ∀ t ∈ w.threads, t.joined = true ∧ isFinished t.pc = true
  listen_socket : w.listen_socket = -1
  sockets : ∀ fd, w.sockets fd = none
  httpapi_run : w.shared.httpapi_run = false
  daemons : w.httpdaemmon = false ∧ w.lost_daemons = 0
  received_stanzas : w.shared.received_stanzas = []
  stopped : w.shared.stopped = true
  unused : w.shared.pc = .finished

theorem halted_init : Halted World.init := by
  refine ⟨rfl, rfl, rfl, ?_, rfl, fun _ => rfl, rfl, ⟨rfl, rfl⟩, rfl, rfl, rfl⟩
  intro t ht
  cases ht

/-- A start that returns -1, after any steps of the thread that it has created. -/
inductive Failed (S : Setting) (w : World) (os : Outcomes) : World → Prop
  | server {v w' : World} {port httpport port' : ℤ} :
      Lifecycle.step S w (.start port httpport) = some v →
      Lifecycle.step S v (.run os) = some w' →
      w'.returned = some (.start port false (-1) port') → Failed S w os w'
  | http {v u u' w' : World} {port httpport : ℤ} {as : List Act} :
      Lifecycle.step S w (.start port httpport) = some v →
      Lifecycle.step S v (.run os) = some u →
      Runs (Lifecycle.step S) (fun _ a => ∃ i b, a = .thread i b) u as u' →
      Lifecycle.step S u' (.httpStarted false) = some w' → Failed S w os w'

/-- Nothing runs, nothing is open, and a start does what it would have done before. -/
structure Clean (S : Setting) (w w' : World) : Prop where
  threads : ∀ t ∈ w'.threads, isFinished t.pc = true
  listen_socket : w'.listen_socket = -1
  sockets : ∀ fd, w'.sockets fd = none
  httpapi_run : w'.shared.httpapi_run = false
  next : ∀ port httpport os, run (Lifecycle.step S) w' [.start port httpport, .run os] =
    run (Lifecycle.step S) w [.start port httpport, .run os]

/-- After `prime_init` in `stbbr_start`. -/
def starting (w : World) (port httpport : ℤ) : World :=
  { w with
    returned := none
    shared := { w.shared with primed := primeInit w.shared.primed }
    caller := .starting port httpport }

section Halted
variable {S : Setting} {w : World} (h : Halted w)
include h

theorem Halted.start (port httpport : ℤ) :
    Lifecycle.step S w (.start port httpport) = some (starting w port httpport) := by
  unfold Lifecycle.step
  rw [if_neg (by simp [h.crashed])]
  simp only [h.caller]
  rw [if_neg (by simp [h.stbbr_running])]
  rfl

theorem Halted.unlocked : w.locked = false := by
  rw [World.locked, List.any_eq_false]
  intro t ht hlock
  have hfinished := (h.threads t ht).2
  cases hpc : t.pc <;> simp [hpc, isFinished, Pc.holdsLock] at hfinished hlock

theorem Halted.run (port httpport : ℤ) (os : Outcomes) :
    Lifecycle.step S (starting w port httpport) (.run os) =
      if possible w os = true then some ((starting w port httpport).serverRun os port httpport)
      else none := by
  have hunlocked : (starting w port httpport).locked = false := h.unlocked
  have hsame : possible (starting w port httpport) os = possible w os := rfl
  unfold Lifecycle.step
  rw [if_neg (by simp [starting, h.crashed])]
  change (if (starting w port httpport).locked = false ∧
      possible (starting w port httpport) os = true then
    some ((starting w port httpport).serverRun os port httpport) else none) = _
  rw [hunlocked, hsame]
  simp

/-- Calls of the API leave it stopped. -/
theorem Halted.call {v : World} {a : Action} (hv : w.call S a = some v)
    (hcrash : v.crashed = false) : Halted v := by
  unfold World.call at hv
  split_ifs at hv with hguard
  obtain ⟨t, ht, rfl⟩ := Option.map_eq_some_iff.mp hv
  rcases call_frame hguard.1 ht with rfl | ⟨_, _, _, _, _, hstanzas, rfl⟩
  · cases hcrash
  · exact ⟨h.caller, h.stbbr_running, hcrash, h.threads, h.listen_socket, h.sockets,
      h.httpapi_run, h.daemons, hstanzas h.received_stanzas, h.stopped, rfl⟩

/-- Where `socket()` fails, only the queue, the timeout and the tables are reset. -/
theorem Halted.socketFailed {os : Outcomes} (hos : os.socket = -1) (port httpport : ℤ) :
    (starting w port httpport).serverRun os port httpport =
      (starting w port httpport).reset.startFailed port port := by
  have hsocket : (starting w port httpport).reset.createSocket os port =
      ((starting w port httpport).reset, port, false) := by
    have hopen : (starting w port httpport).reset.listen_socket < 0 := by
      change w.listen_socket < 0
      rw [h.listen_socket]
      decide
    have hsame : { (starting w port httpport).reset with listen_socket := -1 } =
        (starting w port httpport).reset := by
      rw [← h.listen_socket]
      rfl
    rcases createSocket_cases (starting w port httpport).reset os port with
      ⟨hle, -⟩ | ⟨-, -, heq⟩ | ⟨-, hne, -⟩
    · omega
    · rw [heq, hsame]
    · exact (hne hos).elim
  unfold World.serverRun
  rw [hsocket]

/-- The next start then finds what it would have found. -/
theorem Halted.reset_again
    (hprimed : primeInit w.shared.primed = primeInit ⟨none, none, none, none⟩)
    (port httpport port' httpport' : ℤ) :
    (starting ((starting w port httpport).reset.startFailed port port) port' httpport').reset =
      (starting w port' httpport').reset := by
  obtain ⟨-, -, -, -, -, -, hrun, ⟨hdaemon, -⟩, hreceived, hstopped, hunused⟩ := h
  rcases w with ⟨shared, _, _, _, _, _, _, _, _, _, _, _⟩
  rcases shared with ⟨_, _, _, _, _, _, _, _, _, _, _, _, _, _, _, _, _, _⟩
  dsimp only at hprimed hrun hdaemon hreceived hstopped hunused
  subst hrun hdaemon hreceived hstopped hunused
  simp only [starting, World.reset, World.startFailed, World.shutdown, State.shutdown, primeFreeAll,
    hprimed, Bool.not_false, Bool.and_true]

theorem Halted.failed_again (port httpport : ℤ) :
    Halted ((starting w port httpport).reset.startFailed port port) := by
  refine ⟨rfl, h.stbbr_running, h.crashed, h.threads, h.listen_socket, h.sockets, rfl,
    ⟨?_, h.daemons.2⟩,
    rfl, rfl, rfl⟩
  change (w.httpdaemmon && !w.shared.httpapi_run) = false
  rw [h.daemons.1]
  rfl

/-- The three steps up to the thread, taken together. -/
theorem Halted.run_start (port httpport : ℤ) (os : Outcomes) :
    Transition.run (Lifecycle.step S) w [.start port httpport, .run os] =
      if possible w os = true then some ((starting w port httpport).serverRun os port httpport)
      else none := by
  rw [Transition.run, h.start, Option.bind_some, Transition.run, h.run]
  split_ifs <;> rfl

theorem Halted.clean_of_socketFailed
    (hprimed : primeInit w.shared.primed = primeInit ⟨none, none, none, none⟩)
    (port httpport : ℤ) : Clean S w ((starting w port httpport).reset.startFailed port port) := by
  have hagain := h.failed_again port httpport
  refine ⟨fun t ht => (h.threads t ht).2, h.listen_socket, h.sockets, rfl, ?_⟩
  intro port' httpport' os
  have hsame : possible ((starting w port httpport).reset.startFailed port port) os =
      possible w os := rfl
  rw [hagain.run_start, h.run_start, hsame, World.serverRun, World.serverRun,
    h.reset_again hprimed]

/-- The descriptor that `socket()` returns is the listen socket from then on. -/
theorem Halted.listen_socket_run (os : Outcomes) (port httpport : ℤ) :
    ((starting w port httpport).serverRun os port httpport).listen_socket = os.socket := by
  have hopen : (starting w port httpport).reset.listen_socket < 0 := by
    change w.listen_socket < 0
    rw [h.listen_socket]
    decide
  have hcreated : ((starting w port httpport).reset.createSocket os port).1.listen_socket =
      os.socket := by
    rcases createSocket_cases (starting w port httpport).reset os port with
      ⟨hle, -⟩ | ⟨-, hos, heq⟩ | ⟨-, -, socket, port', ok, heq, -⟩
    · omega
    · rw [heq]
      exact hos.symm
    · rw [heq]
      rfl
  unfold World.serverRun
  rcases hresult : (starting w port httpport).reset.createSocket os port with ⟨v, port', ok⟩
  rw [hresult] at hcreated
  cases ok with
  | false => exact hcreated
  | true =>
      dsimp only
      split_ifs
      · exact hcreated
      · exact hcreated
      · exact hcreated

theorem Halted.failed_run {os : Outcomes} {w' : World} (hf : Failed S w os w') :
    w'.listen_socket = os.socket ∧ (os.socket = -1 → ∃ port httpport,
      w' = (starting w port httpport).reset.startFailed port port) := by
  have hrun : ∀ {port httpport : ℤ} {v u : World},
      Lifecycle.step S w (.start port httpport) = some v → Lifecycle.step S v (.run os) = some u →
        u = (starting w port httpport).serverRun os port httpport := by
    intro port httpport v u hstart hserver
    rw [h.start] at hstart
    obtain rfl := Option.some.inj hstart
    rw [h.run] at hserver
    split_ifs at hserver
    exact (Option.some.inj hserver).symm
  cases hf with
  | @server v _ port httpport _ hstart hserver _ =>
      obtain rfl := hrun hstart hserver
      refine ⟨h.listen_socket_run os port httpport, fun hos => ?_⟩
      exact ⟨port, httpport, h.socketFailed hos port httpport⟩
  | @http v u u' _ port httpport as hstart hserver hthreads hfailed =>
      obtain rfl := hrun hstart hserver
      have hkept : u'.listen_socket = os.socket ∧
          u'.caller = ((starting w port httpport).serverRun os port httpport).caller := by
        refine hthreads.invariant (I := fun x => x.listen_socket = os.socket ∧
          x.caller = ((starting w port httpport).serverRun os port httpport).caller)
          ⟨h.listen_socket_run os port httpport, rfl⟩ ?_
        intro x a y hx hthread hstep
        obtain ⟨i, b, rfl⟩ := hthread
        cases step_turn hstep with
        | thread _ _ hy =>
            rcases threadStep_changes hy with rfl | ⟨_, _, -, -, -, rfl⟩
            · exact hx
            · exact hx
      cases step_turn hfailed with
      | httpStarted _ hcaller =>
          refine ⟨hkept.1, fun hos => ?_⟩
          change u'.caller = _ at hcaller
          rw [hkept.2, h.socketFailed hos] at hcaller
          cases hcaller

/-- What a start without failures leaves of the tables. -/
theorem Halted.primed_run :
    ((starting w 5230 0).serverRun (allSucceed 3) 5230 0).shared.primed =
      primeInit (primeInit w.shared.primed) := by
  have hopen : (starting w 5230 0).reset.listen_socket < 0 := by
    change w.listen_socket < 0
    rw [h.listen_socket]
    decide
  unfold World.serverRun World.createSocket
  rw [if_pos hopen]
  rfl

end Halted

theorem primeInit_primeInit (p : Primed) : primeInit (primeInit p) = primeInit p := by
  rcases p with ⟨_, _ | t, _, _⟩
  · rfl
  · rfl

/-- A failed start is clean just if it was `socket()` that failed and nothing had been
primed. -/
theorem failed_start_clean_iff {S : Setting} {w w' : World} (h : Halted w) {os : Outcomes}
    (hf : Failed S w os w') : Clean S w w' ↔
      os.socket = -1 ∧ primeInit w.shared.primed = primeInit ⟨none, none, none, none⟩ := by
  obtain ⟨hsocket, hfirst⟩ := h.failed_run hf
  constructor
  · intro hclean
    have hos : os.socket = -1 := hsocket.symm.trans hclean.listen_socket
    obtain ⟨port, httpport, rfl⟩ := hfirst hos
    have hagain := h.failed_again port httpport
    have hpossible : ∀ v, Halted v → possible v (allSucceed 3) = true := by
      intro v hv
      simp [possible, allSucceed, hv.sockets]
    have hnext := hclean.next 5230 0 (allSucceed 3)
    rw [hagain.run_start, h.run_start, if_pos (hpossible _ hagain), if_pos (hpossible _ h),
      Option.some.injEq] at hnext
    have hprimed := congrArg (fun v => v.shared.primed) hnext
    rw [hagain.primed_run, h.primed_run, primeInit_primeInit, primeInit_primeInit] at hprimed
    exact ⟨hos, hprimed.symm⟩
  · intro hfirst'
    obtain ⟨port, httpport, rfl⟩ := hfirst hfirst'.1
    exact h.clean_of_socketFailed hfirst'.2 port httpport

theorem socket_failure_clean :
    ∃ w', Failed Setting.plain World.init (allSucceed (-1)) w' ∧
      Clean Setting.plain World.init w' := by
  have hf : Failed Setting.plain World.init (allSucceed (-1))
      ((starting World.init 5230 0).serverRun (allSucceed (-1)) 5230 0) :=
    .server (halted_init.start 5230 0) ((halted_init.run 5230 0 _).trans (if_pos rfl)) rfl
  exact ⟨_, hf, (failed_start_clean_iff halted_init hf).mpr ⟨rfl, rfl⟩⟩

def bindFails : Outcomes := { allSucceed 3 with bind := false }

/-- A port that is in use: the socket stays open, and where HTTP fails the thread goes on
as well. -/
theorem bind_failure_not_clean :
    (∃ w', Failed Setting.plain World.init bindFails w' ∧ w'.listen_socket = 3 ∧
      w'.sockets 3 ≠ none ∧ ¬ Clean Setting.plain World.init w') ∧
    ∃ w', Failed Setting.plain World.init (allSucceed 3) w' ∧
      (∃ t ∈ w'.threads, isFinished t.pc = false) ∧ ¬ Clean Setting.plain World.init w' := by
  constructor
  · have hf : Failed Setting.plain World.init bindFails
        ((starting World.init 5230 0).serverRun bindFails 5230 0) :=
      .server (halted_init.start 5230 0) ((halted_init.run 5230 0 _).trans (if_pos rfl)) rfl
    refine ⟨_, hf, rfl, ?_, ?_⟩
    · intro hnone
      cases hnone
    · intro hclean
      cases hclean.listen_socket
  · have hf : Failed Setting.plain World.init (allSucceed 3)
        (((starting World.init 5230 8080).serverRun (allSucceed 3) 5230 8080).httpStarted false
          5230 5230) :=
      .http (halted_init.start 5230 8080) ((halted_init.run 5230 8080 _).trans (if_pos rfl)) .nil
        rfl
    refine ⟨_, hf, ⟨Thread.new, List.mem_cons_self, rfl⟩, ?_⟩
    intro hclean
    cases hclean.listen_socket

end Stabber.FailedStart
