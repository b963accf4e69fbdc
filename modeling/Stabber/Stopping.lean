import Stabber.Lifecycle

/-!
# What a stop leaves behind

A stop joins the thread, closes the socket and shuts everything down, unless the kill
flag is set already. The reader thread sets that flag too, when the client ends its
stream, and then a stop does nothing at all.
-/

namespace Stabber.Stopping
open Priming Callbacks Utf8 Server Transition Lifecycle

/-- Nothing runs, nothing is open and nothing is kept. -/
structure Stopped (w : World) : Prop where
  threads : ∀ t ∈ w.threads, t.joined = true ∧ isFinished t.pc = true
  server_thread_started : w.server_thread_started = false
  listen_socket : w.listen_socket = -1
  sockets : ∀ fd, w.sockets fd = none
  httpapi_run : w.shared.httpapi_run = false
  daemons : w.httpdaemmon = false ∧ w.lost_daemons = 0
  client : w.shared.client = none
  kill_recv : w.shared.kill_recv = false
  primed : w.shared.primed = ⟨none, none, none, none⟩
  received_stanzas : w.shared.received_stanzas = []
  send_queue : w.shared.send_queue = []

/-- A stop does not find the kill flag set, a new listen socket does not get descriptor
zero, and no thread is created while an earlier one has not been joined. -/
def Orderly (w : World) : Act → Prop
  | .stop => w.shared.kill_recv = false
  | .run os => (w.listen_socket < 0 → os.socket ≠ 0) ∧
      (os.pthread_create = true → ∀ t ∈ w.threads, t.joined = true)
  | _ => True

/-- No daemon can be running. -/
def Quiet (w : World) : Prop :=
  w.caller ≠ .joining ∧ (w.caller = .idle → w.stbbr_running = false)

/-- What holds at all times of an orderly run. -/
structure Kept (w : World) : Prop where
  threads : ∃ n, w.threads.map Thread.joined =
    List.replicate n true ++ (if w.server_thread_started then [false] else [])
  finished : ∀ t ∈ w.threads, t.joined = true → isFinished t.pc = true
  listen_socket : w.listen_socket = -1 ∨ 0 < w.listen_socket
  sockets : ∀ fd, w.sockets fd ≠ none → fd = w.listen_socket ∧ 0 < fd
  daemons : (w.httpdaemmon = true → w.shared.httpapi_run = true) ∧ w.lost_daemons = 0
  quiet : Quiet w → w.shared.httpapi_run = false

theorem kept_init : Kept World.init where
  threads := ⟨0, rfl⟩
  finished := by simp [World.init]
  listen_socket := Or.inl rfl
  sockets := by
    intro fd h
    exact (h rfl).elim
  daemons := ⟨by simp [World.init], rfl⟩
  quiet := fun _ => rfl

theorem map_joined_set {ts : List Thread} {i : ℕ} {t u : Thread} (h : ts[i]? = some t)
    (hu : u.joined = t.joined) : (ts.set i u).map Thread.joined = ts.map Thread.joined := by
  obtain ⟨hlt, rfl⟩ := List.getElem?_eq_some_iff.mp h
  have hlt' : i < (ts.map Thread.joined).length := by rwa [List.length_map]
  have hold : (ts.map Thread.joined)[i] = u.joined := by rw [List.getElem_map, hu]
  rw [List.map_set, ← hold, List.set_getElem_self hlt']

/-- With no other socket open, none is open after this. -/
theorem closeSocket_eq {w : World} (hfd : w.listen_socket = -1 ∨ 0 < w.listen_socket)
    (hsockets : ∀ fd, w.sockets fd ≠ none → fd = w.listen_socket ∧ 0 < fd) :
    w.closeSocket = { w with listen_socket := -1, sockets := fun _ => none } := by
  unfold World.closeSocket
  split_ifs with hopen
  · have hall : (fun fd => if fd = w.listen_socket then none else w.sockets fd) =
        fun _ => none := by
      funext fd
      split_ifs with heq
      · rfl
      · by_contra hsome
        exact heq (hsockets fd hsome).1
    rw [World.setSocket, hall]
  · have hnone : w.listen_socket = -1 := by omega
    have hall : w.sockets = fun _ => none := by
      funext fd
      by_contra hsome
      have := hsockets fd hsome
      omega
    rw [← hnone, ← hall]

theorem joinThread_eq (w : World) : ∃ threads started,
    w.joinThread = { w with threads := threads, server_thread_started := started } := by
  unfold World.joinThread
  split_ifs
  · exact ⟨_, _, rfl⟩
  · exact ⟨w.threads, w.server_thread_started, rfl⟩

section Steps
variable {S : Setting} {w v : World} (h : Kept w)
include h

theorem Kept.call {a : Action} (hv : w.call S a = some v) : Kept v := by
  obtain ⟨shared, crashed, rfl, hrun, -, -⟩ := call_changes hv
  refine ⟨h.threads, h.finished, h.listen_socket, h.sockets, ?_, ?_⟩
  · rw [hrun]
    exact h.daemons
  · intro hquiet
    rw [hrun]
    exact h.quiet hquiet

theorem Kept.thread {i : ℕ} {a : Action} (hv : w.threadStep S i a = some v) : Kept v := by
  rcases threadStep_changes hv with rfl | ⟨t, s, ht, hrunning, hs, rfl⟩
  · exact ⟨h.threads, h.finished, h.listen_socket, h.sockets, h.daemons, h.quiet⟩
  have hjoined : t.joined = false := by
    by_contra hyes
    rw [Bool.not_eq_false] at hyes
    rw [h.finished t (List.mem_of_getElem? ht) hyes] at hrunning
    cases hrunning
  have hoff : w.shared.httpapi_run = false → s.httpapi_run = false := by
    intro hrun
    by_contra hyes
    rw [Bool.not_eq_false] at hyes
    have hbefore := httpapi_run_of_step hs hyes
    change w.shared.httpapi_run = true at hbefore
    rw [hrun] at hbefore
    cases hbefore
  refine ⟨?_, ?_, h.listen_socket, h.sockets, ⟨?_, h.daemons.2⟩, fun hq => hoff (h.quiet hq)⟩
  · obtain ⟨n, hn⟩ := h.threads
    have hmap := map_joined_set (u := ⟨s.pc, s.writing, s.stream, t.joined⟩) ht rfl
    exact ⟨n, hmap.trans hn⟩
  · intro u hu hyes
    rcases List.mem_or_eq_of_mem_set hu with hu | rfl
    · exact h.finished u hu hyes
    · rw [hjoined] at hyes
      cases hyes
  · intro hdaemon
    rw [Bool.and_eq_true, Bool.or_eq_true] at hdaemon
    rcases hdaemon.2 with hrun | hrun
    · exact hrun
    · rw [h.daemons.1 hdaemon.1] at hrun
      cases hrun

theorem Kept.start (port httpport : ℤ) (hidle : w.caller = .idle) (hoff : w.stbbr_running = false) :
    Kept { w with
      shared := { w.shared with primed := primeInit w.shared.primed }
      caller := .starting port httpport } := by
  have hquiet : Quiet w := by
    constructor
    · rw [hidle]
      simp
    · intro _
      exact hoff
  exact ⟨h.threads, h.finished, h.listen_socket, h.sockets, h.daemons, fun _ => h.quiet hquiet⟩

theorem Kept.reset : Kept w.reset :=
  ⟨h.threads, h.finished, h.listen_socket, h.sockets, h.daemons, h.quiet⟩

theorem Kept.createSocket {os : Outcomes} (port : ℤ) (hpossible : possible w os = true)
    (hzero : w.listen_socket < 0 → os.socket ≠ 0) : Kept (w.createSocket os port).1 := by
  rcases createSocket_cases w os port with
    ⟨-, heq⟩ | ⟨hopen, -, heq⟩ | ⟨hopen, hfd, socket, _, _, heq, -⟩
  · rw [heq]
    exact h
  · have hnone : w.listen_socket = -1 := by
      have := h.listen_socket
      omega
    rw [heq]
    refine ⟨h.threads, h.finished, Or.inl rfl, ?_, h.daemons, h.quiet⟩
    intro fd hsome
    rw [← hnone]
    exact h.sockets fd hsome
  · have hpos : 0 < os.socket := by
      have hne := hzero hopen
      simp only [possible, Bool.and_eq_true, Bool.or_eq_true, decide_eq_true_eq] at hpossible
      omega
    rw [heq]
    refine ⟨h.threads, h.finished, Or.inr hpos, ?_, h.daemons, h.quiet⟩
    intro fd hsome
    by_cases hfd : fd = os.socket
    · subst hfd
      exact ⟨rfl, hpos⟩
    · have hold : w.sockets fd ≠ none := by
        simpa only [World.setSocket, if_neg hfd] using hsome
      have := h.sockets fd hold
      omega

/-- No thread has been created, and the shutdown stops a daemon. -/
theorem Kept.primed (primed : Primed) :
    Kept { w with shared := { w.shared with primed := primed } } :=
  ⟨h.threads, h.finished, h.listen_socket, h.sockets, h.daemons, h.quiet⟩

/-- A shutdown stops the daemon if there is one. -/
theorem Kept.shutdown_daemon : (w.httpdaemmon && !w.shared.httpapi_run) = false := by
  by_contra hyes
  rw [Bool.not_eq_false, Bool.and_eq_true, Bool.not_eq_true'] at hyes
  rw [h.daemons.1 hyes.1] at hyes
  cases hyes.2

theorem Kept.startFailed (requested port : ℤ) : Kept (w.startFailed requested port) := by
  refine ⟨h.threads, h.finished, h.listen_socket, h.sockets, ⟨?_, h.daemons.2⟩, fun _ => rfl⟩
  intro hdaemon
  change (w.httpdaemmon && !w.shared.httpapi_run) = true at hdaemon
  rw [h.shutdown_daemon] at hdaemon
  cases hdaemon

theorem Kept.spawn (hjoined : ∀ t ∈ w.threads, t.joined = true) : Kept w.spawn := by
  refine ⟨⟨w.threads.length, ?_⟩, ?_, h.listen_socket, h.sockets, h.daemons, h.quiet⟩
  · have hall : w.threads.map Thread.joined = List.replicate w.threads.length true := by
      rw [List.eq_replicate_iff]
      simpa using hjoined
    change (w.threads ++ [Thread.new]).map Thread.joined = _
    rw [List.map_append, hall]
    rfl
  · intro t ht hyes
    change t ∈ w.threads ++ [Thread.new] at ht
    rw [List.mem_append, List.mem_singleton] at ht
    rcases ht with ht | rfl
    · exact h.finished t ht hyes
    · cases hyes

theorem Kept.started (requested port : ℤ) : Kept (w.started requested port) := by
  refine ⟨h.threads, h.finished, h.listen_socket, h.sockets, h.daemons, ?_⟩
  intro hquiet
  cases hquiet.2 rfl

/-- Between the creation of the thread and the start of the daemon. -/
theorem Kept.httpStarting (requested port : ℤ) (hoff : w.shared.httpapi_run = false) :
    Kept { w with caller := .httpStarting requested port } :=
  ⟨h.threads, h.finished, h.listen_socket, h.sockets, h.daemons, fun _ => hoff⟩

theorem Kept.run {os : Outcomes} {port httpport : ℤ} (hcaller : w.caller = .starting port httpport)
    (hpossible : possible w os = true) (hok : Orderly w (.run os)) :
    Kept (w.serverRun os port httpport) := by
  have hquiet : Quiet w := by
    rw [Quiet, hcaller]
    simp
  obtain ⟨fd, sockets, hchanged⟩ := createSocket_changes w.reset os port
  have hcreated := h.reset.createSocket port hpossible hok.1
  unfold World.serverRun
  rcases hresult : w.reset.createSocket os port with ⟨v, port', ok⟩
  rw [hresult] at hcreated hchanged
  change v = _ at hchanged
  cases ok with
  | false => exact hcreated.startFailed port port'
  | true =>
      have hprimed := hcreated.primed (primeInit v.shared.primed)
      have hthreads : v.threads = w.threads := by
        rw [hchanged]
        rfl
      have hoff : v.shared.httpapi_run = false := by
        rw [hchanged]
        exact h.quiet hquiet
      have hjoined : ¬ os.pthread_create = false → ∀ t ∈ v.threads, t.joined = true := by
        intro hthread
        rw [hthreads]
        exact hok.2 (by simpa using hthread)
      dsimp only
      split_ifs with hthread hhttp
      · exact hprimed.startFailed port port'
      · exact (hprimed.spawn (hjoined hthread)).httpStarting port port' hoff
      · exact (hprimed.spawn (hjoined hthread)).started port port'

theorem Kept.httpStarted (daemon : Bool) {requested port : ℤ}
    (hcaller : w.caller = .httpStarting requested port) :
    Kept (w.httpStarted daemon requested port) := by
  have hquiet : Quiet w := by
    rw [Quiet, hcaller]
    simp
  have hoff : w.httpdaemmon = false := by
    by_contra hyes
    rw [Bool.not_eq_false] at hyes
    have hrun := h.daemons.1 hyes
    rw [h.quiet hquiet] at hrun
    cases hrun
  unfold World.httpStarted
  have hlost : w.lost_daemons + w.httpdaemmon.toNat = 0 := by
    rw [h.daemons.2, hoff]
    rfl
  cases daemon with
  | true =>
      have hdaemon : Kept { w with
          lost_daemons := w.lost_daemons + w.httpdaemmon.toNat
          httpdaemmon := true
          shared := { w.shared with httpapi_run := true }
          caller := .joining } :=
        ⟨h.threads, h.finished, h.listen_socket, h.sockets, ⟨fun _ => rfl, hlost⟩,
          fun hq => (hq.1 rfl).elim⟩
      exact hdaemon.started requested port
  | false =>
      have hnone : Kept { w with
          lost_daemons := w.lost_daemons + w.httpdaemmon.toNat
          httpdaemmon := false } :=
        ⟨h.threads, h.finished, h.listen_socket, h.sockets, ⟨by simp, hlost⟩, h.quiet⟩
      exact hnone.startFailed requested port

theorem Kept.stop :
    Kept { w with shared := { w.shared with kill_recv := true }, caller := .joining } :=
  ⟨h.threads, h.finished, h.listen_socket, h.sockets, h.daemons, fun hq => (hq.1 rfl).elim⟩

theorem Kept.joinThread (hlast : w.server_thread_started = true → lastFinished w = true) :
    w.joinThread.server_thread_started = false ∧
      ∀ t ∈ w.joinThread.threads, t.joined = true ∧ isFinished t.pc = true := by
  have hall : ∀ t ∈ w.threads, t.joined = true → t.joined = true ∧ isFinished t.pc = true :=
    fun t ht hyes => ⟨hyes, h.finished t ht hyes⟩
  obtain ⟨n, hn⟩ := h.threads
  unfold World.joinThread
  split_ifs with hstarted
  · refine ⟨rfl, ?_⟩
    rw [hstarted, if_pos rfl] at hn
    obtain ⟨front, back, hsplit, hfront, hback⟩ := List.map_eq_append_iff.mp hn
    obtain ⟨last, hsingle, -⟩ := List.map_eq_singleton_iff.mp hback
    have hfinished := hlast hstarted
    rw [lastFinished, hsplit, hsingle, List.getLast?_concat, Option.any_some] at hfinished
    rw [hsplit, hsingle, List.dropLast_concat, List.getLast?_concat]
    intro t ht
    change t ∈ front ++ [{ last with joined := true }] at ht
    rw [List.mem_append, List.mem_singleton] at ht
    rcases ht with ht | rfl
    · have hyes : t.joined = true := by
        have hmem : t.joined ∈ front.map Thread.joined := List.mem_map_of_mem ht
        rw [hfront] at hmem
        exact List.eq_of_mem_replicate hmem
      exact hall t (hsplit ▸ List.mem_append_left _ ht) hyes
    · exact ⟨rfl, hfinished⟩
  · refine ⟨by simpa using hstarted, ?_⟩
    rw [if_neg hstarted, List.append_nil] at hn
    intro t ht
    have hmem : t.joined ∈ w.threads.map Thread.joined := List.mem_map_of_mem ht
    rw [hn] at hmem
    exact hall t ht (List.eq_of_mem_replicate hmem)

theorem Kept.stopped (hlast : w.server_thread_started = true → lastFinished w = true) :
    Stopped w.stopped := by
  obtain ⟨hstarted, hthreads⟩ := h.joinThread hlast
  obtain ⟨threads, started, hjoin⟩ := joinThread_eq w
  rw [hjoin] at hstarted hthreads
  have hclose : w.joinThread.closeSocket = { w with
      threads := threads
      server_thread_started := started
      listen_socket := -1
      sockets := fun _ => none } := by
    rw [hjoin]
    exact closeSocket_eq h.listen_socket h.sockets
  unfold World.stopped
  rw [hclose]
  exact ⟨hthreads, hstarted, rfl, fun _ => rfl, rfl, ⟨h.shutdown_daemon, h.daemons.2⟩, rfl, rfl,
    rfl, rfl, rfl⟩

end Steps

theorem kept_of_stopped {w : World} (h : Stopped w) : Kept w := by
  refine ⟨⟨w.threads.length, ?_⟩, fun t ht _ => (h.threads t ht).2, Or.inl h.listen_socket, ?_, ?_,
    fun _ => h.httpapi_run⟩
  · rw [h.server_thread_started, if_neg (by simp), List.append_nil, List.eq_replicate_iff]
    constructor
    · rw [List.length_map]
    · intro b hb
      obtain ⟨t, ht, rfl⟩ := List.mem_map.mp hb
      exact (h.threads t ht).1
  · intro fd hsome
    exact (hsome (h.sockets fd)).elim
  · rw [h.daemons.1]
    exact ⟨by simp, h.daemons.2⟩

/-- The invariant of a run: what is kept, and what holds when a stop has returned. -/
theorem kept_step {S : Setting} {w v : World} {a : Act} (h : Kept w) (hok : Orderly w a)
    (hstep : Lifecycle.step S w a = some v) : Kept v ∧ (v.returned = some .stop → Stopped v) := by
  have hw : Kept { w with returned := none } :=
    ⟨h.threads, h.finished, h.listen_socket, h.sockets, h.daemons, h.quiet⟩
  have hturn := step_turn hstep
  by_cases hjoined : a = .joined
  · subst hjoined
    cases hturn with
    | joined _ hlast =>
        have hstopped := hw.stopped hlast
        exact ⟨kept_of_stopped hstopped, fun _ => hstopped⟩
  by_cases hstop : a = .stop
  · subst hstop
    cases hturn with
    | stopAgain _ hkill =>
        rw [hok] at hkill
        cases hkill
    | stop => exact ⟨hw.stop, fun hv => by cases hv⟩
  refine ⟨?_, fun hv => ?_⟩
  · cases hturn with
    | call a hcall => exact hw.call hcall
    | request a hcall => exact hw.call hcall
    | thread i a hthread => exact hw.thread hthread
    | startAgain =>
        exact ⟨h.threads, h.finished, h.listen_socket, h.sockets, h.daemons, h.quiet⟩
    | start port httpport hidle hoff => exact hw.start port httpport hidle hoff
    | run os hcaller hpossible => exact hw.run hcaller hpossible hok
    | httpStarted daemon hcaller => exact hw.httpStarted daemon hcaller
    | stopAgain => exact (hstop rfl).elim
    | stop => exact (hstop rfl).elim
    | joined => exact (hjoined rfl).elim
  · rcases stop_of_returned rfl hturn hv with rfl | rfl
    · exact (hstop rfl).elim
    · exact (hjoined rfl).elim

/-- In an orderly run every stop that returns has stopped everything. -/
theorem stopped_of_runs {S : Setting} {as : List Act} {w : World}
    (h : Runs (Lifecycle.step S) Orderly World.init as w) (hstop : w.returned = some .stop) :
    Stopped w := by
  have hkept : Kept w ∧ (w.returned = some .stop → Stopped w) := by
    refine h.invariant (I := fun w => Kept w ∧ (w.returned = some .stop → Stopped w))
      ⟨kept_init, by simp [World.init]⟩ ?_
    intro u a v hu hok hstep
    exact kept_step hu.1 hok hstep
  exact hkept.2 hstop

instance (w : World) : (a : Act) → Decidable (Orderly w a)
  | .stop => inferInstanceAs (Decidable (_ = _))
  | .run _ => inferInstanceAs (Decidable (_ ∧ _))
  | .call _ => isTrue trivial
  | .request _ => isTrue trivial
  | .thread _ _ => isTrue trivial
  | .start _ _ => isTrue trivial
  | .httpStarted _ => isTrue trivial
  | .joined => isTrue trivial

/-- A client opens its stream, is sent a stanza and sends one and a half, and the server is
stopped while it handles them. -/
def visited : List Act :=
  [.start 5230 0, .run (allSucceed 3)] ++
    (connect "<stream:stream>".toList ++ [Action.thread, .thread] ++
      streamStartCallback.flatMap written ++ [Action.thread]).map (Act.thread 0) ++
    [.call (.send (utf8 "<message/>".toList))] ++
    ([Action.thread] ++ written "<message/>".toList ++
      [Action.thread, .recv (.data (utf8 "<presence/><mess".toList)
        [.start "presence".toList [], .stop "presence".toList]),
        .thread]).map (Act.thread 0) ++
    [.stop] ++ List.replicate 4 (Act.thread 0 .thread) ++ [.joined]

theorem visited_stopped :
    ∃ w, run (Lifecycle.step Setting.plain) World.init visited = some w ∧ Stopped w := by
  have hchecked : ((run (fun w a => if decide (Orderly w a) then Lifecycle.step Setting.plain w a
      else none) World.init visited).any fun w => w.returned = some .stop) = true := by
    decide +kernel
  obtain ⟨w, hrun, hstop⟩ := (Option.any_eq_true _ _).mp hchecked
  have hruns := runs_of_checked (fun _ _ hok => of_decide_eq_true hok) hrun
  exact ⟨w, hruns.to_run, stopped_of_runs hruns (of_decide_eq_true hstop)⟩

/-- A stop after that closes no socket and joins no thread. -/
theorem stop_after_stream_end :
    ∃ w, run (Lifecycle.step Setting.plain) World.init (streamEnded ++ [.stop]) = some w ∧
      w.returned = some .stop ∧ w.listen_socket = 3 ∧ w.sockets 3 ≠ none ∧
      w.server_thread_started = true ∧ w.shared.kill_recv = true ∧ ¬ Stopped w := by
  have hresult : ((run (Lifecycle.step Setting.plain) World.init (streamEnded ++ [.stop])).any
      fun w => w.returned = some .stop ∧ w.listen_socket = 3 ∧ w.sockets 3 ≠ none ∧
        w.server_thread_started = true ∧ w.shared.kill_recv = true) = true := by
    decide +kernel
  obtain ⟨w, hrun, hw⟩ := (Option.any_eq_true _ _).mp hresult
  obtain ⟨hstop, hfd, hsocket, hstarted, hkill⟩ := of_decide_eq_true hw
  refine ⟨w, hrun, hstop, hfd, hsocket, hstarted, hkill, ?_⟩
  intro hstopped
  exact hsocket (hstopped.sockets 3)

end Stabber.Stopping
