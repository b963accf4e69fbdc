import Stabber.ServerSteps

/-!
# Starting and stopping

The statics of `server.c` and `stabber.c` that outlive a run of the server, and the
calls that start and stop it, over any number of server threads: a thread that was
never joined goes on. A call of `stbbr_start` is three steps, up to the sleep of
`server_run`, up to the creation of the thread, and to its return; a call of
`stbbr_stop` is two, with the join between them. The threads and the HTTP requests
run between these steps.
-/

namespace Stabber.Lifecycle
open XmlDocument Priming Callbacks WriteStream Server

/-- A server thread: what it has on its own stack, and whether it has been joined. -/
structure Thread where
  pc : Pc
  writing : Option (Origin × Writing)
  stream : List UInt8
  joined : Bool
deriving Repr

/-- An open socket of `socket()`: the port after `bind`, and whether `listen` succeeded. -/
structure Socket where
  bound : Option ℤ
  listening : Bool
deriving Repr, DecidableEq

/-- Where the caller of `stbbr_start` and `stbbr_stop` is: in neither, in the sleep of
`server_run`, in `httpapi_start` with the requested port and the value of `*port`, or in
`pthread_join`. -/
inductive Caller where
  | idle
  | starting (port httpport : ℤ)
  | httpStarting (requested port : ℤ)
  | joining
deriving Repr, DecidableEq

/-- What a call has returned: for `stbbr_start` the requested port, whether the server
was running before, the result and the value of `*port`. -/
inductive Returned where
  | start (requested : ℤ) (running : Bool) (res port : ℤ)
  | stop
deriving Repr, DecidableEq

structure World where
  /-- The statics that the server threads use. The fields of a thread are not used. -/
  shared : State
  /-- All threads created so far; `server_thread` is the last one. -/
  threads : List Thread
  server_thread_started : Bool
  listen_socket : ℤ
  sockets : ℤ → Option Socket
  /-- Whether the daemon that `httpdaemmon` points to runs. -/
  httpdaemmon : Bool
  /-- Running daemons that `httpdaemmon` has pointed to before. -/
  lost_daemons : ℕ
  stbbr_running : Bool
  stbbr_port : ℤ
  caller : Caller
  returned : Option Returned
  crashed : Bool

/-- The results of the calls of the operating system in `server_run`. -/
structure Outcomes where
  socket : ℤ
  bind : Bool
  /-- The port for a `bind` to port zero. -/
  assigned : ℤ
  getsockname : Bool
  listen : Bool
  pthread_create : Bool
deriving Repr, DecidableEq

inductive Act where
  | call (a : Action)
  | request (a : Action)
  | thread (i : ℕ) (a : Action)
  | start (port httpport : ℤ)
  | run (os : Outcomes)
  /-- `MHD_start_daemon` returns, with a daemon or without one. -/
  | httpStarted (daemon : Bool)
  | stop
  | joined
deriving Repr

def isCall : Action → Bool
  | .send _ => true
  | .requiredPasswd _ => true
  | .forId _ _ => true
  | .forQuery _ _ => true
  | .forXmlns _ _ => true
  | .setTimeout _ => true
  | .verifyAny _ _ => true
  | .verifyLast _ => true
  | .containsId _ => true
  | _ => false

def isThreadStep : Action → Bool
  | .accept _ => true
  | .recv _ => true
  | .write _ => true
  | .thread => true
  | _ => false

/-- The queue is under the lock that a thread holds while it sends. -/
def takesLock : Action → Bool
  | .send _ => true
  | _ => false

def isFinished : Pc → Bool
  | .finished => true
  | _ => false

namespace Thread

def new : Thread := ⟨.accepting, none, [], false⟩

/-- Between `client->sock` being needed and being used, or in the XML parser. -/
def inSession (t : Thread) : Bool :=
  match t.writing, t.pc with
  | some _, _ => true
  | none, .receiving => true
  | none, .feeding _ _ _ _ => true
  | none, _ => false

/-- At the head of the loop, where the lock of the queue is taken next. -/
def wantsLock (t : Thread) : Bool :=
  match t.pc with
  | .top => true
  | _ => false

end Thread

/-- The port after `bind`, of which `htons` has kept sixteen bits. -/
def boundPort (os : Outcomes) (port : ℤ) : ℤ :=
  if port % 65536 = 0 then os.assigned else port % 65536

namespace World
variable (w : World)

def view (t : Thread) : State :=
  { w.shared with pc := t.pc, writing := t.writing, stream := t.stream }

def threadless (s : State) : State := { s with pc := .finished, writing := none, stream := [] }

def locked : Bool := w.threads.any fun t => t.pc.holdsLock

def setSocket (fd : ℤ) (socket : Option Socket) : World :=
  { w with sockets := fun i => if i = fd then socket else w.sockets i }

def shutdown : World :=
  { w with
    shared := w.shared.shutdown
    httpdaemmon := w.httpdaemmon && !w.shared.httpapi_run }

/-- What follows the return of `server_run` in `stbbr_start`. -/
def started (requested port : ℤ) : World :=
  { w with
    stbbr_running := true
    stbbr_port := port
    caller := .idle
    returned := some (.start requested false 0 port) }

def startFailed (requested port : ℤ) : World :=
  { w.shutdown with
    caller := .idle
    returned := some (.start requested false (-1) port) }

def reset : World :=
  { w with shared := { w.shared with
      send_queue := []
      kill_recv := false
      client := none
      verify_timeout := 10 } }

/-- The listen socket is created unless there is one. The results are the value of
`*port` and whether nothing failed. -/
def createSocket (os : Outcomes) (port : ℤ) : World × ℤ × Bool :=
  if w.listen_socket < 0 then
    let w := { w with listen_socket := os.socket }
    if os.socket = -1 then (w, port, false)
    else
      let w := w.setSocket os.socket (some ⟨none, false⟩)
      if os.bind = false then (w, port, false)
      else
        let sin_port := boundPort os port
        let w := w.setSocket os.socket (some ⟨some sin_port, false⟩)
        if port = 0 ∧ os.getsockname = false then (w, port, false)
        else
          let port := if port = 0 then sin_port else port
          if os.listen = false then (w, port, false)
          else (w.setSocket os.socket (some ⟨some sin_port, true⟩), port, true)
  else (w, port, true)

def spawn : World :=
  { w with
    threads := w.threads ++ [Thread.new]
    server_thread_started := true
    shared := { w.shared with
      wire := []
      entered := []
      accepted := []
      arrived := []
      greeted := false
      failed := false
      stopped := false } }

def serverRun (os : Outcomes) (requested httpport : ℤ) : World :=
  match w.reset.createSocket os requested with
  | (w, port, false) => w.startFailed requested port
  | (w, port, true) =>
      let w := { w with shared := { w.shared with primed := primeInit w.shared.primed } }
      if os.pthread_create = false then w.startFailed requested port
      else
        let w := w.spawn
        if 0 < httpport then { w with caller := .httpStarting requested port }
        else w.started requested port

def httpStarted (daemon : Bool) (requested port : ℤ) : World :=
  let w := { w with
    lost_daemons := w.lost_daemons + w.httpdaemmon.toNat
    httpdaemmon := daemon }
  if daemon then { w with shared := { w.shared with httpapi_run := true } }.started requested port
  else w.startFailed requested port

def stopReturned : World :=
  { w with
    stbbr_running := false
    stbbr_port := 0
    caller := .idle
    returned := some .stop }

/-- The last thread has been joined, if there was one to join. -/
def joinThread : World :=
  if w.server_thread_started then
    { w with
      threads := w.threads.dropLast ++
        (w.threads.getLast?.map fun t => { t with joined := true }).toList
      server_thread_started := false }
  else w

def closeSocket : World :=
  if 0 < w.listen_socket then { w.setSocket w.listen_socket none with listen_socket := -1 }
  else w

def stopped : World :=
  let w := w.joinThread.closeSocket.shutdown
  { w with shared := { w.shared with kill_recv := false } }.stopReturned

def call (S : Setting) (a : Action) : Option World :=
  if isCall a = true ∧ (takesLock a = true → w.locked = false) then
    (Server.step S w.shared a).map fun s =>
      { w with shared := threadless s, crashed := s.pc.isCrashed }
  else none

/-- A thread takes a step. In a session that another thread has ended it crashes. -/
def threadStep (S : Setting) (i : ℕ) (a : Action) : Option World :=
  match w.threads[i]? with
  | none => none
  | some t =>
      if isThreadStep a = false ∨ isFinished t.pc = true ∨
          (t.wantsLock = true ∧ w.locked = true) then none
      else (Server.step S (w.view t) a).map fun s =>
        if t.inSession = true ∧ w.shared.client = none then { w with crashed := true }
        else { w with
          shared := threadless s
          threads := w.threads.set i ⟨s.pc, s.writing, s.stream, t.joined⟩
          httpdaemmon := w.httpdaemmon && (s.httpapi_run || !w.shared.httpapi_run)
          crashed := s.pc.isCrashed }

end World

/-- The values that the operating system can return. -/
def possible (w : World) (os : Outcomes) : Bool :=
  (os.socket = -1 || (0 ≤ os.socket && (w.sockets os.socket).isNone)) &&
    1 ≤ os.assigned && os.assigned ≤ 65535

def lastFinished (w : World) : Bool := w.threads.getLast?.any fun t => isFinished t.pc

def step (S : Setting) (w : World) (a : Act) : Option World :=
  if w.crashed then none
  else
    let w := { w with returned := none }
    match w.caller, a with
    | .idle, .call a => w.call S a
    | _, .request a =>
        if w.httpdaemmon = true ∨ 0 < w.lost_daemons then w.call S a else none
    | _, .thread i a => w.threadStep S i a
    | .idle, .start port httpport =>
        if w.stbbr_running then
          some { w with returned := some (.start port true 0 w.stbbr_port) }
        else some { w with
          shared := { w.shared with primed := primeInit w.shared.primed }
          caller := .starting port httpport }
    | .starting port httpport, .run os =>
        if w.locked = false ∧ possible w os = true then some (w.serverRun os port httpport)
        else none
    | .httpStarting requested port, .httpStarted daemon =>
        if w.locked = false then some (w.httpStarted daemon requested port) else none
    | .idle, .stop =>
        if w.shared.kill_recv then some w.stopReturned
        else some { w with shared := { w.shared with kill_recv := true }, caller := .joining }
    | .joining, .joined =>
        if w.locked = false ∧ (w.server_thread_started = true → lastFinished w = true) then
          some w.stopped
        else none
    | _, _ => none

def World.init : World where
  shared := World.threadless { State.idle with
    primed := ⟨none, none, none, none⟩
    stopped := true }
  threads := []
  server_thread_started := false
  listen_socket := -1
  sockets := fun _ => none
  httpdaemmon := false
  lost_daemons := 0
  stbbr_running := false
  stbbr_port := 0
  caller := .idle
  returned := none
  crashed := false

/-- Everything succeeds, and the new socket has this descriptor. -/
def allSucceed (fd : ℤ) : Outcomes := ⟨fd, true, 40000, true, true, true⟩

/-- The client opens and ends its stream, and the thread shuts down on its own. -/
def streamEnded : List Act :=
  [.start 5230 0, .run (allSucceed 3)] ++
    (connect "<stream:stream></stream:stream>".toList ++ List.replicate 2 Action.thread ++
      streamStartCallback.flatMap written ++ [Action.thread] ++ written STREAM_END ++
      List.replicate 2 Action.thread).map (Act.thread 0)

/-! ## What one step can do -/

inductive Turn (S : Setting) (w : World) : Act → World → Prop
  | call (a : Action) {v : World} : w.call S a = some v → Turn S w (.call a) v
  | request (a : Action) {v : World} : w.call S a = some v → Turn S w (.request a) v
  | thread (i : ℕ) (a : Action) {v : World} : w.threadStep S i a = some v →
      Turn S w (.thread i a) v
  | startAgain (port httpport : ℤ) : w.caller = .idle → w.stbbr_running = true →
      Turn S w (.start port httpport)
        { w with returned := some (.start port true 0 w.stbbr_port) }
  | start (port httpport : ℤ) : w.caller = .idle → w.stbbr_running = false →
      Turn S w (.start port httpport) { w with
        shared := { w.shared with primed := primeInit w.shared.primed }
        caller := .starting port httpport }
  | run (os : Outcomes) {port httpport : ℤ} : w.caller = .starting port httpport →
      possible w os = true → Turn S w (.run os) (w.serverRun os port httpport)
  | httpStarted (daemon : Bool) {requested port : ℤ} : w.caller = .httpStarting requested port →
      Turn S w (.httpStarted daemon) (w.httpStarted daemon requested port)
  | stopAgain : w.caller = .idle → w.shared.kill_recv = true → Turn S w .stop w.stopReturned
  | stop : w.caller = .idle → w.shared.kill_recv = false →
      Turn S w .stop
        { w with shared := { w.shared with kill_recv := true }, caller := .joining }
  | joined : w.caller = .joining →
      (w.server_thread_started = true → lastFinished w = true) → Turn S w .joined w.stopped

theorem step_turn {S : Setting} {w v : World} {a : Act} (h : step S w a = some v) :
    Turn S { w with returned := none } a v := by
  unfold step at h
  split_ifs at h with hcrash
  dsimp only at h
  split at h
  next a hcaller => exact .call a h
  next a =>
    split_ifs at h
    exact .request a h
  next i a => exact .thread i a h
  next port httpport hcaller =>
    split_ifs at h with hrunning
    · cases h
      exact .startAgain port httpport hcaller hrunning
    · cases h
      exact .start port httpport hcaller (by simpa using hrunning)
  next port httpport os hcaller =>
    split_ifs at h with hguard
    cases h
    exact .run os hcaller hguard.2
  next requested port daemon hcaller =>
    split_ifs at h
    cases h
    exact .httpStarted daemon hcaller
  next hcaller =>
    split_ifs at h with hkill
    · cases h
      exact .stopAgain hcaller hkill
    · cases h
      exact .stop hcaller (by simpa using hkill)
  next hcaller =>
    split_ifs at h with hguard
    cases h
    exact .joined hcaller hguard.2
  next => cases h

/-- A call changes the queue, the store, the tables and the timeout only, or ends the
process with a fault. It adds nothing to the store. -/
theorem call_frame {S : Setting} {s t : State} {a : Action} (ha : isCall a = true)
    (h : Server.step S s a = some t) :
    t = s.crash ∨ ∃ queue accepted stanzas primed timeout,
      (s.received_stanzas = [] → stanzas = []) ∧ t = { s with
        send_queue := queue
        accepted := accepted
        received_stanzas := stanzas
        primed := primed
        verify_timeout := timeout } := by
  have hprime : ∀ r : Except Stanza.Fault Primed, s.primeWith r = s.crash ∨
      ∃ primed, s.primeWith r = { s with primed := primed } := by
    intro r
    cases r with
    | error fault => exact Or.inl rfl
    | ok primed => exact Or.inr ⟨primed, rfl⟩
  have hcrash := running_of_step h
  unfold Server.step at h
  rw [if_neg hcrash] at h
  cases a with
  | send stream =>
      dsimp only at h
      split_ifs at h
      cases h
      exact Or.inr ⟨_, _, s.received_stanzas, _, _, fun hnil => hnil, rfl⟩
  | forQuery query stream =>
      cases h
      rcases hprime (primeForQuery S.expat query stream s.primed) with hfault | ⟨primed, hok⟩
      · exact Or.inl hfault
      · exact Or.inr ⟨_, _, s.received_stanzas, _, _, fun hnil => hnil, hok⟩
  | forXmlns xmlns stream =>
      cases h
      rcases hprime (primeForXmlns S.expat xmlns stream s.primed) with hfault | ⟨primed, hok⟩
      · exact Or.inl hfault
      · exact Or.inr ⟨_, _, s.received_stanzas, _, _, fun hnil => hnil, hok⟩
  | verifyAny template clear =>
      cases h
      refine Or.inr ⟨_, _, _, _, _, ?_, rfl⟩
      intro hnil
      rw [hnil]
      rfl
  | requiredPasswd | forId | setTimeout | verifyLast | containsId =>
      cases h
      exact Or.inr ⟨_, _, s.received_stanzas, _, _, fun hnil => hnil, rfl⟩
  | _ => cases ha

theorem httpapi_run_of_step {S : Setting} {s t : State} {a : Action}
    (h : Server.step S s a = some t) (ht : t.httpapi_run = true) : s.httpapi_run = true := by
  cases step_cases h with
  | call hw hpc hclient hcall =>
      obtain ⟨_, _, _, hrecord⟩ := s.record_eq _
      rw [hrecord] at ht
      exact ht
  | shutdown => cases ht
  | _ => exact ht

theorem call_changes {S : Setting} {w v : World} {a : Action} (h : w.call S a = some v) :
    ∃ shared crashed, v = { w with shared := shared, crashed := crashed } ∧
      shared.httpapi_run = w.shared.httpapi_run ∧ shared.kill_recv = w.shared.kill_recv ∧
      shared.client = w.shared.client := by
  unfold World.call at h
  split_ifs at h with hguard
  obtain ⟨t, ht, rfl⟩ := Option.map_eq_some_iff.mp h
  refine ⟨_, _, rfl, ?_⟩
  rcases call_frame hguard.1 ht with rfl | ⟨_, _, _, _, _, -, rfl⟩
  · exact ⟨rfl, rfl, rfl⟩
  · exact ⟨rfl, rfl, rfl⟩

theorem threadStep_changes {S : Setting} {w v : World} {i : ℕ} {a : Action}
    (h : w.threadStep S i a = some v) :
    v = { w with crashed := true } ∨ ∃ t s, w.threads[i]? = some t ∧ isFinished t.pc = false ∧
      Server.step S (w.view t) a = some s ∧ v = { w with
        shared := World.threadless s
        threads := w.threads.set i ⟨s.pc, s.writing, s.stream, t.joined⟩
        httpdaemmon := w.httpdaemmon && (s.httpapi_run || !w.shared.httpapi_run)
        crashed := s.pc.isCrashed } := by
  unfold World.threadStep at h
  split at h
  next => cases h
  next t ht =>
    by_cases hguard : isThreadStep a = false ∨ isFinished t.pc = true ∨
        (t.wantsLock = true ∧ w.locked = true)
    · rw [if_pos hguard] at h
      cases h
    rw [if_neg hguard] at h
    obtain ⟨s, hs, hv⟩ := Option.map_eq_some_iff.mp h
    split_ifs at hv with hcrash
    · exact Or.inl hv.symm
    · refine Or.inr ⟨t, s, ht, ?_, hs, hv.symm⟩
      simp only [not_or, Bool.not_eq_true] at hguard
      exact hguard.2.1

theorem setSocket_setSocket (w : World) (fd : ℤ) (a b : Option Socket) :
    (w.setSocket fd a).setSocket fd b = w.setSocket fd b := by
  unfold World.setSocket
  congr 1
  funext i
  dsimp only
  split_ifs <;> rfl

/-- A socket is kept, or none is created, or one is, and if nothing fails it listens. -/
theorem createSocket_cases (w : World) (os : Outcomes) (port : ℤ) :
    (0 ≤ w.listen_socket ∧ w.createSocket os port = (w, port, true)) ∨
    (w.listen_socket < 0 ∧ os.socket = -1 ∧
      w.createSocket os port = ({ w with listen_socket := -1 }, port, false)) ∨
    (w.listen_socket < 0 ∧ os.socket ≠ -1 ∧ ∃ socket port' ok, w.createSocket os port =
        ({ w with listen_socket := os.socket }.setSocket os.socket (some socket), port', ok) ∧
      (ok = true → socket = ⟨some (boundPort os port), true⟩ ∧
        port' = if port = 0 then boundPort os port else port)) := by
  unfold World.createSocket
  by_cases hopen : w.listen_socket < 0
  · right
    rw [if_pos hopen]
    by_cases hsocket : os.socket = -1
    · left
      dsimp only
      rw [if_pos hsocket, hsocket]
      exact ⟨hopen, rfl, rfl⟩
    · right
      refine ⟨hopen, hsocket, ?_⟩
      dsimp only
      rw [if_neg hsocket]
      simp only [setSocket_setSocket]
      split_ifs
      all_goals exact ⟨_, _, _, rfl, by simp⟩
  · left
    rw [if_neg hopen]
    exact ⟨by omega, rfl⟩

theorem createSocket_changes (w : World) (os : Outcomes) (port : ℤ) : ∃ fd sockets,
    (w.createSocket os port).1 = { w with listen_socket := fd, sockets := sockets } := by
  rcases createSocket_cases w os port with
    ⟨-, heq⟩ | ⟨-, -, heq⟩ | ⟨-, -, socket, _, _, heq, -⟩
  · exact ⟨w.listen_socket, w.sockets, by rw [heq]⟩
  · exact ⟨-1, w.sockets, by rw [heq]⟩
  · exact ⟨os.socket, _, by rw [heq]; rfl⟩

def World.withThread (w : World) : World :=
  World.spawn { w with shared := { w.shared with primed := primeInit w.shared.primed } }

/-- A start fails before it has a thread, or has one and goes on. -/
theorem serverRun_cases (w : World) (os : Outcomes) (requested httpport : ℤ) :
    (∃ fd sockets primed port, w.serverRun os requested httpport =
      World.startFailed { w.reset with
        listen_socket := fd
        sockets := sockets
        shared := { w.reset.shared with primed := primed } } requested port) ∨
    (∃ v port, w.reset.createSocket os requested = (v, port, true) ∧ os.pthread_create = true ∧
      w.serverRun os requested httpport =
        if 0 < httpport then { v.withThread with caller := .httpStarting requested port }
        else v.withThread.started requested port) := by
  obtain ⟨fd, sockets, hsame⟩ := createSocket_changes w.reset os requested
  unfold World.serverRun
  rcases hresult : w.reset.createSocket os requested with ⟨v, port, ok⟩
  rw [hresult] at hsame
  change v = _ at hsame
  cases ok with
  | false =>
      left
      exact ⟨fd, sockets, _, port, by rw [hsame]⟩
  | true =>
      dsimp only
      by_cases hthread : os.pthread_create = false
      · left
        rw [if_pos hthread, hsame]
        exact ⟨fd, sockets, _, port, rfl⟩
      · right
        rw [if_neg hthread]
        exact ⟨v, port, rfl, by simpa using hthread, rfl⟩

/-- Only a stop returns from a stop. -/
theorem stop_of_returned {S : Setting} {w v : World} {a : Act} (hnone : w.returned = none)
    (h : Turn S w a v) (hv : v.returned = some .stop) : a = .stop ∨ a = .joined := by
  cases h with
  | call a hcall =>
      obtain ⟨_, _, rfl, -⟩ := call_changes hcall
      rw [hnone] at hv
      cases hv
  | request a hcall =>
      obtain ⟨_, _, rfl, -⟩ := call_changes hcall
      rw [hnone] at hv
      cases hv
  | thread i a hthread =>
      rcases threadStep_changes hthread with rfl | ⟨_, _, -, -, -, rfl⟩
      · rw [hnone] at hv
        cases hv
      · rw [hnone] at hv
        cases hv
  | startAgain => cases hv
  | start =>
      rw [hnone] at hv
      cases hv
  | @run os port httpport _ _ =>
      rcases serverRun_cases w os port httpport with ⟨_, _, _, _, heq⟩ | ⟨u, _, hcreated, -, heq⟩
      · rw [heq] at hv
        cases hv
      · have hu : u.returned = none := by
          obtain ⟨_, _, hsame⟩ := createSocket_changes w.reset os port
          rw [hcreated] at hsame
          change u = _ at hsame
          rw [hsame]
          exact hnone
        rw [heq] at hv
        split_ifs at hv
        · change u.returned = some .stop at hv
          rw [hu] at hv
          cases hv
        · cases hv
  | httpStarted daemon _ =>
      unfold World.httpStarted at hv
      cases daemon <;> cases hv
  | stopAgain => exact Or.inl rfl
  | stop => exact Or.inl rfl
  | joined => exact Or.inr rfl

theorem crashed_stuck {S : Setting} {w : World} (h : w.crashed = true) (a : Act) :
    step S w a = none := by
  rw [step, if_pos h]

/-- A run that has not crashed at its end has not crashed before. -/
theorem not_crashed_of_run {S : Setting} {w v : World} {as : List Act}
    (h : Transition.run (step S) w as = some v) (hcrash : v.crashed = false) :
    w.crashed = false := by
  cases as with
  | nil =>
      cases h
      exact hcrash
  | cons a as =>
      by_contra hw
      rw [Bool.not_eq_false] at hw
      rw [Transition.run, crashed_stuck hw] at h
      cases h

end Stabber.Lifecycle
