import Stabber.Lifecycle

/-!
# The port that a start reports

A start that finds a listen socket takes it as it is, and one that creates a socket
hands the port through sixteen bits. The reported port is the right one if the socket
that is found listens on it already, or the port fits.
-/

namespace Stabber.Listening
open Priming Server Transition Lifecycle

/-- The listen socket is bound to this port, and `listen` has succeeded. -/
def ListensOn (w : World) (port : ℤ) : Prop :=
  w.sockets w.listen_socket = some ⟨some port, true⟩

/-- What a start that returns zero promises. -/
structure Correct (w : World) (requested : ℤ) (running : Bool) (port : ℤ) : Prop where
  listens : ListensOn w port
  nonzero : port ≠ 0
  requested : requested ≠ 0 → running = false → port = requested
  reported : w.stbbr_port = port

def StartsRight (w : World) : Prop :=
  ∀ requested running port, w.returned = some (.start requested running 0 port) →
    Correct w requested running port

/-- No call of the operating system before the start of the HTTP daemon fails. -/
def Succeeds (w : World) (os : Outcomes) (port : ℤ) : Prop :=
  (w.listen_socket < 0 → os.socket ≠ -1 ∧ os.bind = true ∧
    (port = 0 → os.getsockname = true) ∧ os.listen = true) ∧ os.pthread_create = true

/-- There is no socket and the port fits, or the socket listens on the port already. -/
def RightSocket (w : World) (port : ℤ) : Prop :=
  (w.listen_socket < 0 ∧ 0 ≤ port ∧ port ≤ 65535) ∨
    (0 ≤ w.listen_socket ∧ port ≠ 0 ∧ ListensOn w port)

def Placed (w : World) : Act → Prop
  | .run os => ∀ port httpport, w.caller = .starting port httpport → Succeeds w os port →
      RightSocket w port
  | _ => True

/-- The socket after `createSocket`, which has not failed, and the value of `*port`. -/
structure Opened (w : World) (os : Outcomes) (port : ℤ) (v : World) (port' : ℤ) : Prop where
  kept : 0 ≤ w.listen_socket → v = w ∧ port' = port
  created : w.listen_socket < 0 → ListensOn v (boundPort os port) ∧
    port' = if port = 0 then boundPort os port else port

theorem opened_of_createSocket {w v : World} {os : Outcomes} {port port' : ℤ}
    (h : w.createSocket os port = (v, port', true)) : Opened w os port v port' := by
  rcases createSocket_cases w os port with
    ⟨hopen, heq⟩ | ⟨-, -, heq⟩ | ⟨hopen, -, socket, port'', ok, heq, hok⟩
  · rw [h, Prod.mk.injEq, Prod.mk.injEq] at heq
    exact ⟨fun _ => ⟨heq.1, heq.2.1⟩, fun hlt => by omega⟩
  · rw [h, Prod.mk.injEq, Prod.mk.injEq] at heq
    cases heq.2.2
  · rw [h, Prod.mk.injEq, Prod.mk.injEq] at heq
    obtain ⟨rfl, rfl, rfl⟩ := heq
    obtain ⟨rfl, hport⟩ := hok rfl
    refine ⟨fun hle => by omega, fun _ => ⟨?_, hport⟩⟩
    exact if_pos rfl

theorem createSocket_ok {w : World} {os : Outcomes} {port : ℤ}
    (h : (w.createSocket os port).2.2 = true) (hopen : w.listen_socket < 0) :
    os.socket ≠ -1 ∧ os.bind = true ∧ (port = 0 → os.getsockname = true) ∧ os.listen = true := by
  unfold World.createSocket at h
  rw [if_pos hopen] at h
  dsimp only at h
  split_ifs at h with hsocket hbind hname hlisten
  all_goals simp_all

/-- The port is right just if the socket was. -/
theorem opened_right_iff {w v : World} {os : Outcomes} {port port' : ℤ}
    (hos : possible w os = true) (h : Opened w os port v port') :
    (ListensOn v port' ∧ port' ≠ 0 ∧ (port ≠ 0 → port' = port)) ↔ RightSocket w port := by
  simp only [possible, Bool.and_eq_true, Bool.or_eq_true, decide_eq_true_eq] at hos
  by_cases hopen : w.listen_socket < 0
  · obtain ⟨hlistens, hport⟩ := h.created hopen
    have hbound : ListensOn v port' ↔ boundPort os port = port' := by
      rw [ListensOn] at hlistens ⊢
      rw [hlistens]
      simp
    have hzero : boundPort os port ≠ 0 := by
      rw [boundPort]
      split_ifs <;> omega
    rw [hbound, hport, RightSocket]
    have hfits : boundPort os port = port ↔ 0 < port ∧ port ≤ 65535 := by
      rw [boundPort]
      split_ifs <;> omega
    split_ifs with hnew
    · constructor
      · intro _
        exact Or.inl ⟨hopen, by omega, by omega⟩
      · intro _
        exact ⟨rfl, hzero, fun hne => (hne hnew).elim⟩
    · rw [hfits]
      constructor
      · intro hright
        exact Or.inl ⟨hopen, by omega, by omega⟩
      · intro hright
        exact ⟨by omega, hnew, fun _ => rfl⟩
  · obtain ⟨rfl, rfl⟩ := h.kept (by omega)
    rw [RightSocket]
    constructor
    · intro hright
      exact Or.inr ⟨by omega, hright.2.1, hright.1⟩
    · intro hright
      rcases hright with hright | hright
      · exact (hopen hright.1).elim
      · exact ⟨hright.2.2, hright.2.1, fun _ => rfl⟩

theorem createSocket_of_succeeds {w : World} {os : Outcomes} {port : ℤ} (h : Succeeds w os port) :
    (w.createSocket os port).2.2 = true := by
  unfold World.createSocket
  by_cases hopen : w.listen_socket < 0
  · obtain ⟨hsocket, hbind, hname, hlisten⟩ := h.1 hopen
    rw [if_pos hopen]
    dsimp only
    rw [if_neg hsocket, if_neg (by simp [hbind]), if_neg (by simpa using hname),
      if_neg (by simp [hlisten])]
  · rw [if_neg hopen]

/-- For a start without HTTP the condition is exact. -/
theorem startsRight_iff {w : World} {os : Outcomes} {port httpport : ℤ} (hhttp : httpport ≤ 0)
    (hpossible : possible w os = true) (h : Succeeds w os port) :
    StartsRight (w.serverRun os port httpport) ↔ RightSocket w port := by
  have hok : (w.reset.createSocket os port).2.2 = true := createSocket_of_succeeds h
  rcases hcreated : w.reset.createSocket os port with ⟨v, port', ok⟩
  rw [hcreated] at hok
  obtain rfl : ok = true := hok
  have hrun : w.serverRun os port httpport = v.withThread.started port port' := by
    unfold World.serverRun
    rw [hcreated]
    dsimp only
    rw [if_neg (by simp [h.2]), if_neg (by omega)]
    rfl
  have hiff : _ ↔ RightSocket w port :=
    opened_right_iff (w := w.reset) hpossible (opened_of_createSocket hcreated)
  rw [hrun, ← hiff]
  constructor
  · intro hright
    have hcorrect := hright port false port' rfl
    exact ⟨hcorrect.listens, hcorrect.nonzero, fun hne => hcorrect.requested hne rfl⟩
  · intro hport requested running port'' hreturned
    cases hreturned
    exact ⟨hport.1, hport.2.1, fun hne _ => hport.2.2 hne, rfl⟩

/-! ## Over a run -/

/-- What is known of the port between the steps. -/
structure Tracked (w : World) : Prop where
  running : w.stbbr_running = true → ListensOn w w.stbbr_port ∧ w.stbbr_port ≠ 0
  waiting : ∀ port httpport, w.caller = .starting port httpport → w.stbbr_running = false
  starting : ∀ requested port, w.caller = .httpStarting requested port →
    ListensOn w port ∧ port ≠ 0 ∧ (requested ≠ 0 → port = requested)

theorem tracked_init : Tracked World.init where
  running := by simp [World.init]
  waiting := by simp [World.init]
  starting := by simp [World.init]

/-- No step of a thread, and no call, touches these. -/
structure SamePort (w v : World) : Prop where
  sockets : v.sockets = w.sockets
  listen_socket : v.listen_socket = w.listen_socket
  running : v.stbbr_running = w.stbbr_running
  port : v.stbbr_port = w.stbbr_port
  caller : v.caller = w.caller
  returned : v.returned = w.returned

theorem samePort_call {S : Setting} {w v : World} {a : Action} (h : w.call S a = some v) :
    SamePort w v := by
  obtain ⟨_, _, rfl, -⟩ := call_changes h
  exact ⟨rfl, rfl, rfl, rfl, rfl, rfl⟩

theorem samePort_thread {S : Setting} {w v : World} {i : ℕ} {a : Action}
    (h : w.threadStep S i a = some v) : SamePort w v := by
  rcases threadStep_changes h with rfl | ⟨_, _, -, -, -, rfl⟩
  · exact ⟨rfl, rfl, rfl, rfl, rfl, rfl⟩
  · exact ⟨rfl, rfl, rfl, rfl, rfl, rfl⟩

section Steps
variable {w v : World} (h : Tracked w)
include h

theorem Tracked.same (hv : SamePort w v) : Tracked v := by
  refine ⟨?_, ?_, ?_⟩
  · rw [hv.running, hv.port, ListensOn, hv.sockets, hv.listen_socket]
    exact h.running
  · rw [hv.caller, hv.running]
    exact h.waiting
  · rw [hv.caller]
    simp only [ListensOn, hv.sockets, hv.listen_socket]
    exact h.starting

theorem Tracked.forget : Tracked { w with returned := none } := ⟨h.running, h.waiting, h.starting⟩

theorem Tracked.startAgain (port : ℤ) (hrunning : w.stbbr_running = true) :
    Correct { w with returned := some (.start port true 0 w.stbbr_port) } port true
      w.stbbr_port := by
  obtain ⟨hlistens, hport⟩ := h.running hrunning
  exact ⟨hlistens, hport, fun _ hoff => (nomatch hoff), rfl⟩

end Steps

/-- With the caller idle and the server not running nothing is claimed. -/
theorem tracked_idle {w : World} (hidle : w.caller = .idle) (hoff : w.stbbr_running = false) :
    Tracked w := by
  refine ⟨?_, ?_, ?_⟩
  · rw [hoff]
    simp
  · rw [hidle]
    simp
  · rw [hidle]
    simp

theorem tracked_started {w : World} {requested port : ℤ}
    (h : ListensOn w port ∧ port ≠ 0 ∧ (requested ≠ 0 → port = requested)) :
    Tracked (w.started requested port) ∧ StartsRight (w.started requested port) := by
  constructor
  · exact ⟨fun _ => ⟨h.1, h.2.1⟩, fun _ _ hcaller => (nomatch hcaller),
      fun _ _ hcaller => (nomatch hcaller)⟩
  · intro requested' running port' hreturned
    cases hreturned
    exact ⟨h.1, h.2.1, fun hne _ => h.2.2 hne, rfl⟩

theorem tracked_run {w : World} {os : Outcomes} {port httpport : ℤ} (h : Tracked w)
    (hcaller : w.caller = .starting port httpport) (hpossible : possible w os = true)
    (hok : Placed w (.run os)) (hnone : w.returned = none) :
    Tracked (w.serverRun os port httpport) ∧ StartsRight (w.serverRun os port httpport) := by
  have hoff := h.waiting port httpport hcaller
  rcases serverRun_cases w os port httpport with
    ⟨fd, sockets, primed, port', heq⟩ | ⟨v, port', hcreated, hthread, heq⟩
  · rw [heq]
    refine ⟨tracked_idle rfl hoff, ?_⟩
    intro requested running port'' hreturned
    cases hreturned
  · have hopened := opened_of_createSocket hcreated
    have hsucceeds : Succeeds w os port := by
      refine ⟨fun hopen => ?_, hthread⟩
      exact createSocket_ok (w := w.reset) (by rw [hcreated]) hopen
    have hright : RightSocket w.reset port := hok port httpport hcaller hsucceeds
    have hport := (opened_right_iff (w := w.reset) hpossible hopened).mpr hright
    obtain ⟨hreturned, hrunning⟩ : v.returned = none ∧ v.stbbr_running = false := by
      obtain ⟨_, _, hsame⟩ := createSocket_changes w.reset os port
      rw [hcreated] at hsame
      change v = _ at hsame
      rw [hsame]
      exact ⟨hnone, hoff⟩
    rw [heq]
    split_ifs
    · constructor
      · refine ⟨?_, fun _ _ hc => (nomatch hc), ?_⟩
        · intro hyes
          change v.stbbr_running = true at hyes
          rw [hrunning] at hyes
          cases hyes
        · intro requested port'' hc
          cases hc
          exact hport
      · intro requested running port'' hr
        change v.returned = _ at hr
        rw [hreturned] at hr
        cases hr
    · exact tracked_started hport

theorem tracked_httpStarted {w : World} (daemon : Bool) {requested port : ℤ} (h : Tracked w)
    (hcaller : w.caller = .httpStarting requested port) :
    Tracked (w.httpStarted daemon requested port) ∧
      StartsRight (w.httpStarted daemon requested port) := by
  have hport := h.starting requested port hcaller
  unfold World.httpStarted
  cases daemon with
  | true => exact tracked_started hport
  | false =>
      constructor
      · exact ⟨h.running, fun _ _ hc => (nomatch hc), fun _ _ hc => (nomatch hc)⟩
      · intro requested running port' hreturned
        cases hreturned

theorem tracked_step {S : Setting} {w v : World} {a : Act} (h : Tracked w) (hok : Placed w a)
    (hstep : Lifecycle.step S w a = some v) : Tracked v ∧ StartsRight v := by
  have hw := h.forget
  have hsilent : ∀ u : World, u.returned = none → StartsRight u := by
    intro u hnone requested running port hreturned
    rw [hnone] at hreturned
    cases hreturned
  cases step_turn hstep with
  | call a hcall =>
      have hsame := samePort_call hcall
      exact ⟨hw.same hsame, hsilent v hsame.returned⟩
  | request a hcall =>
      have hsame := samePort_call hcall
      exact ⟨hw.same hsame, hsilent v hsame.returned⟩
  | thread i a hthread =>
      have hsame := samePort_thread hthread
      exact ⟨hw.same hsame, hsilent v hsame.returned⟩
  | startAgain port httpport _ hrunning =>
      refine ⟨⟨h.running, h.waiting, h.starting⟩, ?_⟩
      intro requested running port' hreturned
      cases hreturned
      exact hw.startAgain port hrunning
  | start port httpport _ hoff =>
      refine ⟨⟨h.running, fun _ _ _ => hoff, fun _ _ hc => (nomatch hc)⟩, hsilent _ rfl⟩
  | run os hcaller hpossible => exact tracked_run hw hcaller hpossible hok rfl
  | httpStarted daemon hcaller => exact tracked_httpStarted daemon hw hcaller
  | stopAgain =>
      refine ⟨tracked_idle rfl rfl, ?_⟩
      intro requested running port hreturned
      cases hreturned
  | stop =>
      exact ⟨⟨h.running, fun _ _ hc => (nomatch hc), fun _ _ hc => (nomatch hc)⟩, hsilent _ rfl⟩
  | joined =>
      refine ⟨tracked_idle rfl rfl, ?_⟩
      intro requested running port hreturned
      cases hreturned

/-- If every start that gets its thread has found the right socket, every start that
returns zero has the server listening on the port that it reports. -/
theorem startsRight_of_runs {S : Setting} {as : List Act} {w : World}
    (h : Runs (Lifecycle.step S) Placed World.init as w) : StartsRight w := by
  have hall : Tracked w ∧ StartsRight w := by
    refine h.invariant (I := fun w => Tracked w ∧ StartsRight w) ⟨tracked_init, ?_⟩ ?_
    · intro requested running port hreturned
      cases hreturned
    · intro u a v hu hok hstep
      exact tracked_step hu.1 hok hstep
  exact hall.2

/-- A test that a start meets the condition. -/
def fits (w : World) : Act → Bool
  | .run _ =>
      match w.caller with
      | .starting port _ => w.listen_socket < 0 && 0 ≤ port && port ≤ 65535
      | _ => true
  | _ => true

theorem placed_of_fits (w : World) (a : Act) (h : fits w a = true) : Placed w a := by
  cases a with
  | run os =>
      intro port httpport hcaller _
      simp only [fits, hcaller, Bool.and_eq_true, decide_eq_true_eq] at h
      exact Or.inl ⟨h.1.1, h.1.2, h.2⟩
  | _ => trivial

theorem ephemeral_port_right :
    ∃ w, run (Lifecycle.step Setting.plain) World.init [.start 0 0, .run (allSucceed 3)] = some w ∧
      Correct w 0 false 40000 := by
  have hchecked : ((run (fun w a => if fits w a then Lifecycle.step Setting.plain w a else none)
      World.init [.start 0 0, .run (allSucceed 3)]).any
        fun w => w.returned = some (.start 0 false 0 40000)) = true := by
    decide +kernel
  obtain ⟨w, hrun, hreturned⟩ := (Option.any_eq_true _ _).mp hchecked
  have hruns := runs_of_checked placed_of_fits hrun
  exact ⟨w, hruns.to_run, startsRight_of_runs hruns 0 false 40000 (of_decide_eq_true hreturned)⟩

/-- After these actions a start has returned zero and this port, but the socket is
another. -/
def Misreports (as : List Act) (port : ℤ) (socket : Socket) : Prop :=
  ∃ w, run (Lifecycle.step Setting.plain) World.init as = some w ∧
    w.returned = some (.start port false 0 port) ∧ w.sockets w.listen_socket = some socket ∧
    ¬ Correct w port false port

theorem misreports_of_run {as : List Act} {port : ℤ} {socket : Socket}
    (hne : socket ≠ ⟨some port, true⟩)
    (h : ((run (Lifecycle.step Setting.plain) World.init as).any fun w =>
      w.returned = some (.start port false 0 port) ∧
        w.sockets w.listen_socket = some socket) = true) : Misreports as port socket := by
  obtain ⟨w, hrun, hw⟩ := (Option.any_eq_true _ _).mp h
  obtain ⟨hreturned, hsocket⟩ := of_decide_eq_true hw
  refine ⟨w, hrun, hreturned, hsocket, ?_⟩
  intro hcorrect
  have hlistens : w.sockets w.listen_socket = some ⟨some port, true⟩ := hcorrect.listens
  rw [hsocket] at hlistens
  exact hne (Option.some.inj hlistens)

/-- A socket that could not be bound is taken by the next start; so is the one that a
stop has left; and a port of seventeen bits becomes another. -/
theorem wrong_port_reported :
    Misreports [.start 5230 0, .run { allSucceed 3 with bind := false }, .start 5230 0,
      .run (allSucceed 4)] 5230 ⟨none, false⟩ ∧
    Misreports (streamEnded ++ [.stop, .start 5231 0, .run (allSucceed 4)]) 5231
      ⟨some 5230, true⟩ ∧
    Misreports [.start 65536 0, .run (allSucceed 3)] 65536 ⟨some 40000, true⟩ := by
  refine ⟨misreports_of_run (by decide) ?_, misreports_of_run (by decide) ?_,
    misreports_of_run (by decide) ?_⟩
  · decide +kernel
  · decide +kernel
  · decide +kernel

end Stabber.Listening
