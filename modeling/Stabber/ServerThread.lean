import Stabber.Lifecycle

/-!
# A server thread among the others

As long as only the API, the HTTP requests and one thread act, that thread and what it
shares with the callers are the server of one run. A start that succeeds makes a new
thread for which this run begins.
-/

namespace Stabber.ServerThread
open Priming Server Transition Lifecycle

/-- The action of the server that one thread takes part in. -/
def ofServer (i : ℕ) : Act → Option Action
  | .call a => some a
  | .request a => some a
  | .thread j a => if j = i then some a else none
  | .stop => some .stop
  | _ => none

/-- The thread that a start creates is at the beginning of a run. -/
theorem started_view {w v : World} {os : Outcomes} {port port' : ℤ}
    (h : w.reset.createSocket os port = (v, port', true)) :
    Started (v.withThread.view Thread.new) := by
  obtain ⟨fd, sockets, hsame⟩ := createSocket_changes w.reset os port
  rw [h] at hsame
  change v = _ at hsame
  rw [hsame]
  exact ⟨rfl, rfl, rfl, rfl, rfl, rfl, rfl, rfl, rfl, rfl, rfl⟩

section Step
variable {S : Setting} {w v : World}

/-- A call does the same whatever the thread is doing, if it gets the lock. -/
theorem step_view {s : State} {t : Thread} {a : Action} (ha : isCall a = true)
    (hpc : t.pc.isCrashed = false) (hlock : takesLock a = true → t.pc.holdsLock = false)
    (h : Server.step S w.shared a = some s) (hs : s.pc.isCrashed = false) :
    Server.step S (w.view t) a = some (World.view { w with shared := World.threadless s } t) := by
  have hprime : ∀ r : Except Stanza.Fault Primed, (w.shared.primeWith r).pc.isCrashed = false →
      (w.view t).primeWith r =
        World.view { w with shared := World.threadless (w.shared.primeWith r) } t := by
    intro r hr
    cases r with
    | error fault => cases hr
    | ok primed => rfl
  have hview : (w.view t).pc.isCrashed = false := hpc
  have hcrash := running_of_step h
  unfold Server.step at h ⊢
  rw [hview, if_neg Bool.false_ne_true]
  rw [if_neg hcrash] at h
  cases a with
  | send stream =>
      have hfree : (w.view t).pc.holdsLock = false := hlock rfl
      dsimp only at h ⊢
      rw [hfree, if_neg Bool.false_ne_true]
      split_ifs at h
      cases h
      rfl
  | forQuery query stream =>
      cases h
      exact congrArg some (hprime _ hs)
  | forXmlns xmlns stream =>
      cases h
      exact congrArg some (hprime _ hs)
  | requiredPasswd | forId | setTimeout | verifyAny | verifyLast | containsId =>
      cases h
      rfl
  | _ => cases ha

theorem call_view {t : Thread} {a : Action} (h : w.call S a = some v) (hcrash : v.crashed = false)
    (ht : t ∈ w.threads) (hpc : t.pc.isCrashed = false) :
    v.threads = w.threads ∧ Server.step S (w.view t) a = some (v.view t) := by
  unfold World.call at h
  split_ifs at h with hguard
  obtain ⟨s, hs, rfl⟩ := Option.map_eq_some_iff.mp h
  refine ⟨rfl, step_view hguard.1 hpc ?_ hs hcrash⟩
  intro htakes
  have hunlocked := hguard.2 htakes
  rw [World.locked, List.any_eq_false] at hunlocked
  exact Bool.not_eq_true _ ▸ hunlocked t ht

theorem thread_view {t : Thread} {i : ℕ} {a : Action} (h : w.threadStep S i a = some v)
    (hcrash : v.crashed = false) (ht : w.threads[i]? = some t) : ∃ t', v.threads[i]? = some t' ∧
      t'.pc.isCrashed = false ∧ Server.step S (w.view t) a = some (v.view t') := by
  rcases threadStep_changes h with rfl | ⟨u, s, hu, -, hs, rfl⟩
  · cases hcrash
  · rw [ht] at hu
    cases hu
    have hlt : i < w.threads.length := (List.getElem?_eq_some_iff.mp ht).1
    exact ⟨⟨s.pc, s.writing, s.stream, t.joined⟩, List.getElem?_set_self hlt, hcrash, hs⟩

/-- One step of the world is one step of the server. -/
theorem world_step_view {t : Thread} {i : ℕ} {a : Act} {b : Action}
    (hserver : ofServer i a = some b) (h : Lifecycle.step S w a = some v)
    (hcrash : v.crashed = false) (ht : w.threads[i]? = some t) (hpc : t.pc.isCrashed = false) :
    ∃ t', v.threads[i]? = some t' ∧ t'.pc.isCrashed = false ∧
      Server.step S (w.view t) b = some (v.view t') := by
  have hmem : t ∈ w.threads := List.mem_of_getElem? ht
  have hview : (w.view t).pc.isCrashed = false := hpc
  cases step_turn h with
  | call a hcall =>
      cases hserver
      obtain ⟨hthreads, hstep⟩ := call_view hcall hcrash hmem hpc
      exact ⟨t, by rw [hthreads]; exact ht, hpc, hstep⟩
  | request a hcall =>
      cases hserver
      obtain ⟨hthreads, hstep⟩ := call_view hcall hcrash hmem hpc
      exact ⟨t, by rw [hthreads]; exact ht, hpc, hstep⟩
  | thread j a hthread =>
      by_cases hj : j = i
      · rw [ofServer, if_pos hj] at hserver
        cases hserver
        subst hj
        exact thread_view (w := { w with returned := none }) hthread hcrash ht
      · rw [ofServer, if_neg hj] at hserver
        cases hserver
  | stopAgain _ hkill =>
      cases hserver
      refine ⟨t, ht, hpc, ?_⟩
      have hsame : { w.view t with kill_recv := true } = w.view t := by
        rw [World.view, ← hkill]
      rw [Server.step, hview, if_neg Bool.false_ne_true]
      exact congrArg some hsame
  | stop =>
      cases hserver
      refine ⟨t, ht, hpc, ?_⟩
      rw [Server.step, hview, if_neg Bool.false_ne_true]
      rfl
  | _ => cases hserver

end Step

/-- The actions that concern the thread are a run of the server. -/
theorem world_run_view {S : Setting} {w v : World} {i : ℕ} {t : Thread} {as : List Act}
    (hserver : ∀ a ∈ as, (ofServer i a).isSome = true) (h : run (Lifecycle.step S) w as = some v)
    (hcrash : v.crashed = false) (ht : w.threads[i]? = some t) (hpc : t.pc.isCrashed = false) :
    ∃ t', v.threads[i]? = some t' ∧
      run (Server.step S) (w.view t) (as.filterMap (ofServer i)) = some (v.view t') := by
  induction as generalizing w t with
  | nil =>
      cases h
      exact ⟨t, ht, rfl⟩
  | cons a as ih =>
      rw [run] at h
      obtain ⟨u, hu, hrest⟩ := Option.bind_eq_some_iff.mp h
      have hcrashed := not_crashed_of_run hrest hcrash
      obtain ⟨b, hb⟩ := Option.isSome_iff_exists.mp (hserver a List.mem_cons_self)
      obtain ⟨t', ht', hpc', hstep⟩ := world_step_view hb hu hcrashed ht hpc
      have hothers : ∀ c ∈ as, (ofServer i c).isSome = true :=
        fun c hc => hserver c (List.mem_cons_of_mem a hc)
      obtain ⟨t'', hend, hrun⟩ := ih hothers hrest ht' hpc'
      refine ⟨t'', hend, ?_⟩
      rw [List.filterMap_cons, hb, run, hstep]
      exact hrun

/-- A start that returns zero begins a run of the server. -/
theorem server_run_of_start {S : Setting} {w u v : World} {os : Outcomes} {requested port : ℤ}
    {as : List Act} (hstart : Lifecycle.step S w (.run os) = some u)
    (hreturned : u.returned = some (.start requested false 0 port))
    (hserver : ∀ a ∈ as, (ofServer w.threads.length a).isSome = true)
    (h : run (Lifecycle.step S) u as = some v) (hcrash : v.crashed = false) :
    ∃ s t, Started s ∧ v.threads[w.threads.length]? = some t ∧
      run (Server.step S) s (as.filterMap (ofServer w.threads.length)) = some (v.view t) := by
  cases step_turn hstart with
  | @run os requested' httpport _ _ =>
      rcases serverRun_cases { w with returned := none } os requested' httpport with
        ⟨fd, sockets, primed, port', heq⟩ | ⟨x, port', hcreated, -, heq⟩
      · rw [heq] at hreturned
        cases hreturned
      · have hstarted := started_view hcreated
        obtain ⟨fd, sockets, hsame⟩ :=
          createSocket_changes (World.reset { w with returned := none }) os requested'
        rw [hcreated] at hsame
        change x = _ at hsame
        rw [heq] at h hreturned
        split_ifs at h hreturned
        · rw [hsame] at hreturned
          cases hreturned
        · have hnew : (x.withThread.started requested' port').threads[w.threads.length]? =
              some Thread.new := by
            rw [hsame]
            exact List.getElem?_concat_length
          obtain ⟨t, ht, hrun⟩ := world_run_view hserver h hcrash hnew rfl
          exact ⟨_, t, hstarted, ht, hrun⟩

end Stabber.ServerThread
