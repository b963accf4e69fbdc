import Stabber.Stopping

/-!
# One session after another

A process whose server has been stopped goes on like one that has just begun: nothing of
the sessions before is seen in a later one. The threads that have been joined are still in
the list but take no step, the histories go on until a thread is created, and the parser
keeps `depth` and `curr_stanza` until a client is accepted and the first stanza starts.
-/

namespace Stabber.Restarts
open StreamTree Server Transition Lifecycle Stopping

section Rel
variable {σ τ σ' τ' α β : Type} {R : σ → τ → Prop} {Q : σ' → τ' → Prop}

theorem rel_map {x : Option σ} {y : Option τ} (h : Option.Rel R x y) {f : σ → σ'} {g : τ → τ'}
    (hfg : ∀ s t, R s t → Q (f s) (g t)) : Option.Rel Q (x.map f) (y.map g) := by
  cases h with
  | none => exact .none
  | some hst => exact .some (hfg _ _ hst)

theorem rel_bind {x : Option σ} {y : Option τ} (h : Option.Rel R x y) {f : σ → Option σ'}
    {g : τ → Option τ'} (hfg : ∀ s t, R s t → Option.Rel Q (f s) (g t)) :
    Option.Rel Q (x.bind f) (y.bind g) := by
  cases h with
  | none => exact .none
  | some hst => exact hfg _ _ hst

theorem rel_guard {b c : Prop} [Decidable b] [Decidable c] (hbc : b ↔ c) {x : Option σ}
    {y : Option τ} (h : c → Option.Rel R x y) :
    Option.Rel R (if b then x else none) (if c then y else none) := by
  by_cases hc : c
  · rw [if_pos hc, if_pos (hbc.mpr hc)]
    exact h hc
  · rw [if_neg hc, if_neg (hc ∘ hbc.mp)]
    exact .none

theorem rel_run {step : σ → α → Option σ} {step' : τ → β → Option τ} {f : β → α}
    (hstep : ∀ s t b, R s t → Option.Rel R (step s (f b)) (step' t b)) {s : σ} {t : τ}
    (h : R s t) (bs : List β) : Option.Rel R (run step s (bs.map f)) (run step' t bs) := by
  induction bs generalizing s t with
  | nil => exact .some h
  | cons b bs ih => exact rel_bind (hstep s t b h) fun _ _ hst => ih hst

/-- The first system does nothing else. -/
theorem rel_run_back {step : σ → α → Option σ} {step' : τ → β → Option τ} {f : β → α}
    (hstep : ∀ s t b, R s t → Option.Rel R (step s (f b)) (step' t b))
    (hback : ∀ s t a s', R s t → step s a = some s' → ∃ b, a = f b) {s s' : σ} {t : τ}
    (h : R s t) {as : List α} (hrun : run step s as = some s') :
    ∃ bs t', as = bs.map f ∧ run step' t bs = some t' ∧ R s' t' := by
  induction as generalizing s t with
  | nil =>
      cases hrun
      exact ⟨[], t, rfl, rfl, h⟩
  | cons a as ih =>
      obtain ⟨u, hu, hrest⟩ := Option.bind_eq_some_iff.mp hrun
      obtain ⟨b, rfl⟩ := hback s t a u h hu
      have hrel := hstep s t b h
      rw [hu] at hrel
      cases hstep' : step' t b with
      | none =>
          rw [hstep'] at hrel
          cases hrel
      | some v =>
          rw [hstep'] at hrel
          cases hrel with
          | some huv =>
              obtain ⟨bs, t', rfl, hbs, ht⟩ := ih huv hrest
              refine ⟨b :: bs, t', rfl, ?_, ht⟩
              rw [run, hstep']
              exact hbs

end Rel

/-- Outside of any element `curr_stanza` is not looked at. -/
structure Agree (p q : TreeParser) : Prop where
  depth : p.depth = q.depth
  curr_stanza : 0 < q.depth → p.curr_stanza = q.curr_stanza

theorem agree_init (p q : TreeParser) : Agree p.init q.init := by
  constructor
  · rfl
  · intro h
    exact (Int.lt_irrefl 0 h).elim

theorem agree_handle {p q : TreeParser} (h : Agree p q) (harrivals : p.arrivals = q.arrivals)
    (e : XmlDocument.Event) :
    (∃ f, p.handle e = .error f ∧ q.handle e = .error f) ∨
    ∃ p' q', p.handle e = .ok p' ∧ q.handle e = .ok q' ∧ Agree p' q' ∧
      p'.arrivals = q'.arrivals := by
  obtain ⟨depth, curr, arrivals⟩ := p
  obtain ⟨depth', curr', arrivals'⟩ := q
  obtain ⟨hdepth, hcurr⟩ := h
  dsimp only at hdepth hcurr harrivals
  subst hdepth harrivals
  by_cases hpos : 0 < depth
  · obtain rfl := hcurr hpos
    cases hresult : TreeParser.handle ⟨depth, curr, arrivals⟩ e with
    | error f => exact Or.inl ⟨f, rfl, rfl⟩
    | ok r => exact Or.inr ⟨r, r, rfl, rfl, ⟨rfl, fun _ => rfl⟩, rfl⟩
  · right
    cases e with
    | start element attributes =>
        refine ⟨_, _, rfl, rfl, ⟨rfl, ?_⟩, rfl⟩
        intro hafter
        -- Only the start at depth zero gets into an element.
        have hzero : depth = 0 := by
          change 0 < depth + 1 at hafter
          omega
        subst hzero
        rfl
    | stop element =>
        have hdeep : ¬ depth - 1 > 1 := by omega
        have hone : ¬ depth - 1 = 1 := by omega
        refine ⟨⟨depth - 1, curr, arrivals⟩, ⟨depth - 1, curr', arrivals⟩, ?_, ?_, ⟨rfl, ?_⟩, rfl⟩
        · simp only [TreeParser.handle, TreeParser.endElement, if_neg hdeep, if_neg hone]
        · simp only [TreeParser.handle, TreeParser.endElement, if_neg hdeep, if_neg hone]
        · intro hafter
          change 0 < depth - 1 at hafter
          omega
    | data text =>
        have hdeep : ¬ depth > 1 := by omega
        refine ⟨⟨depth, curr, arrivals⟩, ⟨depth, curr', arrivals⟩, ?_, ?_, ⟨rfl, ?_⟩, rfl⟩
        · simp only [TreeParser.handle, TreeParser.handleData, if_neg hdeep]
        · simp only [TreeParser.handle, TreeParser.handleData, if_neg hdeep]
        · exact fun hafter => (hpos hafter).elim

/-- What a session does not look at before it has a thread. -/
structure Remains where
  verify_timeout : ℤ
  wire : List (Origin × UInt8)
  entered : List Message
  accepted : List (List UInt8)
  arrived : List Stanza.XMPPStanza
  greeted : Bool
  failed : Bool
  stopped : Bool

def remains (s : State) : Remains :=
  ⟨s.verify_timeout, s.wire, s.entered, s.accepted, s.arrived, s.greeted, s.failed, s.stopped⟩

/-- The same state, with these remains of an earlier session. -/
def leftOver (p : TreeParser) (r : Remains) (s : State) : State :=
  { s with
    parser := p
    verify_timeout := r.verify_timeout
    wire := r.wire
    entered := r.entered
    accepted := r.accepted
    arrived := r.arrived
    greeted := r.greeted
    failed := r.failed
    stopped := r.stopped }

/-- The thread uses the parser. -/
def parses : Pc → Bool
  | .accepting => false
  | .finished => false
  | _ => true

section Server
variable {S : Setting} {s : State} {p : TreeParser} {r : Remains}

/-- A call does the same, and adds the same to the histories. -/
theorem call_leftOver {a : Action} (ha : isCall a = true) :
    Option.Rel (fun s' t' => ∃ r', s' = leftOver p r' t' ∧ t'.parser = s.parser ∧
        (r = remains s → r' = remains t'))
      (Server.step S (leftOver p r s) a) (Server.step S s a) := by
  have hprime : ∀ x : Except Stanza.Fault Priming.Primed, ∃ r',
      (leftOver p r s).primeWith x = leftOver p r' (s.primeWith x) ∧
      (s.primeWith x).parser = s.parser ∧ (r = remains s → r' = remains (s.primeWith x)) := by
    intro x
    cases x with
    | error fault => exact ⟨{ r with stopped := true }, rfl, rfl, fun h => h ▸ rfl⟩
    | ok primed => exact ⟨r, rfl, rfl, fun h => h⟩
  unfold Server.step
  by_cases hcrash : s.pc.isCrashed = true
  · rw [if_pos hcrash, if_pos (c := (leftOver p r s).pc.isCrashed = true) hcrash]
    exact .none
  rw [if_neg hcrash, if_neg (c := (leftOver p r s).pc.isCrashed = true) hcrash]
  cases a with
  | send stream =>
      dsimp only
      by_cases hlock : s.pc.holdsLock = true
      · rw [if_pos hlock, if_pos (c := (leftOver p r s).pc.holdsLock = true) hlock]
        exact .none
      · rw [if_neg hlock, if_neg (c := (leftOver p r s).pc.holdsLock = true) hlock]
        exact .some ⟨{ r with accepted := r.accepted ++ [stream] }, rfl, rfl, fun h => h ▸ rfl⟩
  | forQuery query stream => exact .some (hprime _)
  | forXmlns xmlns stream => exact .some (hprime _)
  | setTimeout seconds =>
      exact .some ⟨{ r with verify_timeout := seconds }, rfl, rfl, fun h => h ▸ rfl⟩
  | requiredPasswd | forId | verifyAny | verifyLast | containsId =>
      exact .some ⟨r, rfl, rfl, fun h => h⟩
  | _ => cases ha

/-- What a step of the thread makes of a state and of the same with another parser. -/
def Alike (s : State) (p : TreeParser) (s' t' : State) : Prop :=
  ∃ p', s' = { t' with parser := p' } ∧ (parses t'.pc = true → Agree p' t'.parser) ∧
    (Agree p s.parser → Agree p' t'.parser)

/-- The parser is left alone. -/
theorem alike_same {s' t : State} (hagree : parses s.pc = true → Agree p s.parser)
    (hs : s' = { t with parser := p }) (ht : t.parser = s.parser)
    (hparses : parses t.pc = true → parses s.pc = true) : Alike s p s' t := by
  refine ⟨p, hs, ?_, ?_⟩
  · rw [ht]
    exact fun h => hagree (hparses h)
  · rw [ht]
    exact fun h => h

theorem accept_alike (hagree : parses s.pc = true → Agree p s.parser) (result : AcceptResult) :
    Option.Rel (Alike s p) (State.accept { s with parser := p } result) (s.accept result) := by
  unfold State.accept
  cases hpc : s.pc with
  | accepting =>
      dsimp only
      by_cases hkill : s.kill_recv = true
      · rw [if_pos hkill, if_pos hkill]
        exact .some (alike_same hagree rfl rfl fun h => Bool.noConfusion h)
      · rw [if_neg hkill, if_neg hkill]
        cases result with
        | connected => exact .some ⟨p.init, rfl, fun _ => agree_init _ _, fun _ => agree_init _ _⟩
        | again =>
            refine .some (alike_same hagree ?_ rfl fun h => h)
            rw [← hpc]
        | failed => exact .some (alike_same hagree rfl rfl fun h => Bool.noConfusion h)
  | _ => exact .none

theorem recv_alike (hagree : parses s.pc = true → Agree p s.parser) (result : RecvResult) :
    Option.Rel (Alike s p) (State.recv { s with parser := p } result) (s.recv result) := by
  unfold State.recv
  cases hpc : s.pc with
  | receiving =>
      have hparses : parses s.pc = true := by
        rw [hpc]
        rfl
      cases result with
      | closed | again | failed => exact .some (alike_same hagree rfl rfl fun _ => hparses)
      | data chunk events =>
          dsimp only
          split_ifs
          · exact .some (alike_same hagree rfl rfl fun _ => hparses)
          · exact .none
  | _ => exact .none

theorem write_alike (hagree : parses s.pc = true → Agree p s.parser)
    (result : WriteStream.WriteResult) :
    Option.Rel (Alike s p) (State.write { s with parser := p } result) (s.write result) := by
  unfold State.write
  cases hwriting : s.writing with
  | none => exact .none
  | some w =>
      dsimp only
      cases w.2.write result with
      | none => exact .none
      | some q => exact .some (alike_same hagree rfl rfl fun h => h)

/-- The parser is left alone by a thread that has used it before. -/
theorem Agree.alike {s' t : State} (h : Agree p s.parser) (hs : s' = { t with parser := p })
    (ht : t.parser = s.parser) : Alike s p s' t := by
  have hp : Agree p t.parser := by
    rw [ht]
    exact h
  exact ⟨p, hs, fun _ => hp, fun _ => hp⟩

/-- No callback uses the parser. -/
theorem call_beside (chunk : List UInt8) (events : List XmlDocument.Event)
    (calls : List (StreamParser.Call Stanza.XMPPStanza))
    (c : StreamParser.Call Stanza.XMPPStanza) :
    State.call S { s with parser := p } chunk events calls c =
      { s.call S chunk events calls c with parser := p } := by
  obtain ⟨_, _, _, client, _, _, _, _, _, _, _, _, _, _, _, _, _, _⟩ := s
  cases client with
  | none => rfl
  | some client =>
      unfold State.call
      dsimp only [State.context]
      split
      · rfl
      · cases c with
        | _ => rfl

theorem parser_of_call (chunk : List UInt8) (events : List XmlDocument.Event)
    (calls : List (StreamParser.Call Stanza.XMPPStanza))
    (c : StreamParser.Call Stanza.XMPPStanza) :
    (s.call S chunk events calls c).parser = s.parser := by
  have hsame := congrArg State.parser
    (call_beside (S := S) (s := s) (p := s.parser) chunk events calls c)
  exact hsame

theorem event_alike (hagree : Agree p s.parser) (chunk : List UInt8)
    (events : List XmlDocument.Event) (e : XmlDocument.Event) :
    Alike s p (State.event { s with parser := p } chunk events e) (s.event chunk events e) := by
  have hcleared : Agree { p with arrivals := [] } { s.parser with arrivals := [] } :=
    ⟨hagree.depth, hagree.curr_stanza⟩
  unfold State.event
  dsimp only
  rcases agree_handle hcleared rfl e with ⟨f, hp, hq⟩ | ⟨p', q', hp, hq, hafter, harrivals⟩
  · rw [hp, hq]
    exact hagree.alike rfl rfl
  · rw [hp, hq]
    dsimp only
    rw [harrivals]
    exact ⟨p', rfl, fun _ => hafter, fun _ => hafter⟩

theorem thread_alike (hagree : parses s.pc = true → Agree p s.parser) :
    Option.Rel (Alike s p) (State.thread S { s with parser := p }) (s.thread S) := by
  obtain ⟨pc, writing, _, _, kill_recv, _, _, _, _, _, _, _, _, _, _, _, _, _⟩ := s
  cases writing with
  | some w =>
      dsimp only [State.thread]
      split_ifs
      · exact .some (alike_same hagree rfl rfl fun h => h)
      · exact .none
  | none =>
      cases pc with
      | accepting | receiving | finished | crashed => exact .none
      | top =>
          cases kill_recv with
          | true | false => exact .some ((hagree rfl).alike rfl rfl)
      | draining rest =>
          cases rest with
          | nil | cons => exact .some ((hagree rfl).alike rfl rfl)
      | feeding chunk events calls replies =>
          cases replies with
          | cons => exact .some ((hagree rfl).alike rfl rfl)
          | nil =>
              cases calls with
              | cons c calls =>
                  exact .some ((hagree rfl).alike (call_beside chunk events calls c)
                    (parser_of_call chunk events calls c))
              | nil =>
                  cases events with
                  | cons e events => exact .some (event_alike (hagree rfl) chunk events e)
                  | nil =>
                      refine .some ?_
                      unfold State.endChunk
                      dsimp only
                      split_ifs
                      · exact (hagree rfl).alike rfl rfl
                      · exact (hagree rfl).alike rfl rfl
      | ending => exact .some ((hagree rfl).alike rfl rfl)

/-- A step of the thread is the same whatever the parser was before a client was accepted. -/
theorem step_alike {a : Action} (ha : isThreadStep a = true)
    (hagree : parses s.pc = true → Agree p s.parser) :
    Option.Rel (Alike s p) (Server.step S { s with parser := p } a) (Server.step S s a) := by
  unfold Server.step
  dsimp only
  by_cases hcrash : s.pc.isCrashed = true
  · rw [if_pos hcrash, if_pos hcrash]
    exact .none
  rw [if_neg hcrash, if_neg hcrash]
  cases a with
  | accept result => exact accept_alike hagree result
  | recv result => exact recv_alike hagree result
  | write result => exact write_alike hagree result
  | thread => exact thread_alike hagree
  | _ => cases ha

end Server

/-! ## The process -/

/-- The threads of the new session come after those of the old ones. -/
def shift (n : ℕ) : Act → Act
  | .thread i a => .thread (n + i) a
  | a => a

/-- The process as it is after earlier sessions. -/
def resume (old : List Thread) (p : TreeParser) (r : Remains) (v : World) : World :=
  { v with shared := leftOver p r v.shared, threads := old ++ v.threads }

/-- What remains is not in use any more. -/
structure Unused (p : TreeParser) (r : Remains) (v : World) : Prop where
  remains : v.threads ≠ [] → r = remains v.shared
  parser : (∃ t ∈ v.threads, parses t.pc = true) → Agree p v.shared.parser
  created : v.server_thread_started = true → v.threads ≠ []

/-- The process has had other sessions, and is the same but for their threads, a parser that
no thread uses, and the timeout and the histories as long as there is no thread. -/
def Resumed (old : List Thread) (w v : World) : Prop :=
  ∃ p r, w = resume old p r v ∧ Unused p r v

section Process
variable {S : Setting} {old : List Thread} {p : TreeParser} {r : Remains} {v : World}

theorem locked_resume (hold : ∀ t ∈ old, isFinished t.pc = true) :
    (resume old p r v).locked = v.locked := by
  have hnone : old.any (fun t => t.pc.holdsLock) = false := by
    rw [List.any_eq_false]
    intro t ht
    have hpc := hold t ht
    cases hcase : t.pc with
    | finished => exact Bool.false_ne_true
    | _ =>
        rw [hcase] at hpc
        cases hpc
  change (old ++ v.threads).any (fun t => t.pc.holdsLock) = _
  rw [List.any_append, hnone, Bool.false_or]
  rfl

theorem call_resumed (hold : ∀ t ∈ old, isFinished t.pc = true) (h : Unused p r v) (a : Action) :
    Option.Rel (Resumed old) ((resume old p r v).call S a) (v.call S a) := by
  unfold World.call
  rw [locked_resume hold]
  by_cases hguard : isCall a = true ∧ (takesLock a = true → v.locked = false)
  · rw [if_pos hguard, if_pos hguard]
    have hcall := call_leftOver (S := S) (s := v.shared) (p := p) (r := r) hguard.1
    refine rel_map hcall ?_
    rintro _ t ⟨r', rfl, hparser, hremains⟩
    refine ⟨p, r', rfl, fun hthreads => hremains (h.remains hthreads), ?_, h.created⟩
    intro hparses
    change Agree p t.parser
    rw [hparser]
    exact h.parser hparses
  · rw [if_neg hguard, if_neg hguard]
    exact .none

theorem threads_set (i : ℕ) (t : Thread) :
    (resume old p r v).threads.set (old.length + i) t = old ++ v.threads.set i t := by
  change (old ++ v.threads).set _ _ = _
  rw [List.set_append_right _ _ (Nat.le_add_right _ _), Nat.add_sub_cancel_left]

theorem threadStep_resumed (hold : ∀ t ∈ old, isFinished t.pc = true) (h : Unused p r v) (i : ℕ)
    (a : Action) : Option.Rel (Resumed old) ((resume old p r v).threadStep S (old.length + i) a)
      (v.threadStep S i a) := by
  have hthread : (resume old p r v).threads[old.length + i]? = v.threads[i]? := by
    change (old ++ v.threads)[old.length + i]? = _
    rw [List.getElem?_append_right (Nat.le_add_right _ _), Nat.add_sub_cancel_left]
  unfold World.threadStep
  rw [hthread, locked_resume hold]
  cases ht : v.threads[i]? with
  | none => exact .none
  | some t =>
      have hmem := List.mem_of_getElem? ht
      obtain rfl := h.remains (List.ne_nil_of_mem hmem)
      dsimp only
      by_cases hguard : isThreadStep a = false ∨ isFinished t.pc = true ∨
          (t.wantsLock = true ∧ v.locked = true)
      · rw [if_pos hguard, if_pos hguard]
        exact .none
      rw [if_neg hguard, if_neg hguard]
      have hstep : isThreadStep a = true := by
        rw [not_or, Bool.not_eq_false] at hguard
        exact hguard.1
      have hview : (resume old p (remains v.shared) v).view t = { v.view t with parser := p } := rfl
      have halike := step_alike (S := S) (s := v.view t) (p := p) hstep
        fun hparses => h.parser ⟨t, hmem, hparses⟩
      rw [hview]
      refine rel_map halike ?_
      rintro _ s ⟨p', rfl, hafter, hkept⟩
      dsimp only
      by_cases hcrash : t.inSession = true ∧ v.shared.client = none
      · rw [if_pos hcrash]
        change Resumed old (if t.inSession = true ∧ v.shared.client = none then _ else _) _
        rw [if_pos hcrash]
        exact ⟨p, remains v.shared, rfl, fun _ => rfl, h.parser, h.created⟩
      · rw [if_neg hcrash]
        change Resumed old (if t.inSession = true ∧ v.shared.client = none then _ else _) _
        rw [if_neg hcrash]
        refine ⟨p', remains s, ?_, fun _ => rfl, ?_, ?_⟩
        · rw [threads_set]
          rfl
        · rintro ⟨u, hu, hparses⟩
          rcases List.mem_or_eq_of_mem_set hu with hu | rfl
          · exact hkept (h.parser ⟨u, hu, hparses⟩)
          · exact hafter hparses
        · intro hcreated hnil
          exact h.created hcreated ((List.set_eq_nil_iff _ _).mp hnil)

variable (old)

theorem createSocket_resume (os : Outcomes) (port : ℤ) :
    (resume old p r v).createSocket os port =
      (resume old p r (v.createSocket os port).1, (v.createSocket os port).2) := by
  unfold World.createSocket
  change (if v.listen_socket < 0 then _ else _) = _
  dsimp only
  split_ifs
  all_goals rfl

theorem startFailed_resumed (h : Unused p r v) (requested port : ℤ) :
    Resumed old ((resume old p r v).startFailed requested port) (v.startFailed requested port) := by
  refine ⟨p, { r with stopped := true }, rfl, ?_, h.parser, h.created⟩
  intro hthreads
  rw [h.remains hthreads]
  rfl

theorem started_resumed (h : Unused p r v) (requested port : ℤ) :
    Resumed old ((resume old p r v).started requested port) (v.started requested port) :=
  ⟨p, r, rfl, h.remains, h.parser, h.created⟩

/-- The histories begin anew with the thread. -/
theorem spawn_resume (htimeout : r.verify_timeout = v.shared.verify_timeout) :
    (resume old p r v).spawn = resume old p (remains v.spawn.shared) v.spawn := by
  obtain ⟨timeout, _, _, _, _, _, _, _⟩ := r
  dsimp only at htimeout
  subst htimeout
  simp only [World.spawn, resume, leftOver, remains, List.append_assoc]

theorem unused_spawn (h : Unused p r v) : Unused p (remains v.spawn.shared) v.spawn := by
  refine ⟨fun _ => rfl, ?_, fun _ hnil => ?_⟩
  · rintro ⟨t, ht, hparses⟩
    change t ∈ v.threads ++ [Thread.new] at ht
    rcases List.mem_append.mp ht with ht | ht
    · exact h.parser ⟨t, ht, hparses⟩
    · rw [List.mem_singleton.mp ht] at hparses
      cases hparses
  · exact List.append_ne_nil_of_right_ne_nil _ (List.cons_ne_nil _ _) hnil

theorem serverRun_resumed (h : Unused p r v) (os : Outcomes) (requested httpport : ℤ) :
    Resumed old ((resume old p r v).serverRun os requested httpport)
      (v.serverRun os requested httpport) := by
  obtain ⟨fd, sockets, hsame⟩ := createSocket_changes v.reset os requested
  have hcreate := createSocket_resume old (p := p) (r := { r with verify_timeout := 10 })
    (v := v.reset) os requested
  have hreset : (resume old p r v).reset =
      resume old p { r with verify_timeout := 10 } v.reset := rfl
  unfold World.serverRun
  rw [hreset, hcreate]
  rcases hresult : v.reset.createSocket os requested with ⟨x, port, ok⟩
  rw [hresult] at hsame
  change x = _ at hsame
  have hx : ∀ primed, Unused p { r with verify_timeout := 10 }
      { x with shared := { x.shared with primed := primed } } := by
    intro primed
    rw [hsame]
    refine ⟨fun hthreads => ?_, h.parser, h.created⟩
    rw [h.remains hthreads]
    rfl
  cases ok with
  | false => exact startFailed_resumed old (hx x.shared.primed) requested port
  | true =>
      have hprimed := hx (Priming.primeInit x.shared.primed)
      have htimeout : (10 : ℤ) = x.shared.verify_timeout := by
        rw [hsame]
        rfl
      dsimp only
      by_cases hthread : os.pthread_create = false
      · rw [if_pos hthread, if_pos hthread]
        exact startFailed_resumed old hprimed requested port
      rw [if_neg hthread, if_neg hthread]
      have hspawn := spawn_resume old (p := p) (r := { r with verify_timeout := 10 })
        (v := { x with shared := { x.shared with primed := Priming.primeInit x.shared.primed } })
        htimeout
      have hunused := unused_spawn hprimed
      by_cases hhttp : 0 < httpport
      · rw [if_pos hhttp, if_pos hhttp]
        refine ⟨p, _, ?_, hunused.remains, hunused.parser, hunused.created⟩
        change { World.spawn (resume old p { r with verify_timeout := 10 } { x with
          shared := { x.shared with primed := Priming.primeInit x.shared.primed } }) with
          caller := Caller.httpStarting requested port } = _
        rw [hspawn]
        rfl
      · rw [if_neg hhttp, if_neg hhttp]
        change Resumed old (World.started (World.spawn (resume old p { r with verify_timeout := 10 }
          { x with shared := { x.shared with primed := Priming.primeInit x.shared.primed } }))
          requested port) _
        rw [hspawn]
        exact started_resumed old hunused requested port

theorem httpStarted_resumed (h : Unused p r v) (daemon : Bool) (requested port : ℤ) :
    Resumed old ((resume old p r v).httpStarted daemon requested port)
      (v.httpStarted daemon requested port) := by
  unfold World.httpStarted
  cases daemon with
  | true =>
      refine ⟨p, r, rfl, ?_, h.parser, h.created⟩
      intro hthreads
      rw [h.remains hthreads]
      rfl
  | false =>
      refine ⟨p, { r with stopped := true }, rfl, ?_, h.parser, h.created⟩
      intro hthreads
      rw [h.remains hthreads]
      rfl

/-- The last thread is one of the new session. -/
theorem joinThread_resume (h : Unused p r v) :
    (resume old p r v).joinThread = resume old p r v.joinThread := by
  unfold World.joinThread
  change (if v.server_thread_started = true then _ else _) = _
  split_ifs with hstarted
  · have hthreads := h.created hstarted
    have hlast : (old ++ v.threads).getLast? = v.threads.getLast? :=
      List.getLast?_append_of_ne_nil _ hthreads
    have hfront : (old ++ v.threads).dropLast = old ++ v.threads.dropLast :=
      List.dropLast_append_of_ne_nil hthreads
    simp only [resume, hlast, hfront, List.append_assoc]
  · rfl

theorem unused_joinThread (h : Unused p r v) : Unused p r v.joinThread := by
  unfold World.joinThread
  split_ifs with hstarted
  · obtain ⟨front, last, hthreads⟩ :=
      (List.eq_nil_or_concat' v.threads).resolve_left (h.created hstarted)
    have hall : (v.threads.dropLast ++
        (v.threads.getLast?.map fun t => { t with joined := true }).toList) =
        front ++ [{ last with joined := true }] := by
      rw [hthreads]
      simp
    rw [hall]
    refine ⟨fun _ => h.remains (h.created hstarted), ?_, fun hno => (Bool.false_ne_true hno).elim⟩
    rintro ⟨t, ht, hparses⟩
    apply h.parser
    rcases List.mem_append.mp ht with ht | ht
    · exact ⟨t, hthreads ▸ List.mem_append_left _ ht, hparses⟩
    · rw [List.mem_singleton.mp ht] at hparses
      exact ⟨last, hthreads ▸ List.mem_append_right _ List.mem_cons_self, hparses⟩
  · exact h

theorem stopped_resumed (h : Unused p r v) :
    Resumed old (resume old p r v).stopped v.stopped := by
  have hjoined := unused_joinThread h
  have hclose : (resume old p r v.joinThread).closeSocket =
      resume old p r v.joinThread.closeSocket := by
    unfold World.closeSocket
    change (if 0 < v.joinThread.listen_socket then _ else _) = _
    split_ifs
    all_goals rfl
  have hunused : Unused p r v.joinThread.closeSocket := by
    unfold World.closeSocket
    split_ifs
    all_goals exact ⟨hjoined.remains, hjoined.parser, hjoined.created⟩
  unfold World.stopped
  rw [joinThread_resume old h]
  dsimp only
  rw [hclose]
  refine ⟨p, { r with stopped := true }, rfl, ?_, hunused.parser, hunused.created⟩
  intro hthreads
  rw [hunused.remains hthreads]
  rfl

theorem lastFinished_resume (h : Unused p r v) (hstarted : v.server_thread_started = true) :
    lastFinished (resume old p r v) = lastFinished v := by
  have hlast : (old ++ v.threads).getLast? = v.threads.getLast? :=
    List.getLast?_append_of_ne_nil _ (h.created hstarted)
  exact congrArg (fun t : Option Thread => t.any fun t => isFinished t.pc) hlast

variable {old}

theorem step_resumed (hold : ∀ t ∈ old, isFinished t.pc = true) {w v : World}
    (h : Resumed old w v) (a : Act) :
    Option.Rel (Resumed old) (Lifecycle.step S w (shift old.length a)) (Lifecycle.step S v a) := by
  obtain ⟨p, r, rfl, h⟩ := h
  have hnew : Unused p r { v with returned := none } := ⟨h.remains, h.parser, h.created⟩
  have hlocked := locked_resume (p := p) (r := r) (v := { v with returned := none }) hold
  obtain ⟨shared, threads, started, socket, sockets, daemon, lost, running, port, caller, returned,
    crashed⟩ := v
  unfold Lifecycle.step
  cases crashed with
  | true => exact .none
  | false =>
      cases a with
      | call a =>
          cases caller with
          | idle => exact call_resumed hold hnew a
          | _ => exact .none
      | request a =>
          have hcall := call_resumed (S := S) hold hnew a
          cases caller with
          | _ =>
              change Option.Rel _ (if daemon = true ∨ 0 < lost then World.call _ S a else none)
                (if daemon = true ∨ 0 < lost then World.call _ S a else none)
              exact rel_guard Iff.rfl fun _ => hcall
      | thread i a =>
          have hthread := threadStep_resumed (S := S) hold hnew i a
          cases caller with
          | _ => exact hthread
      | start port httpport =>
          cases caller with
          | idle =>
              cases running with
              | true => exact .some ⟨p, r, rfl, h.remains, h.parser, h.created⟩
              | false =>
                  refine .some ⟨p, r, rfl, ?_, h.parser, h.created⟩
                  intro hthreads
                  rw [h.remains hthreads]
                  rfl
          | _ => exact .none
      | run os =>
          cases caller with
          | starting port httpport =>
              have hrun := serverRun_resumed old hnew os port httpport
              dsimp only at hlocked
              change Option.Rel _
                (if World.locked _ = false ∧ possible _ os = true then some _ else none)
                (if World.locked _ = false ∧ possible _ os = true then some _ else none)
              refine rel_guard ?_ fun _ => .some hrun
              exact and_congr (Eq.congr_left hlocked) Iff.rfl
          | _ => exact .none
      | httpStarted daemon =>
          cases caller with
          | httpStarting requested port =>
              have hstarted := httpStarted_resumed old hnew daemon requested port
              change Option.Rel _ (if World.locked _ = false then some _ else none)
                (if World.locked _ = false then some _ else none)
              refine rel_guard ?_ fun _ => .some hstarted
              exact Eq.congr_left hlocked
          | _ => exact .none
      | stop =>
          cases caller with
          | idle =>
              change Option.Rel _ (if shared.kill_recv = true then some _ else some _)
                (if shared.kill_recv = true then some _ else some _)
              split_ifs
              · exact .some ⟨p, r, rfl, h.remains, h.parser, h.created⟩
              · refine .some ⟨p, r, rfl, ?_, h.parser, h.created⟩
                intro hthreads
                rw [h.remains hthreads]
                rfl
          | _ => exact .none
      | joined =>
          cases caller with
          | joining =>
              have hstopped := stopped_resumed old hnew
              have hlast := lastFinished_resume old hnew
              change Option.Rel _
                (if World.locked _ = false ∧ (started = true → lastFinished _ = true) then some _
                  else none)
                (if World.locked _ = false ∧ (started = true → lastFinished _ = true) then some _
                  else none)
              refine rel_guard ?_ fun _ => .some hstopped
              exact and_congr (Eq.congr_left hlocked)
                (imp_congr_right fun hstarted => Eq.congr_left (hlast hstarted))
          | _ => exact .none

theorem threadStep_finished {w : World} {i : ℕ} {t : Thread} {a : Action}
    (ht : w.threads[i]? = some t) (hfinished : isFinished t.pc = true) :
    w.threadStep S i a = none := by
  unfold World.threadStep
  rw [ht]
  exact if_pos (Or.inr (Or.inl hfinished))

/-- The old threads take no step any more. -/
theorem shift_of_step (hold : ∀ t ∈ old, isFinished t.pc = true) {w v w' : World}
    (h : Resumed old w v) {a : Act} (hstep : Lifecycle.step S w a = some w') :
    ∃ b, a = shift old.length b := by
  obtain ⟨p, r, rfl, h⟩ := h
  cases step_turn hstep with
  | thread i a hthread =>
      by_cases hi : i < old.length
      · exfalso
        have ht : (old ++ v.threads)[i]? = some old[i] := by
          rw [List.getElem?_append_left hi, List.getElem?_eq_getElem hi]
        have hfinished := hold old[i] (List.getElem_mem hi)
        have hnone := threadStep_finished (S := S) (a := a)
          (w := { resume old p r v with returned := none }) ht hfinished
        rw [hnone] at hthread
        cases hthread
      · exact ⟨.thread (i - old.length) a, by rw [shift, Nat.add_sub_cancel' (by omega)]⟩
  | call a => exact ⟨.call a, rfl⟩
  | request a => exact ⟨.request a, rfl⟩
  | startAgain port httpport => exact ⟨.start port httpport, rfl⟩
  | start port httpport => exact ⟨.start port httpport, rfl⟩
  | run os => exact ⟨.run os, rfl⟩
  | httpStarted daemon => exact ⟨.httpStarted daemon, rfl⟩
  | stopAgain | stop => exact ⟨.stop, rfl⟩
  | joined => exact ⟨.joined, rfl⟩

end Process

/-- The fields of a thread are not used. -/
structure Threadless (s : State) : Prop where
  pc : s.pc = .finished
  writing : s.writing = none
  stream : s.stream = []

theorem threadless_threadless (s : State) : Threadless (World.threadless s) := ⟨rfl, rfl, rfl⟩

theorem threadless_step {S : Setting} {w v : World} {a : Act} (h : Threadless w.shared)
    (hstep : Lifecycle.step S w a = some v) : Threadless v.shared := by
  cases step_turn hstep with
  | call a hcall | request a hcall =>
      unfold World.call at hcall
      split_ifs at hcall
      obtain ⟨s, -, rfl⟩ := Option.map_eq_some_iff.mp hcall
      exact threadless_threadless s
  | thread i a hthread =>
      rcases threadStep_changes hthread with rfl | ⟨_, s, -, -, -, rfl⟩
      · exact h
      · exact threadless_threadless s
  | @run os port httpport hcaller hpossible =>
      rcases serverRun_cases { w with returned := none } os port httpport with
        ⟨_, _, _, _, heq⟩ | ⟨u, _, hcreated, -, heq⟩
      · rw [heq]
        exact ⟨rfl, h.writing, h.stream⟩
      · obtain ⟨fd, sockets, hsame⟩ :=
          createSocket_changes (World.reset { w with returned := none }) os port
        rw [hcreated] at hsame
        change u = _ at hsame
        rw [heq, hsame]
        split_ifs
        · exact ⟨h.pc, h.writing, h.stream⟩
        · exact ⟨h.pc, h.writing, h.stream⟩
  | httpStarted daemon hcaller =>
      cases daemon with
      | true => exact ⟨h.pc, h.writing, h.stream⟩
      | false => exact ⟨rfl, h.writing, h.stream⟩
  | joined =>
      unfold World.stopped World.closeSocket
      obtain ⟨threads, started, hjoin⟩ := joinThread_eq { w with returned := none }
      rw [hjoin]
      split_ifs
      · exact ⟨rfl, h.writing, h.stream⟩
      · exact ⟨rfl, h.writing, h.stream⟩
  | startAgain | start | stopAgain | stop => exact ⟨h.pc, h.writing, h.stream⟩

/-- The caller is not in a call any more. -/
theorem idle_of_stop {S : Setting} {w v : World} {a : Act}
    (hstep : Lifecycle.step S w a = some v) (hstop : v.returned = some .stop) :
    v.caller = .idle ∧ v.stbbr_running = false ∧ v.stbbr_port = 0 ∧ v.crashed = false := by
  have hcrash : w.crashed = false := by
    by_contra hyes
    rw [crashed_stuck (Bool.not_eq_false _ ▸ hyes)] at hstep
    cases hstep
  have hturn := step_turn hstep
  rcases stop_of_returned rfl hturn hstop with rfl | rfl
  · cases hturn with
    | stopAgain => exact ⟨rfl, rfl, rfl, hcrash⟩
    | stop => cases hstop
  · cases hturn with
    | joined =>
        refine ⟨rfl, rfl, rfl, ?_⟩
        obtain ⟨threads, started, hjoin⟩ := joinThread_eq { w with returned := none }
        unfold World.stopped World.closeSocket
        rw [hjoin]
        split_ifs
        · exact hcrash
        · exact hcrash

/-- As it has begun, but for the call that has just returned. -/
def anew : World := { World.init with returned := some .stop }

theorem resumed_of_stopped {w : World} (h : Stopped w) (hshared : Threadless w.shared)
    (hstop : w.returned = some .stop) (hidle : w.caller = .idle ∧ w.stbbr_running = false ∧
      w.stbbr_port = 0 ∧ w.crashed = false) : Resumed w.threads w anew := by
  have hserver : w.shared = leftOver w.shared.parser (remains w.shared) World.init.shared := by
    obtain ⟨hthreads, -, -, -, hrun, -, hclient, hkill, hprimed, hstore, hqueue⟩ := h
    obtain ⟨shared, _, _, _, _, _, _, _, _, _, _, _⟩ := w
    obtain ⟨_, _, _, _, _, _, _, _, _, _, _, _, _, _, _, _, _, _⟩ := shared
    obtain ⟨hpc, hwriting, hstream⟩ := hshared
    dsimp only at hrun hclient hkill hprimed hstore hqueue hpc hwriting hstream
    subst hrun hclient hkill hprimed hstore hqueue hpc hwriting hstream
    rfl
  refine ⟨w.shared.parser, remains w.shared, ?_, fun hno => (hno rfl).elim, ?_, nofun⟩
  · obtain ⟨hcaller, hrunning, hport, hcrash⟩ := hidle
    obtain ⟨-, hstarted, hsocket, hsockets, -, ⟨hdaemon, hlost⟩, -⟩ := h
    have hnone := funext hsockets
    have hthreads : w.threads ++ anew.threads = w.threads := List.append_nil _
    change w = { anew with
      shared := leftOver w.shared.parser (remains w.shared) World.init.shared
      threads := w.threads ++ anew.threads }
    rw [← hserver, hthreads]
    obtain ⟨_, _, _, _, _, _, _, _, _, _, _, _⟩ := w
    dsimp only at hcaller hrunning hport hcrash hstarted hsocket hnone hdaemon hlost hstop
    subst hcaller hrunning hport hcrash hstarted hsocket hnone hdaemon hlost hstop
    rfl
  · rintro ⟨t, ht, -⟩
    cases ht

/-- What a stop leaves in an orderly run. -/
theorem stopped_and_idle {S : Setting} {as : List Act} {w : World}
    (h : Runs (Lifecycle.step S) Orderly World.init as w) (hstop : w.returned = some .stop) :
    Stopped w ∧ Resumed w.threads w anew := by
  have hkept : Kept w ∧ Threadless w.shared ∧ (w.returned = some .stop → Stopped w ∧
      w.caller = .idle ∧ w.stbbr_running = false ∧ w.stbbr_port = 0 ∧ w.crashed = false) := by
    refine h.invariant (I := fun w => Kept w ∧ Threadless w.shared ∧
      (w.returned = some .stop → Stopped w ∧ w.caller = .idle ∧ w.stbbr_running = false ∧
        w.stbbr_port = 0 ∧ w.crashed = false)) ⟨kept_init, threadless_threadless _, nofun⟩ ?_
    intro u a v hu hok hstep
    obtain ⟨hv, hstopped⟩ := kept_step hu.1 hok hstep
    exact ⟨hv, threadless_step hu.2.1 hstep, fun hv => ⟨hstopped hv, idle_of_stop hstep hv⟩⟩
  obtain ⟨-, hshared, hreturned⟩ := hkept
  obtain ⟨hstopped, hidle⟩ := hreturned hstop
  exact ⟨hstopped, resumed_of_stopped hstopped hshared hstop hidle⟩

/-- After a stop of an orderly run, whatever has been done in it, the process can do exactly
what a new one can, and every step has the same result: the later sessions read, write, keep
and return the same, in any order of any steps. -/
theorem sessions_isolated {S : Setting} {as : List Act} {w : World}
    (h : Runs (Lifecycle.step S) Orderly World.init as w) (hstop : w.returned = some .stop) :
    (∀ bs : List Act, Option.Rel (Resumed w.threads)
      (run (Lifecycle.step S) w (bs.map (shift w.threads.length)))
      (run (Lifecycle.step S) anew bs)) ∧
    ∀ cs v, run (Lifecycle.step S) w cs = some v → ∃ bs v', cs = bs.map (shift w.threads.length) ∧
      run (Lifecycle.step S) anew bs = some v' ∧ Resumed w.threads v v' := by
  obtain ⟨hstopped, hresumed⟩ := stopped_and_idle h hstop
  have hold : ∀ t ∈ w.threads, isFinished t.pc = true := fun t ht => (hstopped.threads t ht).2
  constructor
  · exact rel_run (fun _ _ a hu => step_resumed hold hu a) hresumed
  · intro cs v hcs
    exact rel_run_back (fun _ _ a hu => step_resumed hold hu a)
      (fun _ _ _ _ hu hstep => shift_of_step hold hu hstep) hresumed hcs

theorem isolated_visited : ∃ w v, run (Lifecycle.step .plain) World.init visited = some w ∧
    run (Lifecycle.step .plain) w (visited.map (shift w.threads.length)) = some v := by
  have hchecked : ((run (fun w a => if decide (Orderly w a) then Lifecycle.step Setting.plain w a
      else none) World.init visited).any fun w => w.returned = some .stop) = true := by
    decide +kernel
  obtain ⟨w, hrun, hstop⟩ := (Option.any_eq_true _ _).mp hchecked
  have hruns := runs_of_checked (fun _ _ hok => of_decide_eq_true hok) hrun
  have hsame := (sessions_isolated hruns (of_decide_eq_true hstop)).1 visited
  have hnew : (run (Lifecycle.step Setting.plain) anew visited).isSome = true := by decide +kernel
  obtain ⟨v', hv'⟩ := Option.isSome_iff_exists.mp hnew
  rw [hv'] at hsame
  cases hagain : run (Lifecycle.step .plain) w (visited.map (shift w.threads.length)) with
  | none =>
      rw [hagain] at hsame
      cases hsame
  | some v => exact ⟨w, v, hruns.to_run, hagain⟩

end Stabber.Restarts
