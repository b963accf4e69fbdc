import Stabber.Sessions

/-!
# The thread handles its session

Each step of the thread leaves the session as it is and only gets on with it; what a
session is told are the chunks and the calls that change what the callbacks read.
-/

namespace Stabber.Sessions
open XmlDocument Stanza StanzaParse Stanzas StanzaHistory StreamParser StreamTree Priming
open Callbacks Utf8 ReadStream WriteStream Transition Server State

section Steps
variable {S : Setting} {s t : State} {x : Session} {y : Except Fault Session} {a : Action}

/-! ## Calls of the other threads -/

/-- Nothing that a session knows of has changed. -/
structure SameSession (s t : State) : Prop where
  pc : t.pc = s.pc
  entered : t.entered = s.entered
  primed : t.primed = s.primed
  received_stanzas : t.received_stanzas = s.received_stanzas
  parser : t.parser = s.parser
  client : t.client = s.client
  stream : t.stream = s.stream
  stopped : t.stopped = s.stopped
  kill_recv : s.kill_recv = true → t.kill_recv = true

theorem SameSession.replied (h : SameSession s t) : replied t = replied s := by
  unfold Sessions.replied
  rw [h.entered]

theorem Agrees.same {waiting : List Str} (h : Agrees s x waiting) (hsame : SameSession s t) :
    Agrees t x waiting := by
  constructor
  · rw [hsame.replied]
    exact h.replies
  · rw [hsame.primed]
    exact h.primed
  · rw [hsame.received_stanzas]
    exact h.received_stanzas

theorem Serves.same {waiting : List Str} (h : Serves s x waiting) (hsame : SameSession s t) :
    Serves t x waiting := by
  constructor
  · exact h.toAgrees.same hsame
  · rw [hsame.parser]
    exact h.parser
  · rw [hsame.client]
    exact h.client
  · rw [hsame.stream]
    exact h.stream
  · intro hended
    rw [hsame.pc]
    exact (h.ended hended).imp_right fun htop => ⟨htop.1, hsame.kill_recv htop.2⟩

theorem Follows.same (h : Follows S y s) (hsame : SameSession s t) : Follows S y t := by
  cases h with
  | accepting x hpc hy hagrees hnew =>
      refine .accepting x (hsame.pc.trans hpc) hy (hagrees.same hsame) ?_
      rw [hsame.parser]
      exact hnew
  | serving x hpc hy hserves =>
      refine .serving x ?_ hy (hserves.same hsame)
      rw [hsame.pc]
      exact hpc
  | handling x chunk events calls waiting hpc hy hserves =>
      exact .handling x chunk events calls waiting (hsame.pc.trans hpc) hy (hserves.same hsame)
  | finished x hpc hy hreplies hended hagrees =>
      refine .finished x (hsame.pc.trans hpc) hy ?_ (fun h => hsame.kill_recv (hended h)) ?_
      · rw [hsame.replied]
        exact hreplies
      · intro hstopped
        rw [hsame.stopped] at hstopped
        exact (hagrees hstopped).same hsame
  | crashed fault hpc hy => exact .crashed fault (hsame.pc.trans hpc) hy

/-- The tables or the store have changed, for the server and for its session. -/
theorem Follows.changed {f : Primed → Primed} {g : List XMPPStanza → List XMPPStanza}
    (h : Follows S y s) (hpc : isHandling s.pc = false) (hcrash : s.pc ≠ .crashed)
    {y' : Except Fault Session}
    (hy' : ∀ x, y = .ok x → y' = .ok { x with
      primed := f x.primed
      received_stanzas := g x.received_stanzas }) :
    Follows S y' { s with
      primed := f s.primed
      received_stanzas := g s.received_stanzas } := by
  have hagree : ∀ {x : Session}, Agrees s x [] →
      Agrees { s with primed := f s.primed, received_stanzas := g s.received_stanzas }
        { x with primed := f x.primed, received_stanzas := g x.received_stanzas } [] := by
    intro x hx
    exact ⟨hx.replies, congrArg f hx.primed, congrArg g hx.received_stanzas⟩
  cases h with
  | accepting x hacc hy hagrees hnew =>
      exact .accepting _ hacc (hy' x hy) (hagree hagrees) hnew
  | serving x hserving hy hserves =>
      exact .serving _ hserving (hy' x hy)
        ⟨hagree hserves.toAgrees, hserves.parser, hserves.client, hserves.stream, hserves.ended⟩
  | handling x chunk events calls waiting hfeeding hy hserves =>
      rw [hfeeding] at hpc
      cases hpc
  | finished x hfin hy hreplies hended hagrees =>
      exact .finished _ hfin (hy' x hy) hreplies hended fun hstopped => hagree (hagrees hstopped)
  | crashed fault hfault hy => exact (hcrash hfault).elim

/-- Before a chunk and after it there is a session. -/
theorem Follows.exists_ok (h : Follows S y s) (hpc : isHandling s.pc = false)
    (hcrash : s.pc ≠ .crashed) : ∃ x, y = .ok x := by
  cases h with
  | accepting x _ hy _ _ => exact ⟨x, hy⟩
  | serving x _ hy _ => exact ⟨x, hy⟩
  | handling x chunk events calls waiting hfeeding hy hserves =>
      rw [hfeeding] at hpc
      cases hpc
  | finished x _ hy _ _ _ => exact ⟨x, hy⟩
  | crashed fault hfault hy => exact (hcrash hfault).elim

/-- Whether a stub can be parsed does not depend on the tables. -/
theorem primed_follows {E : Expat} {text : Str} {set : Primed → Option XMPPStanza → Primed}
    {prime : Primed → Except Fault Primed}
    (hprime : ∀ p, prime p = (stanzaParse E text).map (set p))
    (hact : ∀ x : Session, x.act S (.call a) =
      (prime x.primed).map fun primed => { x with primed := primed })
    (h : Follows S y s) (hpc : isHandling s.pc = false) (hcrash : s.pc ≠ .crashed) :
    Follows S (y.bind fun x => x.act S (.call a)) (s.primeWith (prime s.primed)) := by
  obtain ⟨x, hy⟩ := h.exists_ok hpc hcrash
  cases hparse : stanzaParse E text with
  | error fault =>
      rw [hprime, hparse]
      refine .crashed fault rfl ?_
      rw [hy]
      change x.act S (.call a) = _
      rw [hact, hprime, hparse]
      rfl
  | ok stanza =>
      rw [hprime, hparse]
      refine h.changed (f := fun p => set p stanza) (g := fun store => store) hpc hcrash ?_
      intro x' hx'
      rw [hx']
      change x'.act S (.call a) = _
      rw [hact, hprime, hparse]
      rfl

/-- A call of another thread. -/
theorem follows_call (h : Follows S y s) (hok : Apart s a) (ha : changes a = true)
    (hstep : step S s a = some t) : Follows S (y.bind fun x => x.act S (.call a)) t := by
  have hpc : isHandling s.pc = false := by
    cases hhandling : isHandling s.pc with
    | false => rfl
    | true =>
        have hno := hok hhandling
        rw [ha] at hno
        cases hno
  have hrunning := running_of_step hstep
  have hcrash : s.pc ≠ .crashed := by
    intro hcrashed
    rw [hcrashed] at hrunning
    exact hrunning rfl
  unfold step at hstep
  rw [if_neg hrunning] at hstep
  cases a with
  | requiredPasswd password =>
      cases hstep
      refine h.changed (f := primeRequiredPasswd password) (g := fun store => store) hpc hcrash ?_
      intro x hx
      rw [hx]
      rfl
  | forId id stream =>
      cases hstep
      refine h.changed (f := primeForId id stream) (g := fun store => store) hpc hcrash ?_
      intro x hx
      rw [hx]
      rfl
  | forQuery query stream =>
      cases hstep
      exact primed_follows (fun _ => rfl) (fun _ => rfl) h hpc hcrash
  | forXmlns xmlns stream =>
      cases hstep
      exact primed_follows (fun _ => rfl) (fun _ => rfl) h hpc hcrash
  | verifyAny template clear =>
      cases hstep
      refine h.changed (f := fun p => p)
        (g := fun store => storeAfter store (.verifyAny template clear)) hpc hcrash ?_
      intro x hx
      rw [hx]
      rfl
  | _ => cases ha

/-! ## Steps of the thread -/

/-- A message that waits is given to `write_stream`. -/
theorem Serves.give {m : Str} {waiting : List Str} (h : Serves s x (m :: waiting)) {pc : Pc}
    (hended : x.ended = false) :
    Serves { s.begin .reply (utf8 m) with pc := pc } x waiting := by
  constructor
  · constructor
    · rw [h.replies]
      unfold replied State.begin
      rw [List.filter_append, List.map_append, List.append_assoc]
      rfl
    · exact h.primed
    · exact h.received_stanzas
  · exact h.parser
  · exact h.client
  · exact h.stream
  · intro hend
    rw [hended] at hend
    cases hend

/-- The thread goes on to another place. -/
theorem Serves.moved {waiting : List Str} (h : Serves s x waiting) {pc : Pc}
    (hended : x.ended = false) : Serves { s with pc := pc } x waiting := by
  refine ⟨⟨h.replies, h.primed, h.received_stanzas⟩, h.parser, h.client, h.stream, ?_⟩
  intro hend
  rw [hended] at hend
  cases hend

/-- Once the end has been answered, only the end of the loop is left. -/
theorem Serves.not_ended {waiting : List Str} (h : Serves s x waiting) (hpc : s.pc ≠ .ending)
    (htop : s.pc = .top → s.kill_recv = false) : x.ended = false := by
  cases hended : x.ended with
  | false => rfl
  | true =>
      rcases h.ended hended with hend | ⟨hpc', hkill⟩
      · exact (hpc hend).elim
      · rw [htop hpc'] at hkill
        cases hkill

theorem Serves.context (h : Serves s x []) {client : XMPPClient}
    (hclient : s.client = some client) : s.context S client = x.context S := by
  have hsame : client = x.client := by
    rw [h.client] at hclient
    exact (Option.some.inj hclient).symm
  unfold State.context Session.context
  rw [hsame, h.primed, h.received_stanzas]

/-- One call of the last event. -/
theorem follows_callback {chunk : List UInt8} {events : List Event}
    {calls : List (Call XMPPStanza)} {c : Call XMPPStanza}
    (hpc : s.pc = .feeding chunk events (c :: calls) []) (h : Serves s x [])
    (hy : y = x.rest S chunk events (c :: calls)) :
    Follows S y (s.call S chunk events calls c) := by
  have hcontext := h.context (S := S) h.client
  unfold State.call
  rw [h.client]
  dsimp only
  rw [hcontext]
  cases hcall : callback (x.context S) c with
  | error fault =>
      refine .crashed fault rfl ?_
      rw [hy, Session.rest, Session.calls, Session.call, hcall]
      rfl
  | ok p =>
      obtain ⟨client, messages⟩ := p
      refine .handling { x with
        client := client
        received_stanzas := x.stored c
        replies := x.replies ++ messages } chunk events calls messages rfl ?_ ?_
      · rw [hy, Session.rest, Session.calls, Session.call, hcall]
        rfl
      · have hended := h.not_ended (by simp [hpc]) (by simp [hpc])
        constructor
        · constructor
          · change (x.replies ++ messages).map utf8 = _
            rw [List.map_append, h.replies, List.map_nil, List.append_nil]
            cases c <;> rfl
          · cases c <;> exact h.primed
          · cases c with
            | add stanza =>
                exact congrArg (fun store => storeAfter store (.add stanza)) h.received_stanzas
            | _ => exact h.received_stanzas
        · cases c <;> exact h.parser
        · rfl
        · cases c <;> exact h.stream
        · intro hend
          change x.ended = true at hend
          rw [hended] at hend
          cases hend

/-- One event of the chunk. -/
theorem follows_event {chunk : List UInt8} {events : List Event} {e : Event}
    (hpc : s.pc = .feeding chunk (e :: events) [] []) (h : Serves s x [])
    (hy : y = x.rest S chunk (e :: events) []) : Follows S y (s.event chunk events e) := by
  have hended := h.not_ended (by simp [hpc]) (by simp [hpc])
  have hrest : y = ((x.event S e).bind fun x => deliver (Session.event S) x events).map
      fun x => x.endChunk chunk := hy
  unfold State.event
  rw [h.parser]
  cases hhandle : x.parser.handle e with
  | error fault =>
      refine .crashed fault rfl ?_
      rw [hrest, Session.event, hhandle]
      rfl
  | ok parser =>
      refine .handling { x with parser := { parser with arrivals := [] } } chunk events _ [] rfl
        ?_ ?_
      · rw [hrest, Session.event, hhandle, Session.rest]
        dsimp only
        cases Session.calls S { x with parser := { parser with arrivals := [] } } _ <;> rfl
      · refine ⟨⟨h.replies, h.primed, h.received_stanzas⟩, rfl, h.client, h.stream, ?_⟩
        intro hend
        change x.ended = true at hend
        rw [hended] at hend
        cases hend

/-- The events of the chunk have been handled. -/
theorem follows_endChunk {chunk : List UInt8} (hpc : s.pc = .feeding chunk [] [] [])
    (h : Serves s x []) (hy : y = x.rest S chunk [] []) : Follows S y (s.endChunk chunk) := by
  have hended := h.not_ended (by simp [hpc]) (by simp [hpc])
  have hend : y = .ok (x.endChunk chunk) := hy
  unfold State.endChunk
  unfold Session.endChunk at hend
  dsimp only at hend ⊢
  rw [h.stream]
  split_ifs at hend ⊢
  · refine .serving _ ⟨by simp, rfl, by simp, by simp⟩ hend ?_
    constructor
    · constructor
      · change (x.replies ++ [STREAM_END]).map utf8 = _
        rw [List.map_append, h.replies]
        unfold replied State.begin
        rw [List.filter_append, List.map_append, List.map_nil, List.append_nil, List.append_nil]
        rfl
      · exact h.primed
      · exact h.received_stanzas
    · exact h.parser
    · exact h.client
    · rfl
    · exact fun _ => Or.inl rfl
  · refine .serving _ ⟨by simp, rfl, by simp, by simp⟩ hend ?_
    refine ⟨⟨h.replies, h.primed, h.received_stanzas⟩, h.parser, h.client, rfl, ?_⟩
    intro hended'
    change x.ended = true at hended'
    rw [hended] at hended'
    cases hended'

/-- What a step of the thread leaves as it is. -/
theorem sameSession_write {result : WriteResult} (h : s.write result = some t) :
    SameSession s t := by
  unfold State.write at h
  split at h
  next => cases h
  next origin w hw =>
    obtain ⟨p, _, rfl⟩ := Option.map_eq_some_iff.mp h
    exact ⟨rfl, rfl, rfl, rfl, rfl, rfl, rfl, rfl, fun hkill => hkill⟩

theorem Follows.of_serving (h : Follows S y s) (hs : IsServing s.pc) :
    ∃ x, y = .ok x ∧ Serves s x [] := by
  cases h with
  | serving x _ hy hserves => exact ⟨x, hy, hserves⟩
  | accepting x hacc _ _ _ => exact (hs.1 hacc).elim
  | handling x chunk events calls waiting hfeeding _ _ =>
      have hhandling := hs.2.1
      rw [hfeeding] at hhandling
      cases hhandling
  | finished x hfin _ _ _ _ => exact (hs.2.2.1 hfin).elim
  | crashed fault hcrash _ => exact (hs.2.2.2 hcrash).elim

theorem Follows.of_feeding (h : Follows S y s) {chunk : List UInt8} {events : List Event}
    {calls : List (Call XMPPStanza)} {waiting : List Str}
    (hpc : s.pc = .feeding chunk events calls waiting) :
    ∃ x, y = Session.rest S x chunk events calls ∧ Serves s x waiting := by
  cases h with
  | handling x chunk' events' calls' waiting' hfeeding hy hserves =>
      rw [hpc] at hfeeding
      cases hfeeding
      exact ⟨x, hy, hserves⟩
  | serving x hs _ _ =>
      have hhandling := hs.2.1
      rw [hpc] at hhandling
      cases hhandling
  | accepting x hacc _ _ _ =>
      rw [hpc] at hacc
      cases hacc
  | finished x hfin _ _ _ _ =>
      rw [hpc] at hfin
      cases hfin
  | crashed fault hcrash _ =>
      rw [hpc] at hcrash
      cases hcrash

theorem Serves.finished (h : Serves s x []) (hy : y = .ok x) {v : State} (hpc : v.pc = .finished)
    (hentered : v.entered = s.entered) (hended : x.ended = true → v.kill_recv = true)
    (hagrees : v.stopped = false → Agrees v x []) : Follows S y v := by
  refine .finished x hpc hy ?_ hended hagrees
  rw [h.replies, List.map_nil, List.append_nil]
  unfold replied
  rw [hentered]

theorem follows_thread (h : Follows S y s) (hstep : s.thread S = some t) : Follows S y t := by
  unfold State.thread at hstep
  split at hstep
  next origin w hw =>
    split_ifs at hstep
    cases hstep
    exact h.same ⟨rfl, rfl, rfl, rfl, rfl, rfl, rfl, rfl, fun hkill => hkill⟩
  next hw =>
    split at hstep
    next hpc =>
      obtain ⟨x, hy, hserves⟩ := h.of_serving (by simp [hpc, IsServing, isHandling])
      split_ifs at hstep with hkill
      · cases hstep
        exact hserves.finished hy rfl rfl (fun _ => hkill) fun hstopped => by cases hstopped
      · cases hstep
        have hended := hserves.not_ended (by simp [hpc]) fun _ => by simpa using hkill
        exact .serving x ⟨by simp, rfl, by simp, by simp⟩ hy (hserves.moved hended)
    next stream rest hpc =>
      obtain ⟨x, hy, hserves⟩ := h.of_serving (by simp [hpc, IsServing, isHandling])
      cases hstep
      have hended := hserves.not_ended (by simp [hpc]) (by simp [hpc])
      refine .serving x ⟨by simp, rfl, by simp, by simp⟩ hy (Serves.moved ?_ hended)
      refine ⟨⟨?_, hserves.primed, hserves.received_stanzas⟩, hserves.parser, hserves.client,
        hserves.stream, hserves.ended⟩
      rw [hserves.replies]
      unfold replied State.begin
      rw [List.filter_append, List.map_append, List.append_assoc]
      rfl
    next hpc =>
      obtain ⟨x, hy, hserves⟩ := h.of_serving (by simp [hpc, IsServing, isHandling])
      cases hstep
      have hended := hserves.not_ended (by simp [hpc]) (by simp [hpc])
      have hdrained : Serves { s with send_queue := [] } x [] :=
        ⟨⟨hserves.replies, hserves.primed, hserves.received_stanzas⟩, hserves.parser,
          hserves.client, hserves.stream, hserves.ended⟩
      exact .serving x ⟨by simp, rfl, by simp, by simp⟩ hy (hdrained.moved hended)
    next chunk events calls m replies hpc =>
      obtain ⟨x, hy, hserves⟩ := h.of_feeding hpc
      cases hstep
      exact .handling x chunk events calls replies rfl hy
        (hserves.give (hserves.not_ended (by simp [hpc]) (by simp [hpc])))
    next chunk events c calls hpc =>
      obtain ⟨x, hy, hserves⟩ := h.of_feeding hpc
      cases hstep
      exact follows_callback hpc hserves hy
    next chunk e events hpc =>
      obtain ⟨x, hy, hserves⟩ := h.of_feeding hpc
      cases hstep
      exact follows_event hpc hserves hy
    next chunk hpc =>
      obtain ⟨x, hy, hserves⟩ := h.of_feeding hpc
      cases hstep
      exact follows_endChunk hpc hserves hy
    next hpc =>
      obtain ⟨x, hy, hserves⟩ := h.of_serving (by simp [hpc, IsServing, isHandling])
      cases hstep
      exact .serving x ⟨by simp, rfl, by simp, by simp⟩ hy
        ⟨⟨hserves.replies, hserves.primed, hserves.received_stanzas⟩, hserves.parser,
          hserves.client, hserves.stream, fun _ => Or.inr ⟨rfl, rfl⟩⟩
    next => cases hstep

theorem follows_accept {result : AcceptResult} (h : Follows S y s)
    (hstep : s.accept result = some t) : Follows S y t := by
  unfold State.accept at hstep
  split at hstep
  next hpc =>
    cases h with
    | accepting x _ hy hagrees hnew =>
        obtain ⟨hparser, hclient, hstream, hended⟩ := hnew
        have hleft : Follows S y { s with pc := .finished } := by
          refine .finished x rfl hy ?_ ?_ fun _ => ⟨hagrees.replies, hagrees.primed,
            hagrees.received_stanzas⟩
          · rw [hagrees.replies, List.map_nil, List.append_nil]
            rfl
          · intro hend
            rw [hended] at hend
            cases hend
        split_ifs at hstep
        · cases hstep
          exact hleft
        · cases result with
          | connected =>
              cases hstep
              refine .serving x ⟨by simp, rfl, by simp, by simp⟩ hy
                ⟨⟨hagrees.replies, hagrees.primed, hagrees.received_stanzas⟩, hparser.symm, ?_,
                  hstream.symm, ?_⟩
              · rw [hclient]
              · intro hend
                rw [hended] at hend
                cases hend
          | again =>
              cases hstep
              exact .accepting x hpc hy hagrees ⟨hparser, hclient, hstream, hended⟩
          | failed =>
              cases hstep
              exact hleft
    | serving x hs _ _ => exact (hs.1 hpc).elim
    | handling x chunk events calls waiting hfeeding _ _ => simp [hpc] at hfeeding
    | finished x hfin _ _ _ _ => simp [hpc] at hfin
    | crashed fault hcrash _ => simp [hpc] at hcrash
  next => cases hstep

theorem follows_recv {result : RecvResult} (h : Follows S y s)
    (hstep : s.recv result = some t) : Follows S (advance S y (.recv result)) t := by
  unfold State.recv at hstep
  split at hstep
  next hpc =>
    obtain ⟨x, hy, hserves⟩ := h.of_serving (by simp [hpc, IsServing, isHandling])
    have hended := hserves.not_ended (by simp [hpc]) (by simp [hpc])
    have hkill : x.ended = true → s.kill_recv = true := by
      intro hend
      rw [hended] at hend
      cases hend
    have hagrees : Agrees { s with pc := .finished } x [] :=
      ⟨hserves.replies, hserves.primed, hserves.received_stanzas⟩
    cases result with
    | closed =>
        cases hstep
        exact hserves.finished hy rfl rfl hkill fun _ => hagrees
    | again =>
        cases hstep
        exact .serving x ⟨by simp, rfl, by simp, by simp⟩ hy (hserves.moved hended)
    | failed =>
        cases hstep
        exact hserves.finished hy rfl rfl hkill fun _ => hagrees
    | data chunk events =>
        dsimp only at hstep
        split_ifs at hstep
        cases hstep
        refine .handling x chunk events [] [] rfl ?_ (hserves.moved hended)
        rw [hy]
        exact advance_some (i := .chunk chunk events) rfl x
  next => cases hstep

/-- One step of the server. -/
theorem follows_step (h : Follows S y s) (hok : Apart s a) (hstep : step S s a = some t) :
    Follows S (advance S y a) t := by
  cases ha : changes a with
  | true =>
      have hcall := follows_call h hok ha hstep
      have hinput : input a = some (.call a) := by
        cases a with
        | verifyAny template clear => exact if_pos ha
        | requiredPasswd | forId | forQuery | forXmlns => rfl
        | _ => cases ha
      unfold advance
      rw [hinput]
      exact hcall
  | false =>
      have hrunning := running_of_step hstep
      unfold step at hstep
      rw [if_neg hrunning] at hstep
      cases a with
      | recv result => exact follows_recv h hstep
      | accept result =>
          rw [advance_none rfl]
          exact follows_accept h hstep
      | thread =>
          rw [advance_none rfl]
          exact follows_thread h hstep
      | write result =>
          rw [advance_none rfl]
          exact h.same (sameSession_write hstep)
      | send stream =>
          rw [advance_none rfl]
          dsimp only at hstep
          split_ifs at hstep
          cases hstep
          exact h.same ⟨rfl, rfl, rfl, rfl, rfl, rfl, rfl, rfl, fun hkill => hkill⟩
      | verifyAny template clear =>
          have hclear : clear = false := ha
          subst hclear
          rw [advance_none rfl]
          cases hstep
          refine h.same ⟨rfl, rfl, rfl, ?_, rfl, rfl, rfl, rfl, fun hkill => hkill⟩
          exact stanzasVerifyAny_keep id template s.received_stanzas
      | setTimeout seconds =>
          rw [advance_none rfl]
          cases hstep
          exact h.same ⟨rfl, rfl, rfl, rfl, rfl, rfl, rfl, rfl, fun hkill => hkill⟩
      | verifyLast template =>
          rw [advance_none rfl]
          cases hstep
          exact h
      | containsId id_filter =>
          rw [advance_none rfl]
          cases hstep
          exact h
      | stop =>
          rw [advance_none rfl]
          cases hstep
          exact h.same ⟨rfl, rfl, rfl, rfl, rfl, rfl, rfl, rfl, fun _ => rfl⟩
      | _ => cases ha

end Steps

namespace Session
variable {S : Setting} {x x' : Session}

theorem call_grows {c : Call XMPPStanza} (h : x.call S c = .ok x') : x.replies <+: x'.replies := by
  unfold Session.call at h
  split at h
  · cases h
  · cases h
    exact List.prefix_append _ _

theorem calls_grows {cs : List (Call XMPPStanza)} (h : x.calls S cs = .ok x') :
    x.replies <+: x'.replies := by
  induction cs generalizing x with
  | nil =>
      cases h
      exact List.prefix_rfl
  | cons c cs ih =>
      rw [Session.calls] at h
      cases hc : x.call S c with
      | error fault =>
          rw [hc] at h
          cases h
      | ok y =>
          rw [hc] at h
          exact (call_grows hc).trans (ih h)

theorem event_grows {e : Event} (h : x.event S e = .ok x') : x.replies <+: x'.replies := by
  unfold Session.event at h
  split at h
  · cases h
  · next parser _ =>
      exact calls_grows (x := { x with parser := { parser with arrivals := [] } }) h

theorem deliver_grows {es : List Event} (h : deliver (Session.event S) x es = .ok x') :
    x.replies <+: x'.replies := by
  induction es generalizing x with
  | nil =>
      cases h
      exact List.prefix_rfl
  | cons e es ih =>
      cases he : x.event S e with
      | error fault =>
          rw [deliver, he] at h
          cases h
      | ok y =>
          rw [deliver_cons y es he] at h
          exact (event_grows he).trans (ih h)

theorem endChunk_grows (chunk : List UInt8) : x.replies <+: (x.endChunk chunk).replies := by
  unfold Session.endChunk
  dsimp only
  split_ifs
  · exact List.prefix_append _ _
  · exact List.prefix_rfl

theorem rest_grows {chunk : List UInt8} {events : List Event} {calls : List (Call XMPPStanza)}
    (h : x.rest S chunk events calls = .ok x') : x.replies <+: x'.replies := by
  unfold Session.rest at h
  cases hcalls : x.calls S calls with
  | error fault =>
      rw [hcalls] at h
      cases h
  | ok y =>
      rw [hcalls] at h
      change (deliver (Session.event S) y events).map _ = _ at h
      cases hevents : deliver (Session.event S) y events with
      | error fault =>
          rw [hevents] at h
          cases h
      | ok z =>
          rw [hevents] at h
          cases h
          exact (calls_grows hcalls).trans ((deliver_grows hevents).trans (endChunk_grows chunk))

end Session

theorem follows_start {S : Setting} {s : State} (hs : Started s) :
    Follows S (session S (start s) []) s := by
  refine .accepting (start s) hs.pc rfl ⟨?_, rfl, rfl⟩ ⟨rfl, rfl, rfl, rfl⟩
  unfold replied
  rw [hs.entered]
  rfl

theorem follows_of_runs {S : Setting} {s t : State} {as : List Action} (hs : Started s)
    (h : Runs (step S) Apart s as t) : Follows S (session S (start s) as) t := by
  induction h with
  | nil => exact follows_start hs
  | snoc a _ hok hstep ih =>
      rw [session_append]
      exact follows_step ih hok hstep

theorem Agrees.replied_eq {s : State} {x : Session} (h : Agrees s x []) :
    replied s = x.replies.map utf8 := by
  rw [h.replies, List.map_nil, List.append_nil]

namespace Follows
variable {S : Setting} {s : State} {y : Except Fault Session}

/-- The thread is never ahead of the session. -/
theorem not_ahead (h : Follows S y s) {x : Session} (hx : y = .ok x) :
    replied s <+: x.replies.map utf8 := by
  have hlevel : ∀ {z : Session}, y = .ok z → replied s = z.replies.map utf8 →
      replied s <+: x.replies.map utf8 := by
    intro z hz hreplies
    rw [hx] at hz
    obtain rfl := Except.ok.inj hz
    exact hreplies ▸ List.prefix_rfl
  cases h with
  | accepting z _ hy hagrees _ => exact hlevel hy hagrees.replied_eq
  | serving z _ hy hserves => exact hlevel hy hserves.toAgrees.replied_eq
  | handling z chunk events calls waiting _ hy hserves =>
      rw [hx] at hy
      have hpart : replied s <+: z.replies.map utf8 := by
        rw [hserves.replies]
        exact List.prefix_append _ _
      exact hpart.trans ((Session.rest_grows hy.symm).map utf8)
  | finished z _ hy hreplies _ _ => exact hlevel hy hreplies.symm
  | crashed fault _ hy =>
      rw [hx] at hy
      cases hy

/-- Outside of a chunk it has done all of it. -/
theorem level (h : Follows S y s) (hpc : isHandling s.pc = false) (hcrash : s.pc ≠ .crashed) :
    ∃ x, y = .ok x ∧ replied s = x.replies.map utf8 ∧
      (x.ended = true → s.pc = .ending ∨ s.kill_recv = true) ∧
      (s.stopped = false → s.primed = x.primed ∧ s.received_stanzas = x.received_stanzas) := by
  cases h with
  | accepting x _ hy hagrees hnew =>
      refine ⟨x, hy, hagrees.replied_eq, ?_, fun _ => ⟨hagrees.primed, hagrees.received_stanzas⟩⟩
      intro hended
      rw [hnew.2.2.2] at hended
      cases hended
  | serving x _ hy hserves =>
      exact ⟨x, hy, hserves.toAgrees.replied_eq, fun hended => (hserves.ended hended).imp_right
        And.right, fun _ => ⟨hserves.primed, hserves.received_stanzas⟩⟩
  | handling x chunk events calls waiting hfeeding _ _ =>
      rw [hfeeding] at hpc
      cases hpc
  | finished x _ hy hreplies hended hagrees =>
      exact ⟨x, hy, hreplies.symm, fun h => Or.inr (hended h), fun hstopped =>
        ⟨(hagrees hstopped).primed, (hagrees hstopped).received_stanzas⟩⟩
  | crashed fault hfault _ => exact (hcrash hfault).elim

theorem faulty (h : Follows S y s) (hpc : s.pc = .crashed) : ∃ fault, y = .error fault := by
  cases h with
  | crashed fault _ hy => exact ⟨fault, hy⟩
  | accepting x hacc _ _ _ =>
      rw [hpc] at hacc
      cases hacc
  | serving x hserving _ _ => exact (hserving.2.2.2 hpc).elim
  | handling x chunk events calls waiting hfeeding _ _ =>
      rw [hpc] at hfeeding
      cases hfeeding
  | finished x hfin _ _ _ _ =>
      rw [hpc] at hfin
      cases hfin

end Follows

/-- The replies in a run in which the tables and the store are left alone while a chunk is
handled. -/
theorem session_of_runs {S : Setting} {s t : State} {as : List Action} (hs : Started s)
    (h : Runs (step S) Apart s as t) :
    (∀ x, session S (start s) as = .ok x → replied t <+: x.replies.map utf8) ∧
    (isHandling t.pc = false → t.pc ≠ .crashed → ∃ x, session S (start s) as = .ok x ∧
      replied t = x.replies.map utf8 ∧
      (t.stopped = false → t.primed = x.primed ∧ t.received_stanzas = x.received_stanzas)) ∧
    (t.pc = .crashed → ∃ fault, session S (start s) as = .error fault) := by
  have hfollows := follows_of_runs hs h
  refine ⟨fun x hx => hfollows.not_ahead hx, ?_, hfollows.faulty⟩
  intro hpc hcrash
  obtain ⟨x, hx, hreplies, -, hstate⟩ := hfollows.level hpc hcrash
  exact ⟨x, hx, hreplies, hstate⟩

def apart (s : State) (a : Action) : Bool := !isHandling s.pc || !changes a

theorem apart_of_test {s : State} {a : Action} (h : apart s a = true) : Apart s a := by
  intro hhandling
  unfold apart at h
  rw [hhandling] at h
  simpa using h

/-- The client's header is answered, a stub is primed and the client's request comes. -/
def primedInTime : List Action :=
  connect "<stream:stream>".toList ++ [.thread, .thread] ++ written XML_START ++
    written STREAM_RESP ++ written FEATURES ++
    [.thread, .thread, .thread, .forId "q1".toList "<a/>".toList,
      .recv (.data (utf8 "<iq id='q1'/>".toList)
        [.start "iq".toList [("id".toList, "q1".toList)], .stop "iq".toList]),
      .thread, .thread, .thread, .thread] ++
    written "<a id=\"q1\"/>".toList ++ [.thread]

theorem session_primedInTime : ∃ t x, run (step .plain) .idle primedInTime = some t ∧
    replied t = (streamStartCallback ++ ["<a id=\"q1\"/>".toList]).map utf8 ∧
    session .plain (start .idle) primedInTime = .ok x ∧ replied t = x.replies.map utf8 := by
  have hrun : (run (fun u a => if apart u a then step .plain u a else none) .idle
      primedInTime).any (fun t => !isHandling t.pc && !t.pc.isCrashed && replied t =
        (streamStartCallback ++ ["<a id=\"q1\"/>".toList]).map utf8) = true := by decide +kernel
  obtain ⟨t, ht, htest⟩ := (Option.any_eq_true _ _).mp hrun
  rw [Bool.and_eq_true, Bool.and_eq_true] at htest
  obtain ⟨⟨hpc, hcrashed⟩, hreplied⟩ := htest
  have hruns := runs_of_checked (fun _ _ h => apart_of_test h) ht
  have hcrash : t.pc ≠ .crashed := by
    intro hcrash
    rw [hcrash] at hcrashed
    cases hcrashed
  obtain ⟨x, hx, hreplies, -⟩ :=
    (session_of_runs started_idle hruns).2.1 (by simpa using hpc) hcrash
  exact ⟨t, x, hruns.to_run, of_decide_eq_true hreplied, hx, hreplies⟩

end Stabber.Sessions
