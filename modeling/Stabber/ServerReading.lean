import Stabber.ServerSteps

/-!
# The chunks that the server takes

A chunk is received, fed to the parser with all that its callbacks do, and then
added to the bytes whose end is looked at. A chunk is over where the thread leaves
it: at the end of the loop's body, or with a fault.
-/

namespace Stabber.ServerReading
open XmlDocument StreamParser Callbacks Utf8 ReadStream WriteStream Transition Server State

/-- The thread is in the loop of `read_stream`. -/
def InLoop : Pc → Prop
  | .accepting => False
  | .finished => False
  | .crashed => False
  | _ => True

/-- The chunk that has been received and not yet been added to the bytes. -/
def pending : Pc → List (List UInt8)
  | .feeding chunk _ _ _ => [chunk]
  | _ => []

/-- The bytes that these actions bring. -/
def received (as : List Action) : List UInt8 := (as.filterMap Action.chunk).flatten

/-- The thread answers the end of the stream, and is about to set `kill_recv`. -/
structure EndsStream (s : State) : Prop where
  pc : s.pc = .ending
  writing : s.writing = some (.reply, writeStream (utf8 STREAM_END))

/-- After `bs`, one more step of the run leaves the chunk that is being handled. -/
def Over (S : Setting) (s : State) (as bs : List Action) (v : State) : Prop :=
  ∃ a u, bs ++ [a] <+: as ∧ run (step S) s bs = some u ∧ step S u a = some v ∧
    pending u.pc ≠ [] ∧ pending v.pc = []

/-- The chunks that are over. -/
def handledChunks (as : List Action) (s : State) : List (List UInt8) :=
  match pending s.pc with
  | [] => as.filterMap Action.chunk
  | _ :: _ => (as.filterMap Action.chunk).dropLast

/-- What the thread has taken after these actions: these chunks are over, and perhaps
there is one more. -/
structure Reading (as : List Action) (s : State) (handled : List (List UInt8)) : Prop where
  chunks : as.filterMap Action.chunk = handled ++ pending s.pc
  accepting : s.pc = .accepting → handled = []
  stream : InLoop s.pc → s.stream = handled.flatten
  before : ∀ q, q <+: handled → q ≠ handled → gStrHasSuffix q.flatten STREAM_END = false
  ended : gStrHasSuffix handled.flatten STREAM_END = true →
    s.pc = .ending ∨ s.kill_recv = true ∧ (s.pc = .top ∨ s.pc = .finished)
  closed : s.pc = .ending ∨ s.kill_recv = true →
    gStrHasSuffix handled.flatten STREAM_END = true ∨ .stop ∈ as

namespace Reading
variable {S : Setting} {s t : State} {as : List Action} {a : Action}
  {handled : List (List UInt8)}

theorem start (hs : Started s) : Reading [] s [] := by
  constructor
  · rw [hs.pc]
    rfl
  · exact fun _ => rfl
  · intro hloop
    rw [hs.pc] at hloop
    exact hloop.elim
  · exact fun q hq hne => (hne (List.prefix_nil.mp hq)).elim
  · intro hsuffix
    rw [List.flatten_nil, gStrHasSuffix_nil] at hsuffix
    cases hsuffix
  · intro hend
    rw [hs.pc, hs.kill_recv] at hend
    rcases hend with hend | hend <;> cases hend

/-- Where the thread can go on reading, the end has not been seen. -/
theorem unseen (h : Reading as s handled)
    (hpc : s.pc ≠ .ending ∧ (s.pc = .top → s.kill_recv = false) ∧ s.pc ≠ .finished) :
    gStrHasSuffix handled.flatten STREAM_END = false := by
  cases hsuffix : gStrHasSuffix handled.flatten STREAM_END with
  | false => rfl
  | true =>
      rcases h.ended hsuffix with hend | ⟨hkill, htop | hend⟩
      · exact (hpc.1 hend).elim
      · rw [hpc.2.1 htop] at hkill
        cases hkill
      · exact (hpc.2.2 hend).elim

theorem snoc_chunks (h : Reading as s handled) (hchunk : a.chunk = none) :
    (as ++ [a]).filterMap Action.chunk = handled ++ pending s.pc := by
  rw [List.filterMap_append, h.chunks]
  simp [hchunk]

theorem closed_snoc (h : Reading as s handled) (hend : s.pc = .ending ∨ s.kill_recv = true) :
    gStrHasSuffix handled.flatten STREAM_END = true ∨ .stop ∈ as ++ [a] :=
  (h.closed hend).imp id (List.mem_append_left _)

/-- A step beside the loop. -/
theorem same (h : Reading as s handled) (hchunk : a.chunk = none) (hpc : t.pc = s.pc)
    (hstream : t.stream = s.stream) (hkill : t.kill_recv = s.kill_recv) :
    Reading (as ++ [a]) t handled := by
  constructor
  · rw [hpc]
    exact h.snoc_chunks hchunk
  · rw [hpc]
    exact h.accepting
  · rw [hpc, hstream]
    exact h.stream
  · exact h.before
  · rw [hpc, hkill]
    exact h.ended
  · rw [hpc, hkill]
    exact h.closed_snoc

/-- A step inside the loop, before the end has been seen. -/
theorem moved (h : Reading as s handled) (hchunk : a.chunk = none)
    (hfrom : InLoop s.pc ∧ s.pc ≠ .ending ∧ (s.pc = .top → s.kill_recv = false))
    (hto : InLoop t.pc ∧ t.pc ≠ .ending) (hpending : pending t.pc = pending s.pc)
    (hstream : t.stream = s.stream) (hkill : t.kill_recv = s.kill_recv) :
    Reading (as ++ [a]) t handled := by
  have hnotFinished : s.pc ≠ .finished := by
    intro hpc
    rw [hpc] at hfrom
    exact hfrom.1
  have hunseen := h.unseen ⟨hfrom.2.1, hfrom.2.2, hnotFinished⟩
  constructor
  · rw [hpending]
    exact h.snoc_chunks hchunk
  · intro hpc
    rw [hpc] at hto
    exact hto.1.elim
  · intro _
    rw [hstream]
    exact h.stream hfrom.1
  · exact h.before
  · intro hsuffix
    rw [hunseen] at hsuffix
    cases hsuffix
  · intro hend
    have hkilled := hend.resolve_left hto.2
    rw [hkill] at hkilled
    exact h.closed_snoc (Or.inr hkilled)

theorem connected (h : Reading as s handled) (hpc : s.pc = .accepting) (hto : t.pc = .top)
    (hstream : t.stream = []) (hkill : t.kill_recv = s.kill_recv) (hchunk : a.chunk = none) :
    Reading (as ++ [a]) t handled := by
  have hnil := h.accepting hpc
  have hchunks := h.snoc_chunks hchunk
  rw [hpc] at hchunks
  constructor
  · rw [hto]
    exact hchunks
  · intro htop
    rw [hto] at htop
    cases htop
  · intro _
    rw [hstream, hnil]
    rfl
  · exact h.before
  · intro hsuffix
    rw [hnil, List.flatten_nil, gStrHasSuffix_nil] at hsuffix
    cases hsuffix
  · intro hend
    rw [hto, hkill] at hend
    have hkilled := hend.resolve_left (by simp)
    exact h.closed_snoc (Or.inr hkilled)

/-- The thread returns. -/
theorem finished (h : Reading as s handled) (hchunk : a.chunk = none)
    (hfrom : s.pc = .accepting ∨ s.pc = .receiving ∨ s.pc = .top ∧ s.kill_recv = true)
    (hto : t.pc = .finished) (hkill : t.kill_recv = s.kill_recv) :
    Reading (as ++ [a]) t handled := by
  have hpending : pending s.pc = [] := by
    rcases hfrom with hpc | hpc | ⟨hpc, _⟩ <;> rw [hpc] <;> rfl
  have hchunks := h.snoc_chunks hchunk
  rw [hpending] at hchunks
  constructor
  · rw [hto]
    exact hchunks
  · intro hpc
    rw [hto] at hpc
    cases hpc
  · intro hloop
    rw [hto] at hloop
    exact hloop.elim
  · exact h.before
  · intro hsuffix
    right
    rcases hfrom with hpc | hpc | ⟨hpc, hkilled⟩
    · rw [h.unseen (by simp [hpc])] at hsuffix
      cases hsuffix
    · rw [h.unseen (by simp [hpc])] at hsuffix
      cases hsuffix
    · rw [hkill]
      exact ⟨hkilled, Or.inr hto⟩
  · intro hend
    rw [hto, hkill] at hend
    have hkilled := hend.resolve_left (by simp)
    exact h.closed_snoc (Or.inr hkilled)

theorem stop (h : Reading as s handled) :
    Reading (as ++ [.stop]) { s with kill_recv := true } handled := by
  constructor
  · exact h.snoc_chunks rfl
  · exact h.accepting
  · exact h.stream
  · exact h.before
  · exact fun hsuffix => (h.ended hsuffix).imp id fun hend => ⟨rfl, hend.2⟩
  · exact fun _ => Or.inr (List.mem_append_right _ List.mem_cons_self)

theorem kill (h : Reading as s handled) (hpc : s.pc = .ending) :
    Reading (as ++ [.thread]) { s with kill_recv := true, pc := .top } handled := by
  have hchunks : (as ++ [Action.thread]).filterMap Action.chunk = handled ++ pending s.pc :=
    h.snoc_chunks rfl
  rw [hpc] at hchunks
  constructor
  · exact hchunks
  · intro htop
    cases htop
  · exact fun _ => h.stream (by rw [hpc]; trivial)
  · exact h.before
  · exact fun _ => Or.inr ⟨rfl, Or.inl rfl⟩
  · exact fun _ => h.closed_snoc (Or.inl hpc)

theorem data (h : Reading as s handled) (hpc : s.pc = .receiving) (chunk : List UInt8)
    (events : List Event) :
    Reading (as ++ [.recv (.data chunk events)])
      { s with pc := .feeding chunk events [] [] } handled := by
  have hchunks := h.chunks
  have hunseen := h.unseen (by simp [hpc])
  rw [hpc] at hchunks
  change _ = handled ++ [] at hchunks
  rw [List.append_nil] at hchunks
  constructor
  · rw [List.filterMap_append, hchunks]
    rfl
  · intro hfeeding
    cases hfeeding
  · exact fun _ => h.stream (by rw [hpc]; trivial)
  · exact h.before
  · intro hsuffix
    rw [hunseen] at hsuffix
    cases hsuffix
  · intro hend
    have hkilled := hend.resolve_left (by simp)
    exact h.closed_snoc (Or.inr hkilled)

/-- The chunk that is over has been added to the bytes. -/
theorem added (h : Reading as s handled) {chunk : List UInt8}
    (hpc : s.pc = .feeding chunk [] [] []) :
    s.stream ++ chunk = (handled ++ [chunk]).flatten ∧
      (as ++ [Action.thread]).filterMap Action.chunk = handled ++ [chunk] ∧
      ∀ q, q <+: handled ++ [chunk] → q ≠ handled ++ [chunk] →
        gStrHasSuffix q.flatten STREAM_END = false := by
  have hunseen := h.unseen (by simp [hpc])
  have hchunks : (as ++ [Action.thread]).filterMap Action.chunk = handled ++ pending s.pc :=
    h.snoc_chunks rfl
  rw [hpc] at hchunks
  refine ⟨?_, hchunks, ?_⟩
  · rw [h.stream (by rw [hpc]; trivial)]
    simp
  · intro q hq hne
    have hinit := (List.prefix_concat_iff.mp hq).resolve_left hne
    by_cases hall : q = handled
    · rw [hall]
      exact hunseen
    · exact h.before q hinit hall

theorem next (h : Reading as s handled) {chunk : List UInt8}
    (hpc : s.pc = .feeding chunk [] [] [])
    (hend : gStrHasSuffix (s.stream ++ chunk) STREAM_END = false) :
    Reading (as ++ [.thread]) { s with stream := s.stream ++ chunk, pc := .top }
      (handled ++ [chunk]) := by
  obtain ⟨hstream, hchunks, hbefore⟩ := h.added hpc
  have hunseen := h.unseen (by simp [hpc])
  rw [hstream] at hend
  constructor
  · rw [hchunks]
    exact (List.append_nil _).symm
  · intro htop
    cases htop
  · exact fun _ => hstream
  · exact hbefore
  · intro hsuffix
    rw [hend] at hsuffix
    cases hsuffix
  · intro hkilled
    have hstop := h.closed (Or.inr (hkilled.resolve_left (by simp)))
    rw [hunseen] at hstop
    exact Or.inr (List.mem_append_left _ (hstop.resolve_left Bool.false_ne_true))

theorem streamEnd (h : Reading as s handled) {chunk : List UInt8}
    (hpc : s.pc = .feeding chunk [] [] [])
    (hend : gStrHasSuffix (s.stream ++ chunk) STREAM_END = true) :
    Reading (as ++ [.thread])
      { s.begin .reply (utf8 STREAM_END) with stream := s.stream ++ chunk, pc := .ending }
      (handled ++ [chunk]) := by
  obtain ⟨hstream, hchunks, hbefore⟩ := h.added hpc
  rw [hstream] at hend
  constructor
  · rw [hchunks]
    exact (List.append_nil _).symm
  · intro hpc
    cases hpc
  · exact fun _ => hstream
  · exact hbefore
  · exact fun _ => Or.inl rfl
  · exact fun _ => Or.inl hend

end Reading

section Steps
variable {S : Setting} {s t : State} {as : List Action} {a : Action}
  {handled : List (List UInt8)}

/-- A step that is no fault either leaves a chunk at its end, or no chunk at all. -/
inductive Moves (S : Setting) (s : State) (as : List Action) (a : Action) (t : State)
    (handled : List (List UInt8)) : Prop where
  | same (hpending : pending s.pc ≠ [] → pending t.pc ≠ [])
      (hreading : Reading (as ++ [a]) t handled)
  | leaves (chunk : List UInt8) (hpending : pending s.pc = [chunk] ∧ pending t.pc = [])
      (hends : EndsStream t ↔ gStrHasSuffix (handled ++ [chunk]).flatten STREAM_END = true)
      (hreading : Reading (as ++ [a]) t (handled ++ [chunk]))

theorem moves_of_step (h : Reading as s handled) (hstep : step S s a = some t)
    (hrunning : t.pc.isCrashed = false) : Moves S s as a t handled := by
  cases step_cases hstep with
  | quiet a primed timeout hchunk => exact .same id (h.same hchunk rfl rfl rfl)
  | crash a => cases hrunning
  | send stream hlock => exact .same id (h.same rfl rfl rfl rfl)
  | verifyAny template clear => exact .same id (h.same rfl rfl rfl rfl)
  | stop => exact .same id h.stop
  | leave a hpc hchunk =>
      have hpending : pending s.pc = [] := by
        rcases hpc with hpc | hpc
        · rw [hpc]
          rfl
        · rw [hpc]
          rfl
      exact .same (fun hne => (hne hpending).elim)
        (h.finished hchunk (hpc.imp id Or.inl) rfl rfl)
  | connected hpc =>
      exact .same (by simp [hpc, pending]) (h.connected hpc rfl rfl rfl rfl)
  | again hpc =>
      exact .same (by simp [hpc, pending]) (h.moved rfl (by simp [hpc, InLoop])
        (by simp [InLoop]) (by rw [hpc]; rfl) rfl rfl)
  | data chunk events hpc =>
      exact .same (by simp [hpc, pending]) (h.data hpc chunk events)
  | write hw hwrite => exact .same id (h.same rfl rfl rfl rfl)
  | returned hw hsend => exact .same id (h.same rfl rfl rfl rfl)
  | shutdown hw hpc hkill =>
      exact .same (by simp [hpc, pending])
        (h.finished rfl (Or.inr (Or.inr ⟨hpc, hkill⟩)) rfl rfl)
  | lock hw hpc hkill =>
      exact .same (by simp [hpc, pending]) (h.moved rfl (by simp [hpc, hkill, InLoop])
        (by simp [InLoop]) (by rw [hpc]; rfl) rfl rfl)
  | take hw hpc =>
      exact .same (by simp [hpc, pending]) (h.moved rfl (by simp [hpc, InLoop])
        (by simp [InLoop]) (by rw [hpc]; rfl) rfl rfl)
  | unlock hw hpc =>
      exact .same (by simp [hpc, pending]) (h.moved rfl (by simp [hpc, InLoop])
        (by simp [InLoop]) (by rw [hpc]; rfl) rfl rfl)
  | reply hw hpc =>
      exact .same (by simp [pending]) (h.moved rfl (by simp [hpc, InLoop])
        (by simp [InLoop]) (by rw [hpc]; rfl) rfl rfl)
  | @call _ _ _ c _ _ _ hw hpc hclient hcall =>
      obtain ⟨_, _, _, hrecord⟩ := s.record_eq c
      rw [hrecord]
      exact .same (by simp [pending]) (h.moved rfl (by simp [hpc, InLoop])
        (by simp [InLoop]) (by rw [hpc]; rfl) rfl rfl)
  | event hw hpc hevent =>
      exact .same (by simp [pending]) (h.moved rfl (by simp [hpc, InLoop])
        (by simp [InLoop]) (by rw [hpc]; rfl) rfl rfl)
  | @next chunk hw hpc hend =>
      have hstream := (h.added hpc).1
      have hreading := h.next hpc hend
      refine .leaves chunk ⟨by rw [hpc]; rfl, rfl⟩ ?_ hreading
      rw [← hstream, hend]
      constructor
      · intro hends
        cases hends.pc
      · intro htrue
        cases htrue
  | @streamEnd chunk hw hpc hend =>
      have hstream := (h.added hpc).1
      have hreading := h.streamEnd hpc hend
      refine .leaves chunk ⟨by rw [hpc]; rfl, rfl⟩ ?_ hreading
      rw [← hstream, hend]
      exact iff_of_true ⟨rfl, rfl⟩ rfl
  | kill hw hpc => exact .same (by simp [hpc, pending]) (h.kill hpc)

end Steps

/-! ## Runs -/

section Runs
variable {S : Setting} {s t u v : State} {as bs : List Action} {a : Action}
  {chunks : List (List UInt8)}

/-- A longer run has the same ends of chunks, and perhaps one with its last step. -/
theorem over_snoc (h : run (step S) s as = some t) (hstep : step S t a = some u) :
    Over S s (as ++ [a]) bs v ↔
      Over S s as bs v ∨ (bs = as ∧ v = u ∧ pending t.pc ≠ [] ∧ pending u.pc = []) := by
  constructor
  · rintro ⟨b, w, hcut, hrun, hlast, hfrom, hto⟩
    rcases List.prefix_concat_iff.mp hcut with heq | hcut
    · obtain ⟨rfl, hb⟩ := List.append_inj' heq rfl
      obtain rfl := List.singleton_inj.mp hb
      rw [h] at hrun
      cases hrun
      rw [hstep] at hlast
      cases hlast
      exact Or.inr ⟨rfl, rfl, hfrom, hto⟩
    · exact Or.inl ⟨b, w, hcut, hrun, hlast, hfrom, hto⟩
  · rintro (⟨b, w, hcut, hrest⟩ | ⟨rfl, rfl, hfrom, hto⟩)
    · exact ⟨b, w, hcut.trans (List.prefix_append _ _), hrest⟩
    · exact ⟨a, t, List.prefix_rfl, h, hstep, hfrom, hto⟩

/-- After these actions, and one step that leaves a chunk, these chunks are over, and
the end of the stream is answered if they end in its text. -/
structure OverAt (S : Setting) (s : State) (as bs : List Action) (v : State)
    (chunks : List (List UInt8)) : Prop where
  leaves : Over S s as bs v
  bytes : received bs = chunks.flatten
  ends : EndsStream v ↔ gStrHasSuffix chunks.flatten STREAM_END = true

/-- The ends of chunks in a run are those of the chunks that are over. -/
structure Taken (S : Setting) (s : State) (as : List Action) (t : State)
    (chunks : List (List UInt8)) : Prop where
  reading : Reading as t chunks
  leaves : ∀ bs v, Over S s as bs v →
    ∃ pre chunk, pre ++ [chunk] <+: chunks ∧ OverAt S s as bs v (pre ++ [chunk])
  each : ∀ pre chunk, pre ++ [chunk] <+: chunks →
    ∃ bs v, OverAt S s as bs v (pre ++ [chunk])

namespace Taken

theorem start (hs : Started s) : Taken S s [] s [] := by
  refine ⟨.start hs, ?_, ?_⟩
  · rintro bs v ⟨a, u, hcut, -⟩
    exact (List.append_ne_nil_of_right_ne_nil bs (List.cons_ne_nil a [])
      (List.prefix_nil.mp hcut)).elim
  · intro pre chunk hpre
    exact (List.append_ne_nil_of_right_ne_nil pre (List.cons_ne_nil chunk [])
      (List.prefix_nil.mp hpre)).elim

theorem snoc (h : Taken S s as t chunks) (hrun : run (step S) s as = some t)
    (hstep : step S t a = some u) (hrunning : u.pc.isCrashed = false) :
    ∃ more, Taken S s (as ++ [a]) u more := by
  have hmono : ∀ bs v ds, OverAt S s as bs v ds → OverAt S s (as ++ [a]) bs v ds :=
    fun bs v ds hover => ⟨(over_snoc hrun hstep).mpr (Or.inl hover.leaves), hover.bytes, hover.ends⟩
  cases moves_of_step h.reading hstep hrunning with
  | same hpending hreading =>
      refine ⟨chunks, hreading, ?_, ?_⟩
      · intro bs v hover
        rcases (over_snoc hrun hstep).mp hover with hover | ⟨-, -, hfrom, hto⟩
        · obtain ⟨pre, chunk, hpre, hat⟩ := h.leaves bs v hover
          exact ⟨pre, chunk, hpre, hmono _ _ _ hat⟩
        · exact (hpending hfrom hto).elim
      · intro pre chunk hpre
        obtain ⟨bs, v, hat⟩ := h.each pre chunk hpre
        exact ⟨bs, v, hmono _ _ _ hat⟩
  | leaves chunk hpending hends hreading =>
      have hne : pending t.pc ≠ [] := by
        rw [hpending.1]
        exact List.cons_ne_nil _ _
      have hbytes : received as = (chunks ++ [chunk]).flatten := by
        rw [received, h.reading.chunks, hpending.1]
      have hlast : OverAt S s (as ++ [a]) as u (chunks ++ [chunk]) :=
        ⟨(over_snoc hrun hstep).mpr (Or.inr ⟨rfl, rfl, hne, hpending.2⟩), hbytes, hends⟩
      refine ⟨chunks ++ [chunk], hreading, ?_, ?_⟩
      · intro bs v hover
        rcases (over_snoc hrun hstep).mp hover with hover | ⟨rfl, rfl, -, -⟩
        · obtain ⟨pre, c, hpre, hat⟩ := h.leaves bs v hover
          exact ⟨pre, c, hpre.trans (List.prefix_append _ _), hmono _ _ _ hat⟩
        · exact ⟨chunks, chunk, List.prefix_rfl, hlast⟩
      · intro pre c hpre
        rcases List.prefix_concat_iff.mp hpre with heq | hpre
        · rw [heq]
          exact ⟨as, u, hlast⟩
        · obtain ⟨bs, v, hat⟩ := h.each pre c hpre
          exact ⟨bs, v, hmono _ _ _ hat⟩

end Taken

theorem taken_of_run (hs : Started s) (h : run (step S) s as = some t)
    (hrunning : t.pc.isCrashed = false) : Taken S s as t (handledChunks as t) := by
  have hexists : run (step S) s as = some t ∧
      (t.pc.isCrashed = false → ∃ chunks, Taken S s as t chunks) := by
    apply run_induction (P := fun as t => run (step S) s as = some t ∧
      (t.pc.isCrashed = false → ∃ chunks, Taken S s as t chunks)) ?_ ?_ h
    · exact ⟨rfl, fun _ => ⟨[], .start hs⟩⟩
    · intro as a t u ih hstep
      constructor
      · rw [run_append, ih.1, Option.bind_some, run, hstep]
        rfl
      · intro hu
        obtain ⟨chunks, htaken⟩ := ih.2 (by simpa using running_of_step hstep)
        exact htaken.snoc ih.1 hstep hu
  obtain ⟨chunks, htaken⟩ := hexists.2 hrunning
  have hchunks := htaken.reading.chunks
  have heq : handledChunks as t = chunks := by
    unfold handledChunks
    split
    next hnil => rw [hchunks, hnil, List.append_nil]
    next c cs hcons =>
      have hone : cs = [] := by
        unfold pending at hcons
        split at hcons <;> cases hcons
        rfl
      rw [hchunks, hcons, hone, List.dropLast_concat]
  rw [heq]
  exact htaken

end Runs

end Stabber.ServerReading
