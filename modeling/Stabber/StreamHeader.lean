import Stabber.ServerSteps

/-!
# What is written first on a connection

The stream header is answered when the client's own header is handled, but the
queue is drained each time before the thread receives.
-/

namespace Stabber.StreamHeader
open XmlDocument XmlReader StanzaParse StreamParser StreamTree Callbacks Utf8 ReadStream
open WriteStream Transition Server State

/-- The answer to the stream header, as the client is to receive it. -/
def headerWire : List (Origin × UInt8) :=
  streamStartCallback.flatMap fun m => tagged (.reply, utf8 m)

/-- Nothing else is on the wire before the whole header. -/
def HeaderFirst (s : State) : Prop := s.wire <+: headerWire ∨ headerWire <+: s.wire

/-- The first element that the client starts is `stream:stream`. -/
def StreamOpens (events : List Event) : Prop :=
  events = [] ∨ ∃ attributes rest, events = .start "stream:stream".toList attributes :: rest

def OpensStream (s : State) (a : Action) : Prop :=
  ∀ chunk events, a = .recv (.data chunk events) → s.greeted = false → StreamOpens events

/-- Nothing in the queue makes `write_stream` write. -/
def Silent (queue : List (List UInt8)) : Prop := ∀ m ∈ queue, (writeStream m).to_send ≤ 0

/-- A drain before the header has been answered finds nothing to write. -/
def QueueWaits (s : State) (a : Action) : Prop :=
  a = .thread → s.writing = none → s.pc = .top → s.greeted = false → Silent s.send_queue

/-- No chunk before the header leaves `</stream:stream>` at the end of the bytes. -/
def NotEnded (s : State) (a : Action) : Prop :=
  ∀ chunk, a = .thread → s.writing = none → s.pc = .feeding chunk [] [] [] → s.greeted = false →
    gStrHasSuffix (s.stream ++ chunk) STREAM_END = false

/-- Once a `write` has failed, none takes a byte before the header is complete. -/
def NoGap (s : State) (a : Action) : Prop :=
  ∀ count, a = .write (.sent count) → s.failed = true → ¬ headerWire <+: s.wire → count = 0

structure Orderly (s : State) (a : Action) : Prop where
  opens : OpensStream s a
  waits : QueueWaits s a
  ended : NotEnded s a
  gap : NoGap s a

/-! ## Before, during and after the header -/

/-- Where the thread can be before the header is answered. -/
def Waiting : Pc → Prop
  | .draining rest => Silent rest
  | .feeding _ events calls replies =>
      replies = [] ∧ (calls = [] ∧ StreamOpens events ∨ calls = [.streamStart])
  | .ending => False
  | _ => True

structure Before (s : State) : Prop where
  greeted : s.greeted = false
  failed : s.failed = false
  wire : s.wire = []
  pc : Waiting s.pc
  writing : ∀ origin w, s.writing = some (origin, w) → w.to_send ≤ 0

/-- What `write_stream` has still to write. -/
def unsent : Option (Origin × Writing) → List (Origin × UInt8)
  | some (origin, w) => tagged (origin, w.stream.drop w.marker)
  | none => []

/-- The rest of the header is in `write_stream` or waits for it. -/
structure During (s : State) : Prop where
  greeted : s.greeted = true
  failed : s.failed = false
  exact : ∀ origin w, s.writing = some (origin, w) → w.Exact
  pc : ∃ chunk events calls replies, s.pc = .feeding chunk events calls replies ∧
    s.wire ++ unsent s.writing ++ replies.flatMap (fun m => tagged (.reply, utf8 m)) = headerWire

/-- A `write` has failed before the header was complete. -/
structure Broken (s : State) : Prop where
  failed : s.failed = true
  greeted : s.greeted = true
  wire : s.wire <+: headerWire

inductive Phase (s : State) : Prop where
  | before (h : Before s)
  | during (h : During s)
  | after (h : headerWire <+: s.wire)
  | broken (h : Broken s)
  | crashed (hpc : s.pc = .crashed) (h : s.wire <+: headerWire)

theorem During.wire_prefix {s : State} (h : During s) : s.wire <+: headerWire := by
  obtain ⟨_, _, _, replies, _, heq⟩ := h.pc
  rw [← heq, List.append_assoc]
  exact List.prefix_append _ _

theorem Phase.headerFirst {s : State} (h : Phase s) : HeaderFirst s := by
  cases h with
  | before h =>
      left
      rw [h.wire]
      exact List.nil_prefix
  | during h => exact Or.inl h.wire_prefix
  | after h => exact Or.inr h
  | broken h => exact Or.inl h.wire
  | crashed hpc h => exact Or.inl h

/-! ## Single steps -/

section Steps
variable {S : Setting} {s t : State} {a : Action}

/-- What is on the wire stays there. -/
theorem wire_grows (h : Step S s a t) : s.wire <+: t.wire := by
  cases h with
  | write hw hwrite => exact List.prefix_append _ _
  | @call _ _ _ c _ _ _ hw hpc hclient hcall =>
      cases c <;> exact List.prefix_rfl
  | _ => exact List.prefix_rfl

theorem greeted_stays (h : Step S s a t) (hs : s.greeted = true) : t.greeted = true := by
  cases h with
  | @call _ _ _ c _ _ _ hw hpc hclient hcall =>
      cases c <;> first | exact hs | rfl
  | _ => exact hs

theorem failed_stays (h : Step S s a t) (hs : s.failed = true) : t.failed = true := by
  cases h with
  | write hw hwrite =>
      change (s.failed || _) = true
      rw [hs, Bool.true_or]
  | @call _ _ _ c _ _ _ hw hpc hclient hcall => cases c <;> exact hs
  | _ => exact hs

/-- Only `write` adds to the wire. -/
theorem wire_of_step (h : Step S s a t) :
    t.wire = s.wire ∨ ∃ count, a = .write (.sent count) ∧ (count = 0 → t.wire = s.wire) := by
  cases h with
  | write hw hwrite =>
      rcases Writing.write_cases hwrite with
        ⟨_, ⟨count, hresult, _, hbs, _⟩ | ⟨_, hbs, _⟩ | ⟨_, hbs, _⟩⟩
      · right
        refine ⟨count, by rw [hresult], ?_⟩
        intro hzero
        rw [hzero, List.take_zero] at hbs
        rw [hbs]
        exact List.append_nil _
      · left
        rw [hbs]
        exact List.append_nil _
      · left
        rw [hbs]
        exact List.append_nil _
  | @call _ _ _ c _ _ _ hw hpc hclient hcall =>
      left
      cases c <;> rfl
  | _ => exact Or.inl rfl

theorem broken_step (h : Broken s) (hok : NoGap s a) (hstep : Step S s a t) : Phase t := by
  by_cases hdone : headerWire <+: s.wire
  · exact .after (hdone.trans (wire_grows hstep))
  · have hwire : t.wire = s.wire := by
      rcases wire_of_step hstep with heq | ⟨count, ha, hzero⟩
      · exact heq
      · exact hzero (hok count ha h.failed hdone)
    refine .broken ⟨failed_stays hstep h.failed, greeted_stays hstep h.greeted, ?_⟩
    rw [hwire]
    exact h.wire

/-- The thread goes to another place before the header. -/
theorem Before.goes (h : Before s) {pc : Pc} (hpc : Waiting pc) : Before { s with pc := pc } :=
  { h with pc := hpc }

/-- The header is handled, and its answer is to be written. -/
theorem Before.streamStart (h : Before s) (hw : s.writing = none) (chunk : List UInt8)
    (events : List Event) : During { s with
      pc := .feeding chunk events [] streamStartCallback
      greeted := true } := by
  refine ⟨rfl, h.failed, ?_, chunk, events, [], streamStartCallback, rfl, ?_⟩
  · intro origin w hwriting
    change s.writing = some (origin, w) at hwriting
    rw [hw] at hwriting
    cases hwriting
  · change s.wire ++ unsent s.writing ++ _ = headerWire
    rw [h.wire, hw]
    rfl

theorem streamStart_calls (parser : TreeParser) (attributes : List (Str × Str)) :
    ∃ parser', TreeParser.handle { parser with arrivals := [] }
        (.start "stream:stream".toList attributes) = .ok parser' ∧
      parser'.arrivals.flatMap (Arrival.calls (fun t => t) fun t => t) = [.streamStart] :=
  ⟨_, rfl, rfl⟩

theorem before_step (h : Before s) (hok : Orderly s a) (hstep : Step S s a t) : Phase t := by
  have hwait := h.pc
  have htop : Waiting .top := trivial
  have hreceiving : Waiting .receiving := trivial
  have hfinished : Waiting .finished := trivial
  cases hstep with
  | quiet a primed timeout hchunk => exact .before { h with }
  | crash a =>
      have hwire : s.crash.wire = [] := h.wire
      refine .crashed rfl ?_
      rw [hwire]
      exact List.nil_prefix
  | send stream hlock => exact .before { h with }
  | verifyAny template clear => exact .before { h with }
  | stop => exact .before { h with }
  | leave a hpc => exact .before (h.goes trivial)
  | connected hpc => exact .before { h.goes htop with }
  | again hpc => exact .before (h.goes trivial)
  | data chunk events hpc =>
      have hopens := hok.opens chunk events rfl h.greeted
      exact .before (h.goes ⟨rfl, Or.inl ⟨rfl, hopens⟩⟩)
  | @write _ origin w _ _ hw hwrite =>
      have hpos := (Writing.write_cases hwrite).1
      have hsend := h.writing origin w hw
      omega
  | returned hw hsend => exact .before { h with writing := by simp }
  | shutdown hw hpc hkill => exact .before { h.goes hfinished with }
  | lock hw hpc hkill =>
      have hsilent := hok.waits rfl hw hpc h.greeted
      exact .before (h.goes hsilent)
  | @take stream rest hw hpc =>
      rw [hpc] at hwait
      refine .before ⟨h.greeted, h.failed, h.wire, ?_, ?_⟩
      · exact fun m hm => hwait m (List.mem_cons_of_mem _ hm)
      · intro origin w hw
        cases hw
        exact hwait stream List.mem_cons_self
  | unlock hw hpc => exact .before { h.goes hreceiving with }
  | reply hw hpc =>
      rw [hpc] at hwait
      cases hwait.1
  | @call chunk events calls c client client' messages hw hpc hclient hcall =>
      rw [hpc] at hwait
      rcases hwait.2 with ⟨hnil, _⟩ | hcalls
      · cases hnil
      · cases hcalls
        cases hcall
        exact .during { h.streamStart hw chunk events with }
  | @event chunk events e parser hw hpc hevent =>
      rw [hpc] at hwait
      rcases hwait.2 with ⟨_, hopens⟩ | hcalls
      · rcases hopens with hnil | ⟨attributes, rest, hcons⟩
        · cases hnil
        · cases hcons
          obtain ⟨parser', hstart, hcalls⟩ := streamStart_calls s.parser attributes
          rw [hstart] at hevent
          cases hevent
          have hwaiting : Waiting (.feeding chunk events (parser.arrivals.flatMap
              (Arrival.calls (fun t => t) fun t => t)) []) := ⟨rfl, Or.inr hcalls⟩
          exact .before { h.goes hwaiting with }
      · cases hcalls
  | next hw hpc hend => exact .before { h.goes htop with }
  | streamEnd hw hpc hend =>
      rw [hok.ended _ rfl hw hpc h.greeted] at hend
      cases hend
  | kill hw hpc =>
      rw [hpc] at hwait
      exact hwait.elim

/-- When nothing of the header is left, it is on the wire. -/
theorem During.complete (h : During s) (hw : s.writing = none) {chunk : List UInt8}
    {events : List Event} {calls : List (Call Stanza.XMPPStanza)}
    (hpc : s.pc = .feeding chunk events calls []) : headerWire <+: s.wire := by
  obtain ⟨_, _, _, replies, hpc', heq⟩ := h.pc
  rw [hpc] at hpc'
  cases hpc'
  rw [hw] at heq
  simp only [unsent, List.flatMap_nil, List.append_nil] at heq
  exact ⟨[], by rw [heq, List.append_nil]⟩

/-- The socket takes a part of the header, or fails. -/
theorem During.write (h : During s) {result : WriteResult} {origin : Origin} {w : Writing}
    {bs : List UInt8} {rest : Option Writing} (hw : s.writing = some (origin, w))
    (hwrite : w.write result = some (bs, rest)) :
    Phase { s with
      wire := s.wire ++ bs.map (origin, ·)
      writing := rest.map (origin, ·)
      failed := s.failed || result = .failed } := by
  obtain ⟨chunk, events, calls, replies, hpc, heq⟩ := id h.pc
  have hexact := h.exact origin w hw
  rw [hw] at heq
  rcases Writing.write_cases hwrite with
    ⟨_, ⟨count, rfl, _, hbs, hrest⟩ | ⟨rfl, hbs, hrest⟩ | ⟨rfl, hbs, hrest⟩⟩
  · have hsplit : w.stream.drop w.marker = bs ++ w.stream.drop (w.marker + count) := by
      rw [hbs, ← List.drop_drop, List.take_append_drop]
    subst hrest
    refine .during ⟨h.greeted, ?_, ?_, chunk, events, calls, replies, hpc, ?_⟩
    · rw [h.failed]
      rfl
    · intro o u hu
      cases hu
      exact (Writing.done_of_write hexact hwrite).1
    · change s.wire ++ bs.map (origin, ·) ++ tagged (origin, w.stream.drop (w.marker + count)) ++ _ =
        headerWire
      rw [← heq, unsent, hsplit]
      simp [tagged]
  · subst hbs hrest
    refine .during ⟨h.greeted, ?_, ?_, chunk, events, calls, replies, hpc, ?_⟩
    · rw [h.failed]
      rfl
    · intro o u hu
      cases hu
      exact hexact
    · change s.wire ++ [] ++ unsent (some (origin, w)) ++ _ = headerWire
      rw [List.append_nil]
      exact heq
  · subst hbs
    refine .broken ⟨Bool.or_true _, h.greeted, ?_⟩
    change s.wire ++ [] <+: headerWire
    rw [List.append_nil]
    exact h.wire_prefix

theorem headerWire_length : headerWire.length < 2 ^ 31 := by decide +kernel

/-- No message of the header is longer than the header. -/
theorem During.short (h : During s) {chunk : List UInt8} {events : List Event}
    {calls : List (Call Stanza.XMPPStanza)} {m : Str} {replies : List Str}
    (hpc : s.pc = .feeding chunk events calls (m :: replies)) : (utf8 m).length < 2 ^ 31 := by
  obtain ⟨_, _, _, _, hpc', heq⟩ := h.pc
  rw [hpc] at hpc'
  cases hpc'
  have hlen := congrArg List.length heq
  have hheader := headerWire_length
  simp only [List.length_append, List.flatMap_cons, tagged, List.length_map] at hlen
  omega

theorem during_step (h : During s) (hstep : Step S s a t) : Phase t := by
  obtain ⟨chunk, events, calls, replies, hpc, heq⟩ := id h.pc
  have hafter : ∀ {cs es ds}, s.writing = none → s.pc = .feeding cs es ds [] → Phase t :=
    fun hw hend => .after ((h.complete hw hend).trans (wire_grows hstep))
  cases hstep with
  | quiet a primed timeout hchunk => exact .during { h with }
  | crash a => exact .crashed rfl h.wire_prefix
  | send stream hlock => exact .during { h with }
  | verifyAny template clear => exact .during { h with }
  | stop => exact .during { h with }
  | leave a hpc' => simp [hpc] at hpc'
  | connected hpc' => simp [hpc] at hpc'
  | again hpc' => simp [hpc] at hpc'
  | data chunk events hpc' => simp [hpc] at hpc'
  | write hw hwrite => exact h.write hw hwrite
  | @returned origin w hw hsend =>
      have hdone := Writing.done_of_returned (h.exact origin w hw) hsend
      have hrest : w.stream.drop w.marker = [] := by
        have hsplit := List.take_append_drop w.marker w.stream
        rw [show w.stream.take w.marker = w.stream from hdone] at hsplit
        exact List.append_right_eq_self.mp hsplit
      refine .during ⟨h.greeted, h.failed, ?_, chunk, events, calls, replies, hpc, ?_⟩
      · intro o u hu
        cases hu
      · rw [← heq, hw, unsent, hrest]
        rfl
  | shutdown hw hpc' hkill => simp [hpc] at hpc'
  | lock hw hpc' hkill => simp [hpc] at hpc'
  | take hw hpc' => simp [hpc] at hpc'
  | unlock hw hpc' => simp [hpc] at hpc'
  | @reply chunk' events' calls' m replies' hw hpc' =>
      rw [hpc'] at hpc
      cases hpc
      refine .during ⟨h.greeted, h.failed, ?_, chunk, events, calls, replies', rfl, ?_⟩
      · intro o u hu
        cases hu
        exact exact_writeStream (h.short hpc')
      · rw [← heq, hw, List.flatMap_cons]
        change s.wire ++ tagged (.reply, utf8 m) ++ _ = s.wire ++ [] ++ _
        rw [List.append_nil, List.append_assoc]
  | call hw hpc' hclient hcall => exact hafter hw hpc'
  | event hw hpc' hevent => exact hafter hw hpc'
  | next hw hpc' hend => exact hafter hw hpc'
  | streamEnd hw hpc' hend => exact hafter hw hpc'
  | kill hw hpc' => simp [hpc] at hpc'

theorem phase_step (h : Phase s) (hok : Orderly s a) (hstep : step S s a = some t) : Phase t := by
  have hcases := step_cases hstep
  cases h with
  | before h => exact before_step h hok hcases
  | during h => exact during_step h hcases
  | after h => exact .after (h.trans (wire_grows hcases))
  | broken h => exact broken_step h hok.gap hcases
  | crashed hpc h =>
      unfold step at hstep
      rw [hpc] at hstep
      cases hstep

end Steps

theorem phase_start {s : State} (hs : Started s) : Phase s := by
  refine .before ⟨hs.greeted, hs.failed, hs.wire, ?_, ?_⟩
  · rw [hs.pc]
    trivial
  · intro origin w hw
    rw [hs.writing] at hw
    cases hw

/-- In every run in which nothing is queued at a drain before the header has been
answered, the header is written first. -/
theorem headerFirst_of_runs {S : Setting} {s t : State} {as : List Action} (hs : Started s)
    (h : Runs (step S) Orderly s as t) : HeaderFirst t := by
  have hphase : Phase t := by
    apply h.invariant (phase_start hs)
    intro u a v hu hok hstep
    exact phase_step hu hok hstep
  exact hphase.headerFirst

/-! ## A stanza sent before the client's header -/

def header : Str := "<stream:stream>".toList

def stanza : Str := "<a/>".toList

/-- The thread handles the header and answers it. -/
def answered : List Action :=
  [.thread, .thread] ++ written XML_START ++ written STREAM_RESP ++ written FEATURES

/-- The stanza is queued while the thread is in `recv`. -/
def sentInTime : List Action :=
  [.accept .connected, .thread, .thread, .send (utf8 stanza),
    .recv (.data (utf8 header) (Expat.reference.report header))] ++
  answered ++ [.thread, .thread] ++ written stanza

/-- The stanza is queued before the client connects. -/
def sentTooEarly : List Action :=
  [.send (utf8 stanza), .accept .connected, .thread] ++ written stanza ++
  [.thread, .recv (.data (utf8 header) (Expat.reference.report header))] ++ answered

def streamOpens : List Event → Bool
  | [] => true
  | .start name _ :: _ => name == "stream:stream".toList
  | _ => false

def opensStream (s : State) : Action → Bool
  | .recv (.data _ events) => s.greeted || streamOpens events
  | _ => true

theorem streamOpens_of_test {events : List Event} (h : streamOpens events = true) :
    StreamOpens events := by
  cases events with
  | nil => exact Or.inl rfl
  | cons e rest =>
      cases e with
      | start name attributes =>
          have hname : name = "stream:stream".toList := eq_of_beq h
          rw [hname]
          exact Or.inr ⟨attributes, rest, rfl⟩
      | data text => cases h
      | stop name => cases h

theorem opensStream_of_test {s : State} {a : Action} (h : opensStream s a = true) :
    OpensStream s a := by
  intro chunk events ha hgreeted
  rw [ha, opensStream, hgreeted, Bool.false_or] at h
  exact streamOpens_of_test h

/-- A test of `Orderly`. -/
def orderly (s : State) (a : Action) : Bool :=
  opensStream s a && match a with
    | .thread =>
        s.greeted || match s.pc with
          | .top => s.send_queue.isEmpty
          | .feeding chunk [] [] [] => !gStrHasSuffix (s.stream ++ chunk) STREAM_END
          | _ => true
    | .write (.sent _) => !s.failed
    | _ => true

theorem orderly_of_test {s : State} {a : Action} (h : orderly s a = true) : Orderly s a := by
  unfold orderly at h
  rw [Bool.and_eq_true] at h
  rcases h with ⟨hopens, h⟩
  constructor
  · exact opensStream_of_test hopens
  · intro ha _ hpc hgreeted
    rw [ha] at h
    simp only [hpc, hgreeted, Bool.false_or, List.isEmpty_iff] at h
    rw [h]
    intro m hm
    cases hm
  · intro chunk ha _ hpc hgreeted
    rw [ha] at h
    simpa [hpc, hgreeted] using h
  · intro count ha hfailed _
    rw [ha] at h
    simp [hfailed] at h

/-- The header is written, and then the stanza. -/
theorem headerFirst_sentInTime : ∃ t, run (step .plain) .idle sentInTime = some t ∧
    headerWire.length < t.wire.length ∧ HeaderFirst t := by
  have hrun : (run (fun u a => if orderly u a then step .plain u a else none) .idle
      sentInTime).any (fun t => headerWire.length < t.wire.length) = true := by decide +kernel
  obtain ⟨t, ht, hlen⟩ := (Option.any_eq_true _ _).mp hrun
  have hruns := runs_of_checked (fun _ _ h => orderly_of_test h) ht
  exact ⟨t, hruns.to_run, of_decide_eq_true hlen, headerFirst_of_runs started_idle hruns⟩

/-- The stanza is written, and then the answer to the client's header. -/
theorem sentTooEarly_first : ∃ t, Runs (step .plain) OpensStream .idle sentTooEarly t ∧
    t.wire = tagged (.queued, utf8 stanza) ++ headerWire ∧ ¬ HeaderFirst t := by
  have hrun : (run (fun u a => if opensStream u a then step .plain u a else none) .idle
      sentTooEarly).any (fun t => t.wire = tagged (.queued, utf8 stanza) ++ headerWire) =
        true := by decide +kernel
  obtain ⟨t, ht, hwire⟩ := (Option.any_eq_true _ _).mp hrun
  have hruns := runs_of_checked (fun _ _ h => opensStream_of_test h) ht
  have heq := of_decide_eq_true hwire
  refine ⟨t, hruns, heq, ?_⟩
  intro hfirst
  unfold HeaderFirst at hfirst
  rw [heq] at hfirst
  exact absurd hfirst (by decide +kernel)

end Stabber.StreamHeader
