import Stabber.CriticalSections
import Stabber.XmlDocument

/-!
# The log

The functions of `log.c`, called by any number of threads, one character of `fprintf` a
step. What is logged comes out as whole entries, in the order of the sections under
`loglock`, and a file that has been closed is not used again, although `log_println` first
looks at two of the statics without the lock. A first call of `log_pre_init` has to be over:
`server_run` makes one before it starts a thread.
-/

namespace Stabber.LogFile
open XmlDocument Transition CriticalSections

/-- `stbbr_log_t`, in its order. -/
inductive LogLevel where
  | logDebug
  | logInfo
  | logWarn
  | logError
deriving Repr, DecidableEq

def LogLevel.value : LogLevel → ℕ
  | .logDebug => 0
  | .logInfo => 1
  | .logWarn => 2
  | .logError => 3

def levelstr : LogLevel → Str
  | .logError => "ERR".toList
  | .logWarn => "WRN".toList
  | .logInfo => "INF".toList
  | .logDebug => "DBG".toList

/-- A call of `log_println`, with the date and the name of the thread. -/
structure Entry where
  date_fmt : Str
  thr_name : Str
  loglevel : LogLevel
  fmt_msg : Str
deriving Repr, DecidableEq

def Entry.text (e : Entry) : Str :=
  e.date_fmt ++ ": [".toList ++ e.thr_name ++ "] [".toList ++ levelstr e.loglevel ++ "] ".toList ++
    e.fmt_msg ++ "\n".toList

/-- The statics, and what is behind them. -/
structure Log where
  /-- The number of the `FILE`, unless the pointer is null. -/
  logp : Option ℕ
  logready : Bool
  minlevel : LogLevel
  /-- The `FILE`s so far, and which of them are open. -/
  files : List Bool
  /-- The contents of the log file. -/
  text : Str
  /-- History: whether a null pointer or a closed `FILE` has been used. -/
  misused : Bool
deriving Repr

namespace Log
variable (s : Log)

def isOpen : Bool :=
  match s.logp with
  | some k => s.files[k]? = some true
  | none => false

/-- `fopen`, which fails or gives a new `FILE`. -/
def fopen (opened : Bool) : Log :=
  if opened then { s with logp := some s.files.length, files := s.files ++ [true] }
  else { s with logp := none }

/-- A character of `fprintf`. -/
def fputc (c : Char) : Log :=
  if s.isOpen then { s with text := s.text ++ [c] } else { s with misused := true }

def fclose : Log :=
  if s.isOpen then { s with files := s.files.set (s.logp.getD 0) false }
  else { s with misused := true }

end Log

inductive Operation where
  /-- With the result of `fopen`. -/
  | logInit (loglevel : LogLevel) (opened : Bool)
  | logPrintln (entry : Entry)
  | logClose
deriving DecidableEq

inductive Body where
  | init (loglevel : LogLevel) (opened : Bool)
  | opening (opened : Bool)
  | opened
  | println (entry : Entry)
  | printing (text rest : Str)
  | close
  | closed

def enter : Operation → Body
  | .logInit loglevel opened => .init loglevel opened
  | .logPrintln entry => .println entry
  | .logClose => .close

/-- The second of the two looks without the lock, at the level. -/
def guard (op : Operation) (s : Log) : Bool :=
  match op with
  | .logPrintln entry => s.minlevel.value ≤ entry.loglevel.value
  | _ => true

/-- A function returns what it has printed. -/
def work (body : Body) (s : Log) : (Body ⊕ Str) × Log :=
  match body with
  | .init loglevel opened => (.inl (.opening opened), { s with minlevel := loglevel })
  | .opening opened => (if opened then .inl .opened else .inr [], s.fopen opened)
  | .opened => (.inr [], { s with logready := true })
  | .println entry =>
      if !s.logready || s.logp.isNone then (.inr [], s)
      else (.inl (.printing entry.text entry.text), s)
  | .printing text (c :: rest) => (.inl (.printing text rest), s.fputc c)
  | .printing text [] => (.inr text, s)
  | .close => (.inl .closed, if s.logready && s.logp.isSome then s.fclose else s)
  | .closed => (.inr [], { s with logready := false })

def procedures : Procedures Log Operation Body Str := ⟨guard, enter, work⟩

/-- The functions at once. -/
def whole : Whole Log Operation Str where
  result
    | .logPrintln entry, s => if !s.logready || s.logp.isNone then [] else entry.text
    | _, _ => []
  after
    | .logInit loglevel opened, s =>
        let s := { s with minlevel := loglevel }.fopen opened
        { s with logready := s.logready || opened }
    | .logPrintln entry, s =>
        if !s.logready || s.logp.isNone then s else entry.text.foldl Log.fputc s
    | .logClose, s =>
        { (if s.logready && s.logp.isSome then s.fclose else s) with logready := false }

/-- Where a thread is in a function, until it asks for the lock. -/
inductive Stage where
  | outside
  /-- Where `log_pre_init` tests the flag. -/
  | entered (op : Operation)
  /-- `log_pre_init` has initialised the lock, and not set the flag. -/
  | initialising (op : Operation)
  /-- `log_pre_init` has returned. -/
  | started (op : Operation)
  /-- `log_println` has found the log ready. -/
  | ready (entry : Entry)

/-- The threads, and the static of `log_pre_init`. -/
structure Logging (ι : Type) where
  loglock_initialized : Bool
  stages : ι → Stage
  sections : System ι Log Operation Body Str

inductive Event (ι : Type) where
  | enter (i : ι) (op : Operation)
  /-- The test of the flag, and `pthread_mutex_init` if it is not set. -/
  | preInit (i : ι)
  | setFlag (i : ι)
  /-- The look at `logready`. -/
  | look (i : ι)
  /-- The rest of a function, from its last look before the lock on. -/
  | locked (a : Act ι Operation)

/-- Whether a thread has come to its last look before the lock, or to the lock. -/
def Stage.admits (stage : Stage) (op : Operation) : Bool :=
  match stage, op with
  | .ready entry, .logPrintln entry' => entry = entry'
  | .started (.logInit loglevel opened), op => op = .logInit loglevel opened
  | .started .logClose, op => op = .logClose
  | _, _ => false

namespace Logging
variable {ι : Type} [DecidableEq ι] (w : Logging ι)

def setStage (i : ι) (stage : Stage) : Logging ι :=
  { w with stages := Function.update w.stages i stage }

/-- A mutex that is initialised once more is free. -/
def step : Event ι → Option (Logging ι)
  | .enter i op =>
      match w.stages i, w.sections.phases i with
      | .outside, .outside => some (w.setStage i (.entered op))
      | _, _ => none
  | .preInit i =>
      match w.stages i with
      | .entered op =>
          if w.loglock_initialized then some (w.setStage i (.started op))
          else some { w.setStage i (.initialising op) with
            sections := { w.sections with lock := none } }
      | _ => none
  | .setFlag i =>
      match w.stages i with
      | .initialising op => some { w.setStage i (.started op) with loglock_initialized := true }
      | _ => none
  | .look i =>
      match w.stages i with
      | .started (.logPrintln entry) =>
          some (w.setStage i (if w.sections.shared.logready then .ready entry else .outside))
      | _ => none
  | .locked (.call i op) =>
      if (w.stages i).admits op then
        (w.sections.step procedures (.call i op)).map fun v =>
          { w.setStage i .outside with sections := v }
      else none
  | .locked a => (w.sections.step procedures a).map fun v => { w with sections := v }

end Logging

/-! ## Each function by itself -/

theorem finishes_printing (text rest : Str) (s : Log) :
    Finishes procedures (.printing text rest) s text (rest.foldl Log.fputc s) := by
  induction rest generalizing s with
  | nil => exact .done rfl
  | cons c rest ih => exact .next rfl (ih (s.fputc c))

theorem meets_whole : Meets procedures whole := by
  intro op s
  cases op with
  | logInit loglevel opened =>
      refine .next rfl ?_
      cases opened with
      | false =>
          refine .done ?_
          change (_, Log.fopen _ false) = _
          simp [Log.fopen, whole]
      | true =>
          refine .next rfl (.done ?_)
          change (_, { Log.fopen _ true with logready := true }) = _
          simp [Log.fopen, whole]
  | logPrintln entry =>
      cases hready : !s.logready || s.logp.isNone with
      | true =>
          refine .done ?_
          change work (.println entry) s = _
          simp only [work, whole, hready, if_true]
      | false =>
          have hwork : work (.println entry) s = (.inl (.printing entry.text entry.text), s) := by
            simp only [work, hready, Bool.false_eq_true, if_false]
          refine .next hwork ?_
          have hfinish := finishes_printing entry.text entry.text s
          simp only [whole, hready, Bool.false_eq_true, if_false]
          exact hfinish
  | logClose => exact .next rfl (.done rfl)

/-! ## What is printed -/

section Threads
variable {ι : Type}

/-- The text of the sections so far. -/
def printed (sections : List (ι × Operation × Str)) : Str := sections.flatMap fun x => x.2.2

variable [DecidableEq ι] {w w' : Logging ι}

/-- What an event is for the sections. -/
def Event.act : Event ι → Option (Act ι Operation)
  | .locked a => some a
  | _ => none

/-- The thread has found the log ready. -/
def FoundReady (w : Logging ι) (es : List (Event ι)) (i : ι) : Prop :=
  ∃ bs cs u, es = bs ++ .look i :: cs ∧ run Logging.step w bs = some u ∧
    u.sections.shared.logready = true

/-- And then the level of its entry high enough. -/
def Looked (w : Logging ι) (es : List (Event ι)) (i : ι) (entry : Entry) : Prop :=
  ∃ bs cs v, es = bs ++ .locked (.call i (.logPrintln entry)) :: cs ∧ FoundReady w bs i ∧
    run Logging.step w bs = some v ∧
    v.sections.shared.minlevel.value ≤ entry.loglevel.value

theorem FoundReady.more {es : List (Event ι)} {i : ι} (h : FoundReady w es i) (e : Event ι) :
    FoundReady w (es ++ [e]) i := by
  obtain ⟨bs, cs, u, rfl, hu⟩ := h
  refine ⟨bs, cs ++ [e], u, ?_, hu⟩
  rw [List.append_assoc, List.cons_append]

theorem Looked.more {es : List (Event ι)} {i : ι} {entry : Entry} (h : Looked w es i entry)
    (e : Event ι) : Looked w (es ++ [e]) i entry := by
  obtain ⟨bs, cs, v, rfl, hv⟩ := h
  refine ⟨bs, cs ++ [e], v, ?_, hv⟩
  rw [List.append_assoc, List.cons_append]

end Threads

/-! ## A log that is closed before an entry -/

def unlocked : Logging ℕ where
  loglock_initialized := true
  stages _ := .outside
  sections := ⟨⟨none, false, .logInfo, [], [], false⟩, none, fun _ => .outside, []⟩

def entry (fmt_msg : Str) : Entry := ⟨"now".toList, "main".toList, .logInfo, fmt_msg⟩

/-- A section that is not disturbed. -/
def alone (i n : ℕ) : List (Event ℕ) :=
  (Act.acquire i :: (List.replicate n (Act.work i) ++ [Act.release i])).map .locked

end Stabber.LogFile
