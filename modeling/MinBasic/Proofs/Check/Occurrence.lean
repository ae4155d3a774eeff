import MinBasic.Check.History

/-!
# What happens in a run of a token pass

The counts and the cursor of a pass say where a run ended, and its output may be
cut.  The log of a run says what happened on the way: each line that is read,
each token that is scanned and each report that is attempted, also one that is
refused.  It is written by going through the same two loops as the run, and as
far as they go.  `Pass.tells_readLines` says that it tells all that the loops
did: what was counted, noted and written, and what stopped them.
-/

namespace MinBasic.Check

open Channel Diagnostic Lexical

/-! ## Logs of work -/

namespace Progress

variable {σ α β : Type}

/-- What is noted of the items of a list that are worked on, each before its
work is done; items after a refused one are not worked on. -/
def logEach (work : α → Work σ) (note : α → σ → Reporter → List β) :
    List α → σ → Reporter → List β
  | [], _, _ => []
  | item :: items, state, reporter =>
      let done := work item state reporter
      note item state reporter ++
        match done.refusal? with
        | some _ => []
        | none => logEach work note items done.state done.reporter

variable {work : α → Work σ} {note : α → σ → Reporter → List β}

theorem logEach_cons_of_refused {item : α} {state : σ} {reporter : Reporter} {refusal : Refusal}
    (refused : (work item state reporter).refusal? = some refusal) (items : List α) :
    logEach work note (item :: items) state reporter = note item state reporter := by
  rw [logEach, refused, List.append_nil]

theorem logEach_cons_of_unrefused {item : α} {state : σ} {reporter : Reporter}
    (unrefused : (work item state reporter).refusal? = none) (items : List α) :
    logEach work note (item :: items) state reporter =
      note item state reporter ++
        logEach work note items (work item state reporter).state
          (work item state reporter).reporter := by
  rw [logEach, unrefused]

/-- What relates the log of each item to its work, and can be joined, relates
the log of a list of items to theirs. -/
theorem forEach_logEach {R : σ → Reporter → List β → Progress σ → Prop}
    (nothing : ∀ state reporter, R state reporter [] (still state reporter))
    (join : ∀ {state reporter first second done later}, R state reporter first done →
      done.refusal? = none → R done.state done.reporter second later →
      R state reporter (first ++ second)
        { later with
          output := done.output ++ later.output, events := done.events ++ later.events })
    (one : ∀ item state reporter,
      R state reporter (note item state reporter) (work item state reporter))
    (items : List α) (state : σ) (reporter : Reporter) :
    R state reporter (logEach work note items state reporter)
      (forEach work items state reporter) := by
  induction items generalizing state reporter with
  | nil => exact nothing state reporter
  | cons item items ih =>
      have first := one item state reporter
      rw [forEach_cons]
      cases refused : (work item state reporter).refusal? with
      | some refusal =>
          rw [logEach_cons_of_refused refused, andThen_of_refused refused]
          exact first
      | none =>
          rw [logEach_cons_of_unrefused refused, andThen_of_unrefused refused]
          exact join first refused (ih _ _)

end Progress

/-! ## Logs of a pass -/

/-- The events of tokens among events. -/
def traces (events : List Event) : List Event :=
  events.filter fun event => event.level = .trace

@[simp]
theorem traces_append (first second : List Event) :
    traces (first ++ second) = traces first ++ traces second :=
  List.filter_append ..

@[simp]
theorem traces_passFinished (lines : Int) (tokens errors : Nat) :
    traces [.passFinished lines tokens errors] = [] :=
  rfl

/-- What happens in a run: a line is read, a token is scanned on a line, or a
report is attempted. -/
inductive Occurrence where
  | lineRead (line : Bytes)
  | scanned (line : Int) (token : Token)
  | attempted (report : Report)
  deriving DecidableEq, Repr

/-- What happened, in order. -/
abbrev Log :=
  List Occurrence

namespace Log

/-- The lines that were read. -/
def lines (log : Log) : List Bytes :=
  log.filterMap fun
    | .lineRead line => some line
    | _ => none

/-- The events that were noted. -/
def events (log : Log) : List Event :=
  log.filterMap fun
    | .scanned line token => some (.scanned line token)
    | _ => none

/-- The reports that were attempted. -/
def reports (log : Log) : List Report :=
  log.filterMap fun
    | .attempted report => some report
    | _ => none

/-- The lines that the reports make. -/
def rendered (log : Log) : Bytes :=
  log.reports.flatMap Report.render

/-- The lines that events and reports are stamped with. -/
def stamps (log : Log) : List Int :=
  log.filterMap fun
    | .lineRead _ => none
    | .scanned line _ => some line
    | .attempted report => report.line?.map Nat.cast

@[simp]
theorem lines_lineRead_cons (line : Bytes) (log : Log) :
    lines (.lineRead line :: log) = line :: log.lines :=
  rfl

/-- The only events on the way are those of tokens. -/
theorem level_of_mem_events {log : Log} {event : Event} (member : event ∈ log.events) :
    event.level = .trace := by
  obtain ⟨occurrence, -, noted⟩ := List.mem_filterMap.mp member
  cases occurrence with
  | scanned line token =>
      obtain rfl := Option.some.inj noted
      rfl
  | lineRead line => contradiction
  | attempted report => contradiction

theorem lines_append (first second : Log) :
    lines (first ++ second) = lines first ++ lines second :=
  List.filterMap_append

theorem events_append (first second : Log) :
    events (first ++ second) = events first ++ events second :=
  List.filterMap_append

theorem reports_append (first second : Log) :
    reports (first ++ second) = reports first ++ reports second :=
  List.filterMap_append

theorem rendered_append (first second : Log) :
    rendered (first ++ second) = rendered first ++ rendered second := by
  rw [rendered, reports_append, List.flatMap_append]
  rfl

theorem stamps_append (first second : Log) :
    stamps (first ++ second) = stamps first ++ stamps second :=
  List.filterMap_append

@[simp]
theorem traces_events (log : Log) : traces log.events = log.events :=
  List.filter_eq_self.mpr fun _ member => decide_eq_true (level_of_mem_events member)

end Log

namespace Pass

/-- What happens when a lexeme is read. -/
def lexemeLog (lexeme : Lexeme) (pass : Pass) (reporter : Reporter) : Log :=
  match lexeme.reading with
  | .token token => [.scanned pass.cursor.line token]
  | .fault fault =>
      [.attempted (.ofCursor (pass.errors + 1) reporter.source?
        (pass.cursor.withText lexeme.text) fault.message)]
  | .endOfText => []

/-- What happens when a line is read. -/
def lineLog (line : Bytes) (pass : Pass) (reporter : Reporter) : Log :=
  .lineRead line ::
    Progress.logEach readLexeme lexemeLog (lexemes line) pass.nextLine reporter

/-- What happens when lines are read in order. -/
def linesLog (lines : List Bytes) (pass : Pass) (reporter : Reporter) : Log :=
  Progress.logEach readLine lineLog lines pass reporter

/-- What happens in a run. -/
def runLog (pass : Pass) (run : Run) : Log :=
  linesLog run.input.lines pass { sink := run.sink, source? := run.source? }

/-! ## What a log tells -/

/-- A log tells what was counted between two states, and its reports are numbered
on from the errors counted before. -/
structure Counts (before : Pass) (log : Log) (after : Pass) : Prop where
  errors_eq : after.errors = before.errors + log.reports.length
  numbers_eq :
    log.reports.map Report.number = List.range' (before.errors + 1) log.reports.length
  tokens_eq : after.tokens = before.tokens + log.events.length
  line_eq : after.cursor.line = before.cursor.line + log.lines.length

namespace Counts

variable {before between after : Pass} {first second log : Log}

theorem nothing (pass : Pass) : Counts pass [] pass where
  errors_eq := rfl
  numbers_eq := rfl
  tokens_eq := rfl
  line_eq := (Int.add_zero _).symm

/-- Counting goes on from one log to the next. -/
theorem join (counts : Counts before first between) (counts' : Counts between second after) :
    Counts before (first ++ second) after where
  errors_eq := by
    rw [counts'.errors_eq, counts.errors_eq, Log.reports_append, List.length_append,
      Nat.add_assoc]
  numbers_eq := by
    have next : before.errors + 1 + first.reports.length = between.errors + 1 := by
      rw [counts.errors_eq, Nat.add_right_comm]
    rw [Log.reports_append, List.map_append, counts.numbers_eq, counts'.numbers_eq,
      List.length_append, ← List.range'_append_1, next]
  tokens_eq := by
    rw [counts'.tokens_eq, counts.tokens_eq, Log.events_append, List.length_append,
      Nat.add_assoc]
  line_eq := by
    rw [counts'.line_eq, counts.line_eq, Log.lines_append, List.length_append,
      Int.natCast_add, Int.add_assoc]

end Counts

/-- A log tells what work did: what it counted, the events, and the outcome of
writing the reports. -/
structure Tells (pass : Pass) (reporter : Reporter) (log : Log) (done : Progress Pass) :
    Prop where
  counts : Counts pass log done.state
  events_eq : done.events = log.events
  written_eq : reporter.sink.write log.rendered = ⟨done.reporter.sink, done.output, done.refusal?⟩

namespace Tells

variable {pass : Pass} {reporter : Reporter} {first second : Log} {done later : Progress Pass}

theorem nothing (pass : Pass) (reporter : Reporter) :
    Tells pass reporter [] (.still pass reporter) where
  counts := .nothing pass
  events_eq := rfl
  written_eq := Sink.write_nil reporter.sink

/-- Logs of work that goes on can be joined. -/
theorem join (tells : Tells pass reporter first done) (unrefused : done.refusal? = none)
    (tells' : Tells done.state done.reporter second later) :
    Tells pass reporter (first ++ second)
      { later with
        output := done.output ++ later.output, events := done.events ++ later.events } where
  counts := tells.counts.join tells'.counts
  events_eq := by
    rw [tells.events_eq, tells'.events_eq, Log.events_append]
  written_eq := by
    have accepted : (reporter.sink.write first.rendered).refusal? = none := by
      rw [tells.written_eq, unrefused]
    rw [Log.rendered_append, Sink.write_append accepted, tells.written_eq, tells'.written_eq]

end Tells

/-- The log of a lexeme tells what reading it does. -/
theorem tells_readLexeme (lexeme : Lexeme) (pass : Pass) (reporter : Reporter) :
    Tells pass reporter (lexemeLog lexeme pass reporter) (readLexeme lexeme pass reporter) := by
  have sameLine : pass.cursor.line = pass.cursor.line + (0 : Nat) := (Int.add_zero _).symm
  rcases lexeme with ⟨token | fault | _, start, text⟩
  · exact ⟨⟨rfl, rfl, rfl, sameLine⟩, rfl, Sink.write_nil reporter.sink⟩
  · refine ⟨⟨rfl, rfl, rfl, sameLine⟩, rfl, ?_⟩
    exact congrArg reporter.sink.write (List.append_nil _)
  · exact .nothing pass reporter

/-- The log of a line tells what reading it does. -/
theorem tells_readLine (line : Bytes) (pass : Pass) (reporter : Reporter) :
    Tells pass reporter (lineLog line pass reporter) (readLine line pass reporter) := by
  have tells := Progress.forEach_logEach Tells.nothing Tells.join tells_readLexeme
    (lexemes line) pass.nextLine reporter
  refine { tells with counts := { tells.counts with line_eq := ?_ } }
  rw [readLine, tells.counts.line_eq, lineLog, Log.lines_lineRead_cons, List.length_cons,
    Int.natCast_succ, Int.add_comm _ 1, ← Int.add_assoc]
  rfl

/-- The log of lines tells what reading them does. -/
theorem tells_readLines (lines : List Bytes) (pass : Pass) (reporter : Reporter) :
    Tells pass reporter (linesLog lines pass reporter) (readLines lines pass reporter) :=
  Progress.forEach_logEach Tells.nothing Tells.join tells_readLine lines pass reporter

/-! ## How a run ends -/

variable {pass : Pass} {reporter : Reporter} {input : Input} {progress : Progress Pass}

/-- A run that a report or its input stops ends where reading its lines ended. -/
theorem parse_of_stopped {refusal : Refusal}
    (read : readLines input.lines pass reporter = progress)
    (stopped : progress.refusal?.or input.refusal? = some refusal) :
    pass.parse reporter input =
      { state := progress.state
        reporter := progress.reporter
        output := progress.output
        events := progress.events
        result := .error refusal } := by
  rw [parse, read, stopped]

/-- A run that nothing stops notes its totals at the end. -/
theorem parse_of_finished (read : readLines input.lines pass reporter = progress)
    (finished : progress.refusal?.or input.refusal? = none) :
    pass.parse reporter input =
      { state := progress.state.finish
        reporter := progress.reporter
        output := progress.output
        events := progress.events ++
          [.passFinished progress.state.cursor.line progress.state.tokens progress.state.errors]
        result := .ok progress.state.status } := by
  rw [parse, read, finished]
  rfl

end Pass

end MinBasic.Check
