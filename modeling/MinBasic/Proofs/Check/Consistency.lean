import MinBasic.Proofs.Check.Occurrence

/-!
# Histories of a pass are consistent

A pass that starts fresh and parses any inputs, on any streams, keeps its counts,
its output and its events in step, whether its runs end with a status, with a
refused report or with a refused input.  The counts after a run are the numbers
of what happened in all runs so far; reports are numbered through, and lines
only go forward.
-/

namespace MinBasic.Check

open Channel Diagnostic Lexical

/-! ## The lines that a log shows -/

/-- The stamps of a log lie between two lines and never go back; if both lines
are known, every report has a stamp. -/
structure Stamped (low high : Int) (log : Log) : Prop where
  within : ∀ stamp ∈ log.stamps, low ≤ stamp ∧ stamp ≤ high
  ordered : log.stamps.Pairwise (· ≤ ·)
  shown : 0 < low → ∀ report ∈ log.reports, report.line?.isSome

namespace Stamped

variable {low middle middle' high : Int} {first second : Log}

theorem nothing (low high : Int) : Stamped low high [] where
  within := by simp [Log.stamps]
  ordered := List.Pairwise.nil
  shown := by simp [Log.reports]

/-- Stamps go on from one log to the next, if the second begins where the first
ends or after that. -/
theorem join (stamped : Stamped low middle first) (stamped' : Stamped middle' high second)
    (forward : middle ≤ middle') (above : low ≤ middle') (below : middle ≤ high) :
    Stamped low high (first ++ second) where
  within := by
    intro stamp member
    rw [Log.stamps_append] at member
    rcases List.mem_append.mp member with member | member
    · have := stamped.within stamp member
      omega
    · have := stamped'.within stamp member
      omega
  ordered := by
    rw [Log.stamps_append, List.pairwise_append]
    refine ⟨stamped.ordered, stamped'.ordered, ?_⟩
    intro stamp member stamp' member'
    have := stamped.within stamp member
    have := stamped'.within stamp' member'
    omega
  shown := by
    intro known report member
    rw [Log.reports_append] at member
    rcases List.mem_append.mp member with member | member
    · exact stamped.shown known report member
    · exact stamped'.shown (Int.lt_of_lt_of_le known above) report member

end Stamped

namespace Pass

/-- What happens when a lexeme is read is stamped with the line of the pass. -/
theorem stamped_lexemeLog (lexeme : Lexeme) (pass : Pass) (reporter : Reporter) :
    Stamped pass.cursor.line pass.cursor.line (lexemeLog lexeme pass reporter) := by
  rcases lexeme with ⟨token | fault | _, start, text⟩
  · constructor <;> simp [lexemeLog, Log.stamps, Log.reports]
  · -- A report shows the line of the pass only if that is known.
    by_cases known : 0 < pass.cursor.line
    · have shownLine : (pass.cursor.line.toNat : Int) = pass.cursor.line :=
        Int.toNat_of_nonneg (Int.le_of_lt known)
      constructor <;> simp [lexemeLog, Log.stamps, Log.reports, Report.ofCursor, known, shownLine]
    · constructor <;> simp [lexemeLog, Log.stamps, Log.reports, Report.ofCursor, known]
  · exact .nothing _ _

theorem line_readLexeme (lexeme : Lexeme) (pass : Pass) (reporter : Reporter) :
    (readLexeme lexeme pass reporter).state.cursor.line = pass.cursor.line := by
  rcases lexeme with ⟨token | fault | _, start, text⟩ <;> rfl

/-- What happens on a line leaves the pass on the line that it is stamped with. -/
theorem stamped_lexemes (lexemes : List Lexeme) (pass : Pass) (reporter : Reporter) :
    (Progress.forEach readLexeme lexemes pass reporter).state.cursor.line = pass.cursor.line ∧
      Stamped pass.cursor.line pass.cursor.line
        (Progress.logEach readLexeme lexemeLog lexemes pass reporter) := by
  apply Progress.forEach_logEach (R := fun pass _ log (done : Progress Pass) =>
    done.state.cursor.line = pass.cursor.line ∧ Stamped pass.cursor.line pass.cursor.line log)
  · intro pass reporter
    exact ⟨rfl, .nothing _ _⟩
  · rintro pass reporter first second done later ⟨line_eq, stamped⟩ - ⟨line_eq', stamped'⟩
    rw [line_eq] at line_eq' stamped'
    exact ⟨line_eq', stamped.join stamped' (Int.le_refl _) (Int.le_refl _) (Int.le_refl _)⟩
  · intro lexeme pass reporter
    exact ⟨line_readLexeme lexeme pass reporter, stamped_lexemeLog lexeme pass reporter⟩

/-- Between two states lines go forward: what happens is stamped with lines after
that of the first and up to that of the second. -/
structure Forward (before : Pass) (log : Log) (after : Pass) : Prop where
  line_le : before.cursor.line ≤ after.cursor.line
  stamped : Stamped (before.cursor.line + 1) after.cursor.line log

theorem Forward.nothing (pass : Pass) : Forward pass [] pass where
  line_le := Int.le_refl _
  stamped := .nothing _ _

theorem Forward.join {before between after : Pass} {first second : Log}
    (forward : Forward before first between) (forward' : Forward between second after) :
    Forward before (first ++ second) after where
  line_le := Int.le_trans forward.line_le forward'.line_le
  stamped := by
    apply forward.stamped.join forward'.stamped
    · exact Int.le_add_one (Int.le_refl _)
    · exact Int.add_le_add_right forward.line_le 1
    · exact forward'.line_le

/-- Reading a line goes one line forward. -/
theorem forward_readLine (line : Bytes) (pass : Pass) (reporter : Reporter) :
    Forward pass (lineLog line pass reporter) (readLine line pass reporter).state := by
  obtain ⟨line_eq, stamped⟩ := stamped_lexemes (lexemes line) pass.nextLine reporter
  change (readLine line pass reporter).state.cursor.line = pass.cursor.line + 1 at line_eq
  constructor
  · rw [line_eq]
    exact Int.le_add_one (Int.le_refl _)
  · rw [line_eq]
    exact ⟨stamped.within, stamped.ordered, stamped.shown⟩

/-- Reading lines goes forward. -/
theorem forward_readLines (lines : List Bytes) (pass : Pass) (reporter : Reporter) :
    Forward pass (linesLog lines pass reporter) (readLines lines pass reporter).state :=
  Progress.forEach_logEach
    (R := fun pass _ log (done : Progress Pass) => Forward pass log done.state)
    (fun pass _ => .nothing pass) (fun forward _ => forward.join) forward_readLine
    lines pass reporter

/-- No line is read while a line is read. -/
theorem lines_logEach_lexemeLog (lexemes : List Lexeme) (pass : Pass) (reporter : Reporter) :
    Log.lines (Progress.logEach readLexeme lexemeLog lexemes pass reporter) = [] := by
  apply Progress.forEach_logEach (R := fun (_ : Pass) _ log (_ : Progress Pass) =>
    Log.lines log = [])
  · intro pass reporter
    rfl
  · intro pass reporter first second done later none _ none'
    rw [Log.lines_append, none, none', List.append_nil]
  · rintro ⟨token | fault | _, start, text⟩ pass reporter <;> rfl

/-- The lines that are read are the first of the lines there are. -/
theorem lines_linesLog_isPrefix (lines : List Bytes) (pass : Pass) (reporter : Reporter) :
    (linesLog lines pass reporter).lines <+: lines := by
  induction lines generalizing pass reporter with
  | nil => exact List.nil_prefix
  | cons line lines ih =>
      have first : (lineLog line pass reporter).lines = [line] := by
        rw [lineLog, Log.lines_lineRead_cons, lines_logEach_lexemeLog]
      cases refused : (readLine line pass reporter).refusal? with
      | some refusal =>
          rw [linesLog, Progress.logEach_cons_of_refused refused, first]
          exact ⟨lines, rfl⟩
      | none =>
          rw [linesLog, Progress.logEach_cons_of_unrefused refused, Log.lines_append, first]
          exact List.cons_prefix_cons.mpr ⟨rfl, ih _ _⟩

/-! ## Runs -/

/-- A run agrees with its log: the counts and the lines between the states before
and after it, its output, and its events, which end with the totals if it
returns a status. -/
structure Agrees (before : Pass) (sink : Sink) (log : Log) (parsed : Parsed Pass) : Prop where
  counts : Counts before log parsed.state
  forward : Forward before log parsed.state
  output_eq : parsed.output = (sink.write log.rendered).stored
  ending :
    (parsed.result = .ok parsed.state.status ∧
      parsed.events = log.events ++
        [.passFinished parsed.state.cursor.line parsed.state.tokens parsed.state.errors]) ∨
    (∃ refusal, parsed.result = .error refusal ∧ parsed.events = log.events)

theorem Agrees.traces_eq {before : Pass} {sink : Sink} {log : Log} {parsed : Parsed Pass}
    (agrees : Agrees before sink log parsed) : traces parsed.events = log.events := by
  rcases agrees.ending with ⟨-, events_eq⟩ | ⟨-, -, events_eq⟩
  · rw [events_eq, traces_append, traces_passFinished, Log.traces_events, List.append_nil]
  · rw [events_eq, Log.traces_events]

theorem agrees_parseRun (pass : Pass) (run : Run) :
    Agrees pass run.sink (pass.runLog run) (pass.parseRun run) := by
  have tells := tells_readLines run.input.lines pass ⟨run.sink, run.source?⟩
  have forward := forward_readLines run.input.lines pass ⟨run.sink, run.source?⟩
  have output_eq := congrArg Written.stored tells.written_eq
  rw [parseRun]
  cases ended : (readLines run.input.lines pass ⟨run.sink, run.source?⟩).refusal?.or
      run.input.refusal? with
  | some refusal =>
      rw [parse_of_stopped rfl ended]
      exact ⟨tells.counts, forward, output_eq.symm, Or.inr ⟨refusal, rfl, tells.events_eq⟩⟩
  | none =>
      rw [parse_of_finished rfl ended]
      -- The end of a run changes nothing that is counted.
      exact ⟨⟨tells.counts.errors_eq, tells.counts.numbers_eq, tells.counts.tokens_eq,
          tells.counts.line_eq⟩, ⟨forward.line_le, forward.stamped⟩, output_eq.symm,
        Or.inl ⟨rfl, congrArg (· ++ _) tells.events_eq⟩⟩

/-! ## Histories -/

/-- The pass after runs. -/
def afterRuns : Pass → List Run → Pass
  | pass, [] => pass
  | pass, run :: runs => (pass.parseRun run).state.afterRuns runs

/-- What happens in runs, one after the other. -/
def historyLog : Pass → List Run → Log
  | _, [] => []
  | pass, run :: runs => pass.runLog run ++ (pass.parseRun run).state.historyLog runs

theorem parseAll_append_cons (pass : Pass) (earlier : List Run) (run : Run) (later : List Run) :
    pass.parseAll (earlier ++ run :: later) =
      pass.parseAll earlier ++ (pass.afterRuns earlier).parseRun run ::
        ((pass.afterRuns earlier).parseRun run).state.parseAll later := by
  induction earlier generalizing pass with
  | nil => rfl
  | cons first earlier ih => exact congrArg _ (ih _)

@[simp]
theorem length_parseAll (pass : Pass) (runs : List Run) :
    (pass.parseAll runs).length = runs.length := by
  induction runs generalizing pass with
  | nil => rfl
  | cons run runs ih => exact congrArg Nat.succ (ih _)

/-- The states and the events of runs agree with their log. -/
theorem agrees_history (pass : Pass) (runs : List Run) :
    Counts pass (pass.historyLog runs) (pass.afterRuns runs) ∧
      Forward pass (pass.historyLog runs) (pass.afterRuns runs) ∧
      traces ((pass.parseAll runs).flatMap Parsed.events) = (pass.historyLog runs).events := by
  induction runs generalizing pass with
  | nil => exact ⟨.nothing pass, .nothing pass, rfl⟩
  | cons run runs ih =>
      have agrees := pass.agrees_parseRun run
      obtain ⟨counts, forward, traces_eq⟩ := ih (pass.parseRun run).state
      refine ⟨agrees.counts.join counts, agrees.forward.join forward, ?_⟩
      rw [parseAll_cons, List.flatMap_cons, traces_append, agrees.traces_eq, traces_eq,
        historyLog, Log.events_append]

/-- What a run (`parsed`) after others (`before`) on a fresh pass leaves, against
what happened in the others (`earlier`) and in the run itself (`now`).

The counts are the numbers of reports, tokens and lines so far, also of a report
that was refused, and the reports are numbered from 1.  The lines of the run are
those that it read of its input, and its output is what its stream takes of its
reports.  Every report shows its line; lines never go back, and those of the run
are after all earlier ones.  If the run returns a status, which is 0 when nothing
was reported so far, its last event, and no other, notes the totals; a run that
is stopped has no such event. -/
structure Consistent (before : List (Parsed Pass)) (earlier : Log) (run : Run) (now : Log)
    (parsed : Parsed Pass) : Prop where
  errors_eq : parsed.state.errors = (earlier ++ now).reports.length
  numbers_eq : (earlier ++ now).reports.map Report.number =
    List.range' 1 (earlier ++ now).reports.length
  tokens_eq :
    parsed.state.tokens = (traces ((before ++ [parsed]).flatMap Parsed.events)).length
  traces_eq : traces ((before ++ [parsed]).flatMap Parsed.events) = (earlier ++ now).events
  line_eq : parsed.state.cursor.line = (earlier ++ now).lines.length
  read : now.lines <+: run.input.lines
  output_eq : parsed.output = (run.sink.write now.rendered).stored
  shown : ∀ report ∈ now.reports, report.line?.isSome
  ordered : (earlier ++ now).stamps.Pairwise (· ≤ ·)
  later : ∀ stamp ∈ earlier.stamps, ∀ stamp' ∈ now.stamps, stamp < stamp'
  traced : ∀ event ∈ now.events, event.level = .trace
  ending :
    (∃ status, parsed.result = .ok status ∧
      status = (if (earlier ++ now).reports = [] then 0 else 1) ∧
      parsed.events = now.events ++
        [.passFinished parsed.state.cursor.line parsed.state.tokens parsed.state.errors]) ∨
    (∃ refusal, parsed.result = .error refusal ∧ parsed.events = now.events)

/-- Every run of a history of a fresh pass is consistent with what happened in it
and in the runs before it. -/
theorem parseAll_consistent (earlier : List Run) (run : Run) (later : List Run) :
    ∃ before parsed after,
      Pass.parseAll {} (earlier ++ run :: later) = before ++ parsed :: after ∧
        before.length = earlier.length ∧
        Consistent before (historyLog {} earlier) run (runLog (afterRuns {} earlier) run)
          parsed := by
  refine ⟨_, _, _, parseAll_append_cons {} earlier run later, length_parseAll {} earlier, ?_⟩
  obtain ⟨counts, forward, traces_eq⟩ := agrees_history {} earlier
  have agrees := (afterRuns {} earlier).agrees_parseRun run
  generalize afterRuns {} earlier = pass at *
  have total := counts.join agrees.counts
  have onward := forward.join agrees.forward
  have errors_eq := total.errors_eq.trans (Nat.zero_add _)
  have traced : traces ((Pass.parseAll {} earlier ++ [pass.parseRun run]).flatMap
      Parsed.events) = (historyLog {} earlier ++ pass.runLog run).events := by
    rw [List.flatMap_append, List.flatMap_singleton, traces_append, traces_eq,
      agrees.traces_eq, Log.events_append]
  constructor
  · exact errors_eq
  · exact total.numbers_eq
  · rw [total.tokens_eq, traced, Nat.zero_add]
  · exact traced
  · rw [total.line_eq]
    exact Int.zero_add _
  · exact lines_linesLog_isPrefix _ _ _
  · exact agrees.output_eq
  · apply agrees.forward.stamped.shown
    rw [counts.line_eq]
    exact Int.lt_add_one_of_le (Int.natCast_nonneg _)
  · exact onward.stamped.ordered
  · intro stamp member stamp' member'
    have upTo := (forward.stamped.within stamp member).2
    have after := (agrees.forward.stamped.within stamp' member').1
    omega
  · exact fun _ => Log.level_of_mem_events
  · apply agrees.ending.imp_left
    rintro ⟨result_eq, events_eq⟩
    refine ⟨_, result_eq, ?_, events_eq⟩
    rw [status, errors_eq]
    simp only [List.length_eq_zero_iff]

end Pass

end MinBasic.Check
