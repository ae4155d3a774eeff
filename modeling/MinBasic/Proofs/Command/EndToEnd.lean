import MinBasic.Command.Execute
import MinBasic.Proofs.Check.Received

/-!
# The program from end to end

What a call of the program does is told by its arguments and its input alone:
the exit status, the report lines and the line that says why it failed.  The
stream for the diagnostics only says where the report lines go, unless it takes
less than all of them.  The relation `Ends` has one rule for each way to end;
every call ends by one of them, and the program does what the rule says.
-/

namespace MinBasic.Command

open Channel Check Diagnostic Lexical Text

/-! ## Ways to end -/

/-- The input that is opened for the arguments behind the name of the program:
the standard input, or the source under a path that does not look like a flag. -/
inductive Opens (host : Host) : List String → Option String → Input → Prop where
  | stdin : Opens host [] none host.stdin
  | source {path : String} {input : Input} (noFlag : path.toList.head? ≠ some '-')
      (opened : host.openSource path = .ok input) : Opens host [path] (some path) input

/-- Arguments that are no invocation: more than one, or one that looks like a
flag. -/
def IsMisuse (sources : List String) : Prop :=
  1 < sources.length ∨ ∃ source ∈ sources.head?, source.toList.head? = some '-'

/-- What a call does: its exit status, its report lines, and the line that says
why it failed, which is empty if it did not. -/
structure Outcome where
  status : Int
  reported : Bytes
  failure : Bytes

/-- A message as a line on standard error. -/
def failureLine (message : String) : Bytes :=
  Utf8.encode message ++ [Ascii.newline]

/-- The report lines of a program text for a source, which are said to be of that
source if names are switched on. -/
def reportsOf (names : Bool) (source? : Option String) (content : Bytes) : Bytes :=
  (inputReports (if names then source? else none) 0 0 content).flatMap Report.render

/-- How a call ends, by the name of the program and the arguments behind it. -/
inductive Ends (host : Host) (program : String) (names : Bool) : List String → Outcome → Prop where
  | misused {sources : List String} (isMisuse : IsMisuse sources) :
      Ends host program names sources
        ⟨1, [], failureLine ("usage: " ++ program ++ " [source]")⟩
  | closed {path : String} {refusal : Refusal} (noFlag : path.toList.head? ≠ some '-')
      (refused : host.openSource path = .error refusal) :
      Ends host program names [path] ⟨1, [], failureLine (path ++ ": " ++ refusal.reason)⟩
  | broken {sources : List String} {source? : Option String} {input : Input} {refusal : Refusal}
      {whole : Bytes} (opens : Opens host sources source? input)
      (broken : input.refusal? = some refusal)
      (isLongest : IsLongestPrefix completeTexts input.content whole) :
      Ends host program names sources
        ⟨1, reportsOf names source? whole, failureLine (program ++ ": " ++ refusal.reason)⟩
  | finished {sources : List String} {source? : Option String} {input : Input}
      (opens : Opens host sources source? input) (ended : input.refusal? = none) :
      Ends host program names sources
        ⟨if findings (marks input.content) = [] then 0 else 1,
          reportsOf names source? input.content, []⟩

/-- The input that is opened is read to its end and has no fault in it. -/
def IsClean (host : Host) (sources : List String) : Prop :=
  ∃ source? input, Opens host sources source? input ∧ input.refusal? = none ∧
    findings (marks input.content) = []

variable {host : Host} {program : String} {names : Bool} {sources : List String}
variable {source? : Option String} {input : Input} {outcome : Outcome}

theorem Opens.unique {source?' : Option String} {input' : Input}
    (opens : Opens host sources source? input) (opens' : Opens host sources source?' input') :
    source? = source?' ∧ input = input' := by
  cases opens with
  | stdin =>
      cases opens'
      exact ⟨rfl, rfl⟩
  | source noFlag opened =>
      cases opens' with
      | source noFlag' opened' =>
          rw [opened] at opened'
          exact ⟨rfl, Except.ok.inj opened'⟩

/-- Arguments that are no invocation open nothing. -/
theorem Opens.not_isMisuse (opens : Opens host sources source? input) : ¬ IsMisuse sources := by
  cases opens with
  | stdin => simp [IsMisuse]
  | source noFlag opened => simpa [IsMisuse] using noFlag

/-- Every call ends in some way. -/
theorem exists_ends (host : Host) (program : String) (names : Bool) (sources : List String) :
    ∃ outcome, Ends host program names sources outcome := by
  have ends_of_opens {source? : Option String} {input : Input}
      (opens : Opens host sources source? input) :
      ∃ outcome, Ends host program names sources outcome := by
    cases ending : input.refusal? with
    | none => exact ⟨_, .finished opens ending⟩
    | some refusal => exact ⟨_, .broken opens ending (input.isLongestPrefix_received ending).1⟩
  match sources with
  | [] => exact ends_of_opens .stdin
  | [path] =>
      by_cases isFlag : path.toList.head? = some '-'
      · exact ⟨_, .misused (Or.inr ⟨path, rfl, isFlag⟩)⟩
      · cases opened : host.openSource path with
        | error refusal => exact ⟨_, .closed isFlag opened⟩
        | ok input => exact ends_of_opens (.source isFlag opened)
  | _ :: _ :: more => exact ⟨_, .misused (Or.inl (Nat.succ_lt_succ (Nat.succ_pos _)))⟩

/-! ## The status of an outcome -/

theorem failureLine_ne_nil (message : String) : failureLine message ≠ [] :=
  List.append_ne_nil_of_right_ne_nil _ (List.cons_ne_nil _ _)

/-- There are no report lines exactly where there is no fault. -/
theorem reportsOf_eq_nil_iff {content : Bytes} :
    reportsOf names source? content = [] ↔ findings (marks content) = [] := by
  have render_ne_nil (report : Report) : report.render ≠ [] :=
    List.append_ne_nil_of_right_ne_nil _ (List.cons_ne_nil _ _)
  rw [reportsOf, List.flatMap_eq_nil_iff, inputReports, ← List.zipIdx_eq_nil_iff,
    ← @List.map_eq_nil_iff _ _ fun numbered : Finding × Nat =>
      numbered.1.report numbered.2 (if names then source? else none) 0]
  constructor
  · intro none
    exact List.eq_nil_iff_forall_not_mem.mpr fun report member =>
      render_ne_nil report (none report member)
  · intro none report member
    rw [none] at member
    contradiction

/-- A call ends with status 0 exactly where its input is clean, and then, and only
then, it has nothing to write. -/
theorem Ends.status_cases (ends : Ends host program names sources outcome) :
    (outcome.status = 0 ∧ IsClean host sources ∧ outcome.reported = [] ∧ outcome.failure = []) ∨
      (outcome.status = 1 ∧ ¬ IsClean host sources ∧
        (outcome.reported ≠ [] ∨ outcome.failure ≠ [])) := by
  cases ends with
  | misused isMisuse =>
      refine Or.inr ⟨rfl, ?_, Or.inr (failureLine_ne_nil _)⟩
      rintro ⟨_, _, opens, -⟩
      exact opens.not_isMisuse isMisuse
  | closed noFlag refused =>
      refine Or.inr ⟨rfl, ?_, Or.inr (failureLine_ne_nil _)⟩
      rintro ⟨_, _, opens, -⟩
      cases opens with
      | source noFlag opened =>
          rw [refused] at opened
          contradiction
  | broken opens broken isLongest =>
      refine Or.inr ⟨rfl, ?_, Or.inr (failureLine_ne_nil _)⟩
      rintro ⟨_, _, opens', ended, -⟩
      rw [← (opens.unique opens').2, broken] at ended
      contradiction
  | @finished _ source? input opens ended =>
      have isClean_iff : IsClean host sources ↔ findings (marks input.content) = [] := by
        constructor
        · rintro ⟨_, _, opens', -, clean⟩
          rwa [(opens.unique opens').2]
        · exact fun clean => ⟨source?, input, opens, ended, clean⟩
      rw [isClean_iff]
      by_cases clean : findings (marks input.content) = []
      · exact Or.inl ⟨if_pos clean, clean, reportsOf_eq_nil_iff.mpr clean, rfl⟩
      · exact Or.inr ⟨if_neg clean, clean, Or.inl (mt reportsOf_eq_nil_iff.mp clean)⟩

/-! ## Doing what the rules say -/

/-- A conclusion that wrote the report lines of an outcome to a sink and ended as
the outcome does, unless that write was refused. -/
structure Leaves (sink : Sink) (program : String) (outcome : Outcome)
    (conclusion : Conclusion Pass) : Prop where
  output_eq : conclusion.output = (sink.write outcome.reported).stored
  status_eq : exitStatus conclusion.result =
    (sink.write outcome.reported).refusal?.elim outcome.status fun _ => 1
  notice_eq : notice conclusion.result =
    (sink.write outcome.reported).refusal?.elim outcome.failure fun refusal =>
      failureLine (program ++ ": " ++ refusal.reason)

/-- A run that fails before it reads writes nothing. -/
theorem leaves_of_failure (sink : Sink) (program : String) (pass : Pass) (failure : Failure) :
    Leaves sink program ⟨1, [], failureLine failure.message⟩
      { state := pass, result := .error failure } := by
  constructor <;> rw [Sink.write_nil] <;> rfl

/-- Where an input is opened the parser is driven over it. -/
theorem Opens.drive_eq {σ : Type} (opens : Opens host sources source? input) (parse : Parser σ)
    (state : σ) (settings : Settings) :
    drive parse state settings host (program :: sources) =
      driveOver parse state settings host ⟨program, source?⟩ input := by
  cases opens with
  | stdin => rfl
  | source noFlag opened =>
      have noFlag : isFlag _ = false := decide_eq_false noFlag
      simp only [drive, Invocation.ofArguments, noFlag, Bool.false_eq_true, if_false, openInput,
        opened]

/-- A run over an input ends as its parser does. -/
theorem driveOver_eq {σ : Type} (parse : Parser σ) (state : σ) (settings : Settings) (host : Host)
    (invocation : Invocation) (input : Input) :
    let parsed := parse state (reporter settings host invocation.source?) input
    let conclusion := driveOver parse state settings host invocation input
    conclusion.output = parsed.output ∧
      conclusion.result = parsed.result.mapError (.stopped invocation.program) := by
  simp only [driveOver]
  generalize parse state (reporter settings host invocation.source?) input = parsed
  obtain ⟨_, _, _, _, status | refusal⟩ := parsed
  · exact ⟨rfl, rfl⟩
  · exact ⟨rfl, rfl⟩

/-- A run has the status of its parser, unless a report or the input is refused. -/
theorem exitStatus_of_refusals (report? input? : Option Refusal) (status : Int)
    (failure : Refusal → Failure) :
    exitStatus (.mapError failure (report?.elim (input?.elim (.ok status) .error) .error)) =
      report?.elim (input?.elim status fun _ => 1) fun _ => 1 := by
  cases report? <;> cases input? <;> rfl

/-- A run gives notice of a refused report, or else of a refused input. -/
theorem notice_of_refusals (report? input? : Option Refusal) (status : Int)
    (failure : Refusal → Failure) :
    notice (.mapError failure (report?.elim (input?.elim (.ok status) .error) .error)) =
      report?.elim (input?.elim [] fun refusal => failureLine (failure refusal).message)
        fun refusal => failureLine (failure refusal).message := by
  cases report? <;> cases input? <;> rfl

/-- A run over an opened input leaves the report lines of what it received. -/
theorem leaves_driveOver (settings : Settings) (source? : Option String) (input : Input) :
    Leaves (host.sink settings.target) program
      { status := input.refusal?.elim
          (if findings (marks input.received) = [] then 0 else 1) fun _ => 1
        reported := reportsOf settings.fileClause source? input.received
        failure := input.refusal?.elim [] fun refusal =>
          failureLine (program ++ ": " ++ refusal.reason) }
      (driveOver Pass.parse {} settings host ⟨program, source?⟩ input) := by
  let shown? := if settings.fileClause then source? else none
  obtain ⟨freeOutput, -, freeResult⟩ := Pass.parse_reports 0 0 0 [] shown? input
  obtain ⟨output_eq, result_eq⟩ := Pass.parse_eq_write {} (host.sink settings.target) shown? input
  obtain ⟨concluded, ended⟩ := driveOver_eq Pass.parse {} settings host ⟨program, source?⟩ input
  have freeOutput : (Pass.parse {} ⟨.unlimited, shown?⟩ input).output =
      reportsOf settings.fileClause source? input.received := freeOutput
  have freeResult : (Pass.parse {} ⟨.unlimited, shown?⟩ input).result = input.refusal?.elim
      (.ok (if findings (marks input.received) = [] then 0 else 1)) .error := by
    simp only [Nat.zero_add, List.length_eq_zero_iff] at freeResult
    exact freeResult
  rw [freeOutput] at output_eq result_eq
  rw [freeResult] at result_eq
  have ended := ended.trans (congrArg _ result_eq)
  constructor
  · exact concluded.trans output_eq
  · rw [ended]
    exact exitStatus_of_refusals _ _ _ _
  · rw [ended]
    exact notice_of_refusals _ _ _ _

theorem IsMisuse.ofArguments_eq (isMisuse : IsMisuse sources) :
    Invocation.ofArguments (program :: sources) = .error (.usage program) := by
  match sources, isMisuse with
  | [], isMisuse => simp [IsMisuse] at isMisuse
  | [source], isMisuse =>
      have flag : isFlag source = true := by simpa [IsMisuse, isFlag] using isMisuse
      rw [Invocation.ofArguments, if_pos flag]
  | _ :: _ :: _, _ => rfl

/-- What a run leaves is what the rule of its ending says. -/
theorem Ends.leaves {settings : Settings}
    (ends : Ends host program settings.fileClause sources outcome) :
    Leaves (host.sink settings.target) program outcome
      (drive Pass.parse {} settings host (program :: sources)) := by
  cases ends with
  | misused isMisuse =>
      rw [drive, isMisuse.ofArguments_eq]
      exact leaves_of_failure _ program {} (.usage program)
  | closed noFlag refused =>
      have noFlag : isFlag _ = false := decide_eq_false noFlag
      simp only [drive, Invocation.ofArguments, noFlag, Bool.false_eq_true, if_false, openInput,
        refused]
      exact leaves_of_failure _ program {} (.notOpened _ _)
  | @broken _ source? input refusal whole opens broken isLongest =>
      have left := @leaves_driveOver host program settings source? input
      rw [broken] at left
      rw [opens.drive_eq, isLongest.unique (input.isLongestPrefix_received broken).1]
      exact left
  | @finished _ source? input opens ended =>
      have left := @leaves_driveOver host program settings source? input
      rw [ended, input.received_of_ended ended] at left
      rw [opens.drive_eq]
      exact left

/-- A call ends in one way. -/
theorem Ends.unique {outcome' : Outcome} (ends : Ends host program names sources outcome)
    (ends' : Ends host program names sources outcome') : outcome = outcome' := by
  -- On standard error nothing is refused, and a run shows all of its outcome.
  let settings : Settings := ⟨.stderr, names⟩
  have left : Leaves .unlimited program outcome
      (drive Pass.parse {} settings host (program :: sources)) :=
    @Ends.leaves host program sources outcome settings ends
  have left' : Leaves .unlimited program outcome'
      (drive Pass.parse {} settings host (program :: sources)) :=
    @Ends.leaves host program sources outcome' settings ends'
  obtain ⟨status, reported, failure⟩ := outcome
  obtain ⟨status', reported', failure'⟩ := outcome'
  obtain rfl : status = status' := left.status_eq.symm.trans left'.status_eq
  obtain rfl : reported = reported' := left.output_eq.symm.trans left'.output_eq
  obtain rfl : failure = failure' := left.notice_eq.symm.trans left'.notice_eq
  rfl

/-- Without a name for the program its default name is used. -/
theorem drive_eq_drive_cons {σ : Type} (parse : Parser σ) (state : σ) (settings : Settings)
    (host : Host) (texts : List String) :
    drive parse state settings host texts =
      drive parse state settings host (texts.head?.getD defaultProgram :: texts.tail) := by
  cases texts with
  | nil => rfl
  | cons program sources => rfl

/-! ## The program -/

/-- What an outcome leaves on the streams: the report lines on the stream for the
diagnostics, as far as it takes them, and the line of a failure on standard
error.  Report lines that are refused are a failure themselves. -/
def Outcome.exit (outcome : Outcome) (program : String) (target : Target) (stdout : Sink) : Exit :=
  match target, (stdout.write outcome.reported).refusal? with
  | .stderr, _ => ⟨outcome.status, [], outcome.reported ++ outcome.failure⟩
  | .stdout, none => ⟨outcome.status, outcome.reported, outcome.failure⟩
  | .stdout, some refusal =>
      ⟨1, (stdout.write outcome.reported).stored, failureLine (program ++ ": " ++ refusal.reason)⟩

theorem Leaves.execute_eq {call : Call}
    (leaves : Leaves (host.sink call.settings.target) program outcome
      (drive Pass.parse {} call.settings host call.texts)) :
    execute host call = outcome.exit program call.settings.target host.stdout := by
  obtain ⟨output_eq, status_eq, notice_eq⟩ := leaves
  simp only [execute, output_eq, status_eq, notice_eq]
  cases call.settings.target with
  | stderr => rfl
  | stdout =>
      cases refused : (host.stdout.write outcome.reported).refusal? with
      | none =>
          simp only [Outcome.exit, Host.sink, refused, Option.elim_none,
            Sink.stored_eq_of_not_refused refused]
      | some refusal => simp only [Outcome.exit, Host.sink, refused, Option.elim_some]

/-- The streams are empty exactly where the status is 0. -/
theorem Ends.status_exit (ends : Ends host program names sources outcome) (target : Target)
    (stdout : Sink) :
    let exit := outcome.exit program target stdout
    (exit.status = 0 ∨ exit.status = 1) ∧ (exit.status = 0 ↔ IsClean host sources) ∧
      (exit.status = 0 ↔ exit.stdout = [] ∧ exit.stderr = []) := by
  intro exit
  rcases ends.status_cases with ⟨status_eq, clean, nothing, noFailure⟩ | ⟨status_eq, notClean, some⟩
  · have exit_eq : exit = ⟨0, [], []⟩ := by
      unfold exit
      cases target <;> simp [Outcome.exit, status_eq, nothing, noFailure]
    rw [exit_eq]
    exact ⟨Or.inl rfl, iff_of_true rfl clean, iff_of_true rfl ⟨rfl, rfl⟩⟩
  · have shown : exit.status = 1 ∧ (exit.stdout ≠ [] ∨ exit.stderr ≠ []) := by
      unfold exit
      cases target with
      | stderr =>
          refine ⟨status_eq, Or.inr ?_⟩
          change outcome.reported ++ outcome.failure ≠ []
          rwa [Ne, List.append_eq_nil_iff, not_and_or]
      | stdout =>
          cases refused : (stdout.write outcome.reported).refusal? with
          | none =>
              simp only [Outcome.exit, refused]
              exact ⟨status_eq, some⟩
          | some refusal =>
              simp only [Outcome.exit, refused]
              exact ⟨trivial, Or.inr (failureLine_ne_nil _)⟩
    have notZero : exit.status ≠ 0 := by
      rw [shown.1]
      decide
    exact ⟨Or.inr shown.1, iff_of_false notZero notClean,
      iff_of_false notZero (not_and_or.mpr shown.2)⟩

/-- The program from end to end.  A call ends in one of the ways of `Ends`, which
do not depend on the stream for the diagnostics, and leaves what that way says.
The status is 0 or 1; it is 0 exactly where the input is clean, and exactly where
nothing is written to either stream. -/
theorem execute_ends (host : Host) (arguments : List Bytes) (fileClause? : Option Bytes) :
    let texts := arguments.map Utf8.decodeLossy
    let program := texts.head?.getD defaultProgram
    let names := (Settings.readFileClause (fileClause?.bind Utf8.decode?)).1
    (∃! outcome, Ends host program names texts.tail outcome) ∧
    ∀ outcome, Ends host program names texts.tail outcome → ∀ target? : Option Bytes,
      let call : Call := ⟨arguments, target?, fileClause?⟩
      let exit := execute host call
      exit = outcome.exit program call.settings.target host.stdout ∧
        (exit.status = 0 ∨ exit.status = 1) ∧
        (exit.status = 0 ↔ IsClean host texts.tail) ∧
        (exit.status = 0 ↔ exit.stdout = [] ∧ exit.stderr = []) := by
  intro texts program names
  constructor
  · obtain ⟨outcome, ends⟩ := exists_ends host program names texts.tail
    exact ⟨outcome, ends, fun _ ends' => ends'.unique ends⟩
  · intro outcome ends target? call exit
    have ends' : Ends host program call.settings.fileClause texts.tail outcome := ends
    have leaves := ends'.leaves
    rw [← drive_eq_drive_cons] at leaves
    have exit_eq : exit = outcome.exit program call.settings.target host.stdout :=
      leaves.execute_eq
    refine ⟨exit_eq, ?_⟩
    rw [exit_eq]
    exact ends.status_exit call.settings.target host.stdout

/-- An input that breaks off behind a fault. -/
example :
    let host : Host :=
      { stdin := ⟨Utf8.encode "10 ?\n20 ?", some .readFailed⟩
        openSource := fun _ => .error .missing }
    let call : Call :=
      { arguments := [Utf8.encode "bas"], target? := some (Utf8.encode "stderr") }
    execute host call =
      ⟨1, [], Utf8.encode ("[error 1] line 1 near \"?\": unexpected character\n" ++
        "bas: read failed\n")⟩ := by
  decide +kernel

end MinBasic.Command
