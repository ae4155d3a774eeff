import MinBasic.Proofs.Command.EndToEnd

/-!
# Driving a parser once

A run has four ways to end, whatever its parser does: the arguments are misused, the source does
not open, the parser gives a status, or the parser is stopped.  The relation `Drives` has a rule
for each of them, with the calls of the parser as part of what a run leaves.  To see the calls of
a run, the same run is made with a parser that keeps a record of them in its state.
-/

namespace MinBasic.Command

open Channel Check Diagnostic

variable {σ : Type}

/-! ## Calls of a parser -/

/-- A call of a parser: the reporter and the input that it is given. -/
structure ParserCall where
  reporter : Reporter
  input : Input

/-- A parser that keeps a record of its calls beside its state. -/
def recorded (parse : Parser σ) : Parser (σ × List ParserCall) := fun state reporter input =>
  let parsed := parse state.1 reporter input
  { state := (parsed.state, state.2 ++ [⟨reporter, input⟩])
    reporter := parsed.reporter
    output := parsed.output
    events := parsed.events
    result := parsed.result }

/-- The same conclusion with a record of calls beside the parser's state. -/
def Conclusion.withRecord (conclusion : Conclusion σ) (record : List ParserCall) :
    Conclusion (σ × List ParserCall) where
  state := (conclusion.state, record)
  output := conclusion.output
  events := conclusion.events
  result := conclusion.result

/-! ## Ways to end -/

/-- How a run ends by its arguments: the calls of its parser, and what it leaves. -/
inductive Drives (parse : Parser σ) (state : σ) (settings : Settings) (host : Host) :
    List String → List ParserCall → Conclusion σ → Prop where
  | misused {program : String} {sources : List String} (isMisuse : IsMisuse sources) :
      Drives parse state settings host (program :: sources) []
        ⟨state, [], [], .error (.usage program)⟩
  | closed {program path : String} {refusal : Refusal} (noFlag : path.toList.head? ≠ some '-')
      (refused : host.openSource path = .error refusal) :
      Drives parse state settings host [program, path] []
        ⟨state, [], [], .error (.notOpened path refusal)⟩
  | finished {arguments : List String} {source? : Option String} {input : Input}
      {parsed : Parsed σ} {status : Int} (opens : Opens host arguments.tail source? input)
      (isParsed : parse state (reporter settings host source?) input = parsed)
      (ended : parsed.result = .ok status) :
      Drives parse state settings host arguments [⟨reporter settings host source?, input⟩]
        ⟨parsed.state, parsed.output,
          .inputOpened (source?.getD "<stdin>") :: parsed.events ++ [.parseFinished status],
          .ok status⟩
  | stopped {arguments : List String} {source? : Option String} {input : Input}
      {parsed : Parsed σ} {refusal : Refusal} (opens : Opens host arguments.tail source? input)
      (isParsed : parse state (reporter settings host source?) input = parsed)
      (ended : parsed.result = .error refusal) :
      Drives parse state settings host arguments [⟨reporter settings host source?, input⟩]
        ⟨parsed.state, parsed.output, .inputOpened (source?.getD "<stdin>") :: parsed.events,
          .error (.stopped (arguments.head?.getD "subminbas") refusal)⟩

/-- The text of a refusal without the number that the operating system puts behind it.  A text of
its own is left whole, whatever it ends in. -/
inductive Unnumbered : Refusal → String → Prop where
  | system {code : Int} {wording : String}
      (numbered : (Refusal.system code).text = wording ++ " (os error " ++ toString code ++ ")") :
      Unnumbered (.system code) wording
  | custom (kind : RefusalKind) (wording : String) : Unnumbered (.custom kind wording) wording

variable {parse : Parser σ} {state : σ} {settings : Settings} {host : Host}
variable {arguments sources : List String} {calls : List ParserCall} {conclusion : Conclusion σ}

theorem unnumbered_reason (refusal : Refusal) : Unnumbered refusal refusal.reason := by
  cases refusal with
  | system code => exact .system rfl
  | custom kind wording => exact .custom kind wording

/-! ## Opening the input -/

/-- Arguments are misused, or name a source that does not open, or an input is opened. -/
theorem isMisuse_or_closed_or_opens (host : Host) (sources : List String) :
    IsMisuse sources ∨
      (∃ path refusal, sources = [path] ∧ path.toList.head? ≠ some '-' ∧
        host.openSource path = .error refusal) ∨
      ∃ source? input, Opens host sources source? input := by
  obtain ⟨_, ends⟩ := exists_ends host "" false sources
  cases ends with
  | misused isMisuse => exact Or.inl isMisuse
  | closed noFlag refused => exact Or.inr (Or.inl ⟨_, _, rfl, noFlag, refused⟩)
  | broken opens _ _ => exact Or.inr (Or.inr ⟨_, _, opens⟩)
  | finished opens _ => exact Or.inr (Or.inr ⟨_, _, opens⟩)

/-- An input is opened for at most two arguments, the second of which does not look like a flag
and opens. -/
theorem exists_opens_iff (host : Host) (arguments : List String) :
    (∃ source? input, Opens host arguments.tail source? input) ↔
      arguments.length ≤ 2 ∧ ∀ source ∈ arguments[1]?,
        source.toList.head? ≠ some '-' ∧ ∃ input, host.openSource source = .ok input := by
  match arguments with
  | [] => exact iff_of_true ⟨_, _, .stdin⟩ ⟨Nat.zero_le _, nofun⟩
  | [program] => exact iff_of_true ⟨_, _, .stdin⟩ ⟨Nat.le_succ _, nofun⟩
  | [program, path] =>
      constructor
      · rintro ⟨_, _, opens⟩
        cases opens with
        | source noFlag opened =>
            refine ⟨Nat.le_refl _, ?_⟩
            rintro _ ⟨⟩
            exact ⟨noFlag, _, opened⟩
      · rintro ⟨-, opened⟩
        obtain ⟨noFlag, input, opened⟩ := opened path rfl
        exact ⟨_, _, .source noFlag opened⟩
  | _ :: _ :: _ :: more =>
      refine iff_of_false ?_ fun few => absurd few.1 (by simp)
      rintro ⟨_, _, opens⟩
      cases opens

/-! ## Doing what the rules say -/

theorem drive_of_isMisuse (isMisuse : IsMisuse sources) (parse : Parser σ) (state : σ)
    (settings : Settings) (host : Host) (program : String) :
    drive parse state settings host (program :: sources) =
      ⟨state, [], [], .error (.usage program)⟩ := by
  rw [drive, isMisuse.ofArguments_eq]

theorem drive_of_refused {path : String} {refusal : Refusal}
    (noFlag : path.toList.head? ≠ some '-') (refused : host.openSource path = .error refusal)
    (parse : Parser σ) (state : σ) (settings : Settings) (program : String) :
    drive parse state settings host [program, path] =
      ⟨state, [], [], .error (.notOpened path refusal)⟩ := by
  have noFlag : isFlag path = false := decide_eq_false noFlag
  simp only [drive, Invocation.ofArguments, noFlag, Bool.false_eq_true, if_false, openInput,
    refused]

/-- A parser that gives a status concludes the run with it. -/
theorem Opens.drive_of_ok {source? : Option String} {input : Input} {parsed : Parsed σ}
    {status : Int} (opens : Opens host arguments.tail source? input)
    (isParsed : parse state (reporter settings host source?) input = parsed)
    (ended : parsed.result = .ok status) :
    drive parse state settings host arguments =
      ⟨parsed.state, parsed.output,
        .inputOpened (source?.getD "<stdin>") :: parsed.events ++ [.parseFinished status],
        .ok status⟩ := by
  rw [drive_eq_drive_cons, opens.drive_eq]
  simp only [driveOver, isParsed, ended]
  rfl

/-- A parser that is stopped fails the run in the name of the program. -/
theorem Opens.drive_of_error {source? : Option String} {input : Input} {parsed : Parsed σ}
    {refusal : Refusal} (opens : Opens host arguments.tail source? input)
    (isParsed : parse state (reporter settings host source?) input = parsed)
    (ended : parsed.result = .error refusal) :
    drive parse state settings host arguments =
      ⟨parsed.state, parsed.output, .inputOpened (source?.getD "<stdin>") :: parsed.events,
        .error (.stopped (arguments.head?.getD "subminbas") refusal)⟩ := by
  rw [drive_eq_drive_cons, opens.drive_eq]
  simp only [driveOver, isParsed, ended]
  rfl

/-- A run ends as its rule says, and a record of its calls is kept without changing it. -/
theorem Drives.drive_recorded_eq (drives : Drives parse state settings host arguments calls
    conclusion) :
    drive parse state settings host arguments = conclusion ∧
      drive (recorded parse) (state, []) settings host arguments =
        conclusion.withRecord calls := by
  cases drives with
  | misused isMisuse =>
      rw [drive_of_isMisuse isMisuse, drive_of_isMisuse isMisuse]
      exact ⟨rfl, rfl⟩
  | closed noFlag refused =>
      rw [drive_of_refused noFlag refused, drive_of_refused noFlag refused]
      exact ⟨rfl, rfl⟩
  | finished opens isParsed ended =>
      subst isParsed
      exact ⟨opens.drive_of_ok rfl ended, opens.drive_of_ok rfl ended⟩
  | stopped opens isParsed ended =>
      subst isParsed
      exact ⟨opens.drive_of_error rfl ended, opens.drive_of_error rfl ended⟩

/-- The record of a run holds the calls of its rule. -/
theorem Drives.calls_eq (drives : Drives parse state settings host arguments calls conclusion) :
    (drive (recorded parse) (state, []) settings host arguments).state.2 = calls := by
  rw [drives.drive_recorded_eq.2]
  rfl

/-- Every run ends in some way. -/
theorem exists_drives (parse : Parser σ) (state : σ) (settings : Settings) (host : Host)
    (arguments : List String) :
    ∃ calls conclusion, Drives parse state settings host arguments calls conclusion := by
  rcases isMisuse_or_closed_or_opens host arguments.tail with isMisuse | closed | opens
  · cases arguments with
    | nil => simp [IsMisuse] at isMisuse
    | cons program sources => exact ⟨_, _, .misused isMisuse⟩
  · obtain ⟨path, refusal, isPath, noFlag, refused⟩ := closed
    cases arguments with
    | nil => cases isPath
    | cons program sources =>
        obtain rfl : sources = [path] := isPath
        exact ⟨_, _, .closed noFlag refused⟩
  · obtain ⟨source?, input, opens⟩ := opens
    cases ended : (parse state (reporter settings host source?) input).result with
    | ok status => exact ⟨_, _, .finished opens rfl ended⟩
    | error refusal => exact ⟨_, _, .stopped opens rfl ended⟩

/-- The parser is called once where an input is opened, and not at all elsewhere. -/
theorem Drives.length_calls (drives : Drives parse state settings host arguments calls
    conclusion) :
    calls.length ≤ 1 ∧
      (calls.length = 1 ↔ ∃ source? input, Opens host arguments.tail source? input) := by
  cases drives with
  | misused isMisuse =>
      refine ⟨Nat.zero_le _, iff_of_false nofun ?_⟩
      rintro ⟨_, _, opens⟩
      exact opens.not_isMisuse isMisuse
  | closed noFlag refused =>
      refine ⟨Nat.zero_le _, iff_of_false nofun ?_⟩
      rintro ⟨_, _, opens⟩
      cases opens with
      | source _ opened =>
          rw [refused] at opened
          cases opened
  | finished opens _ _ => exact ⟨Nat.le_refl _, iff_of_true rfl ⟨_, _, opens⟩⟩
  | stopped opens _ _ => exact ⟨Nat.le_refl _, iff_of_true rfl ⟨_, _, opens⟩⟩

/-- A run drives its parser exactly as the rules say, for every parser, and a record of the calls
changes nothing in it.  The parser is called at most once, and once exactly where there are at most
two arguments and the second, if any, does not look like a flag and opens.  Misused arguments are
refused whatever the host has: nothing of it is opened.  The message of a run that did not open
its source, or whose parser was stopped, is the name, a colon and the text of the refusal without
its number. -/
theorem drive_iff_drives (parse : Parser σ) (state : σ) (settings : Settings) (host : Host)
    (arguments : List String) :
    let run := drive parse state settings host arguments
    let calls := (drive (recorded parse) (state, []) settings host arguments).state.2
    drive (recorded parse) (state, []) settings host arguments = run.withRecord calls ∧
    (∀ calls' run', Drives parse state settings host arguments calls' run' ↔
      calls' = calls ∧ run' = run) ∧
    calls.length ≤ 1 ∧
    (calls.length = 1 ↔ arguments.length ≤ 2 ∧ ∀ source ∈ arguments[1]?,
      source.toList.head? ≠ some '-' ∧ ∃ input, host.openSource source = .ok input) ∧
    (IsMisuse arguments.tail → ∀ host', drive parse state settings host' arguments = run) ∧
    ∀ (name : String) (refusal : Refusal), ∃ reason, Unnumbered refusal reason ∧
      (Failure.notOpened name refusal).message = name ++ ": " ++ reason ∧
      (Failure.stopped name refusal).message = name ++ ": " ++ reason := by
  intro run calls
  obtain ⟨calls', run', drives⟩ := exists_drives parse state settings host arguments
  obtain rfl : run' = run := drives.drive_recorded_eq.1.symm
  obtain rfl : calls' = calls := drives.calls_eq.symm
  refine ⟨drives.drive_recorded_eq.2, ?_, drives.length_calls.1, ?_, ?_, ?_⟩
  · intro calls' run'
    constructor
    · intro drives'
      exact ⟨drives'.calls_eq.symm, drives'.drive_recorded_eq.1.symm⟩
    · rintro ⟨rfl, rfl⟩
      exact drives
  · rw [drives.length_calls.2, exists_opens_iff]
  · intro isMisuse host'
    unfold run
    rw [drive_eq_drive_cons, drive_of_isMisuse isMisuse, drive_eq_drive_cons,
      drive_of_isMisuse isMisuse]
  · intro name refusal
    exact ⟨_, unnumbered_reason refusal, rfl, rfl⟩

/-- A text that ends like a number of the system is left whole. -/
example :
    (Failure.stopped "bas" (.custom .other "odd (os error 5)")).message =
      "bas: odd (os error 5)" := by
  decide

end MinBasic.Command
