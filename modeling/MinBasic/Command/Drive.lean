import MinBasic.Check.Parser
import MinBasic.Command.Invocation
import MinBasic.Command.Settings

/-!
# Driving a parser

A run reads its arguments, opens its input and drives a parser over it once.
The status of the parser is the status of the run.  Nothing is opened when the
arguments are wrong, and the parser is not called when the input does not open.
-/

namespace MinBasic.Command

open Channel Check Diagnostic

/-- The streams and files that a run finds.  Standard error takes
everything. -/
structure Host where
  stdin : Input
  stdout : Sink := .unlimited
  openSource : String → Except Refusal Input

/-- The sink of a target. -/
def Host.sink (host : Host) : Target → Sink
  | .stdout => host.stdout
  | .stderr => .unlimited

/-- The name of the standard input in an event. -/
def stdinName : String := "<stdin>"

/-- What a run did: the parser's state after it, what was written to the target
and noted, and how it ended. -/
structure Conclusion (σ : Type) where
  state : σ
  output : Bytes := []
  events : List Event := []
  result : Except Failure Int

/-- The reporter of a run; it names the source only when that is asked for. -/
def reporter (settings : Settings) (host : Host) (source? : Option String) : Reporter where
  sink := host.sink settings.target
  source? := if settings.fileClause then source? else none

/-- Drive a parser over the opened input of an invocation. -/
def driveOver {σ : Type} (parse : Parser σ) (state : σ) (settings : Settings) (host : Host)
    (invocation : Invocation) (input : Input) : Conclusion σ :=
  let parsed := parse state (reporter settings host invocation.source?) input
  let opened := Event.inputOpened (invocation.source?.getD stdinName)
  match parsed.result with
  | .ok status =>
      { state := parsed.state
        output := parsed.output
        events := opened :: parsed.events ++ [.parseFinished status]
        result := .ok status }
  | .error refusal =>
      { state := parsed.state
        output := parsed.output
        events := opened :: parsed.events
        result := .error (.stopped invocation.program refusal) }

/-- Open the input of an invocation. -/
def openInput (host : Host) (invocation : Invocation) : Except Failure Input :=
  match invocation.source? with
  | none => .ok host.stdin
  | some path =>
      match host.openSource path with
      | .ok input => .ok input
      | .error refusal => .error (.notOpened path refusal)

/-- Drive a parser as the arguments ask. -/
def drive {σ : Type} (parse : Parser σ) (state : σ) (settings : Settings) (host : Host)
    (arguments : List String) : Conclusion σ :=
  match Invocation.ofArguments arguments with
  | .error failure => { state, result := .error failure }
  | .ok invocation =>
      match openInput host invocation with
      | .error failure => { state, result := .error failure }
      | .ok input => driveOver parse state settings host invocation input

end MinBasic.Command
