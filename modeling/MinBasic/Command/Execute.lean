import MinBasic.Check.Pass
import MinBasic.Command.Drive

/-!
# The program

The program runs a fresh token pass as its arguments and its environment ask.
Diagnostics go to the chosen stream; a failure adds its message on standard
error and makes the exit status 1.  Events are not shown.

Arguments are bytes and are read as text as far as they are text; a variable
that is not text counts as unset.
-/

namespace MinBasic.Command

open Check Text

/-- How the program is called: its arguments, the first of which is its name,
and the values of its two variables. -/
structure Call where
  arguments : List Bytes
  target? : Option Bytes := none
  fileClause? : Option Bytes := none
  deriving DecidableEq, Repr

/-- What a call leaves: the exit status, and what was stored on the two output
streams. -/
structure Exit where
  status : Int
  stdout : Bytes
  stderr : Bytes
  deriving DecidableEq, Repr

/-- The settings that a call makes. -/
def Call.settings (call : Call) : Settings :=
  (Settings.ofValues (call.target?.bind Utf8.decode?) (call.fileClause?.bind Utf8.decode?)).1

/-- The arguments of a call as text. -/
def Call.texts (call : Call) : List String :=
  call.arguments.map Utf8.decodeLossy

/-- The exit status for the result of a run. -/
def exitStatus : Except Failure Int → Int
  | .ok status => status
  | .error _ => 1

/-- The line on standard error for the result of a run. -/
def notice : Except Failure Int → Bytes
  | .ok _ => []
  | .error failure => Utf8.encode failure.message ++ [Ascii.newline]

/-- Run the program. -/
def execute (host : Host) (call : Call) : Exit :=
  let conclusion := drive Pass.parse {} call.settings host call.texts
  let status := exitStatus conclusion.result
  match call.settings.target with
  | .stdout => ⟨status, conclusion.output, notice conclusion.result⟩
  | .stderr => ⟨status, [], conclusion.output ++ notice conclusion.result⟩

end MinBasic.Command
