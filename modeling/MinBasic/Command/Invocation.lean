import MinBasic.Command.Failure

/-!
# Invocations

A program is called with its own name and at most one source.  No flags are
known, so a source that looks like a flag is refused.
-/

namespace MinBasic.Command

/-- What a call asks for: the program by its name, and the source to read, if
not the standard input. -/
structure Invocation where
  program : String
  source? : Option String := none
  deriving DecidableEq, Repr

/-- The name of the program where the call gives none. -/
def defaultProgram : String := "subminbas"

/-- An argument that begins like a flag. -/
def isFlag (argument : String) : Bool :=
  argument.toList.head? = some '-'

/-- The invocation that arguments spell, the first of which names the
program. -/
def Invocation.ofArguments : List String → Except Failure Invocation
  | [] => .ok { program := defaultProgram }
  | [program] => .ok { program }
  | [program, source] =>
      if isFlag source then .error (.usage program) else .ok { program, source? := some source }
  | program :: _ => .error (.usage program)

end MinBasic.Command
