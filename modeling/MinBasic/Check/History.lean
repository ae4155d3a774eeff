import MinBasic.Check.Pass

/-!
# Histories of a pass

One pass can parse several inputs, each with a reporter of its own.  Counts and
line numbers go on; a refusal ends the run that met it and no later one.
-/

namespace MinBasic.Check

open Channel

/-- An input for a pass, with the sink for its reports and the name they show. -/
structure Run where
  input : Input
  sink : Sink := .unlimited
  source? : Option String := none
  deriving DecidableEq, Repr

/-- Parse the input of one run. -/
def Pass.parseRun (pass : Pass) (run : Run) : Parsed Pass :=
  pass.parse { sink := run.sink, source? := run.source? } run.input

/-- Parse the inputs of several runs in order. -/
def Pass.parseAll : Pass → List Run → List (Parsed Pass)
  | _, [] => []
  | pass, run :: runs =>
      let parsed := pass.parseRun run
      parsed :: parsed.state.parseAll runs

@[simp]
theorem Pass.parseAll_nil (pass : Pass) : pass.parseAll [] = [] :=
  rfl

@[simp]
theorem Pass.parseAll_cons (pass : Pass) (run : Run) (runs : List Run) :
    pass.parseAll (run :: runs) =
      pass.parseRun run :: (pass.parseRun run).state.parseAll runs :=
  rfl

end MinBasic.Check
