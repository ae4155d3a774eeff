import MinBasic.Channel.Input
import MinBasic.Diagnostic.Reporter
import MinBasic.Event

/-!
# Parsers

A parser reads an input, reports through a reporter, and ends with a status or
with the refusal that stopped it.  It keeps a state of its own, so that one
parser can read several inputs.
-/

namespace MinBasic.Check

open Channel Diagnostic

/-- What a parser did with one input: the state and the reporter after it, what
it wrote and noted, and how it ended. -/
structure Parsed (σ : Type) where
  state : σ
  reporter : Reporter
  output : Bytes := []
  events : List Event := []
  result : Except Refusal Int

/-- A parser with states of a given type. -/
abbrev Parser (σ : Type) :=
  σ → Reporter → Input → Parsed σ

end MinBasic.Check
