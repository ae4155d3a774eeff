import MinBasic.Diagnostic.Report
import MinBasic.Channel.Sink

/-!
# Reporters

A reporter writes reports to a sink and may know the name of the source they
speak of.  It counts nothing: the number of a report is given to it.
-/

namespace MinBasic.Diagnostic

open Channel

/-- A sink for reports, and the name of their source. -/
structure Reporter where
  sink : Sink
  source? : Option String := none
  deriving DecidableEq, Repr

/-- The outcome of a report: the reporter after it, the bytes that were stored,
and the refusal if the line was cut. -/
structure Delivery where
  reporter : Reporter
  stored : Bytes
  refusal? : Option Refusal
  deriving DecidableEq, Repr

namespace Reporter

/-- The same sink for another source. -/
def withSource (reporter : Reporter) (source : String) : Reporter :=
  { reporter with source? := some source }

/-- The line that reports a message at a cursor. -/
def line (reporter : Reporter) (number : Nat) (cursor : Cursor) (message : String) : Bytes :=
  (Report.ofCursor number reporter.source? cursor message).render

/-- Report a message at a cursor. -/
def report (reporter : Reporter) (number : Nat) (cursor : Cursor) (message : String) :
    Delivery :=
  let written := reporter.sink.write (reporter.line number cursor message)
  { reporter := { reporter with sink := written.sink }
    stored := written.stored
    refusal? := written.refusal? }

end Reporter

end MinBasic.Diagnostic
