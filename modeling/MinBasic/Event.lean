import MinBasic.Lexical.Token

/-!
# Events

What a run notes beside its output, in the order in which it happens.  An event
is what happened; its level, wording and named fields follow from that.
-/

namespace MinBasic

open Lexical

/-- How much an event matters. -/
inductive Level where
  | trace
  | debug
  | warn
  deriving DecidableEq, Repr

/-- The value of a field of an event. -/
inductive FieldValue where
  | number (value : Int)
  | text (value : String)
  deriving DecidableEq, Repr

/-- What a run notes. -/
inductive Event where
  | scanned (line : Int) (token : Token)
  | passFinished (lines : Int) (tokens errors : Nat)
  | inputOpened (source : String)
  | parseFinished (status : Int)
  | unknownTarget (setting value : String)
  | unknownSwitch (setting value : String)
  deriving DecidableEq, Repr

namespace Event

/-- The level of an event. -/
def level : Event → Level
  | scanned .. => .trace
  | passFinished .. => .debug
  | inputOpened .. => .debug
  | parseFinished .. => .debug
  | unknownTarget .. => .warn
  | unknownSwitch .. => .warn

/-- The wording of an event. -/
def message : Event → String
  | scanned .. => "scanned"
  | passFinished .. => "token pass finished"
  | inputOpened .. => "input opened"
  | parseFinished .. => "parse pass finished"
  | unknownTarget .. => "ignoring unknown diagnostic stream"
  | unknownSwitch .. => "ignoring unknown switch value"

/-- The named fields of an event. -/
def fields : Event → List (String × FieldValue)
  | scanned line token => [("line", .number line), ("token", .text token.label)]
  | passFinished lines tokens errors =>
      [("lines", .number lines), ("tokens", .number tokens), ("errors", .number errors)]
  | inputOpened source => [("source", .text source)]
  | parseFinished status => [("status", .number status)]
  | unknownTarget setting value => [("variable", .text setting), ("value", .text value)]
  | unknownSwitch setting value => [("variable", .text setting), ("value", .text value)]

end Event

end MinBasic
