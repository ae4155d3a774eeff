import MinBasic.Diagnostic.Reporter

/-!
# Diagnostic sessions

A session moves one cursor, counts errors and reports at the cursor, one action
at a time.  Counting and reporting are separate actions: a report shows the
count and does not change it.
-/

namespace MinBasic.Diagnostic

open Channel

/-- The reporter, the count of errors and the cursor of a session. -/
structure Session where
  reporter : Reporter
  errors : Nat := 0
  cursor : Cursor := {}
  deriving DecidableEq, Repr

/-- What can be done in a session. -/
inductive Action where
  | newCursor
  | place (line : Int) (text : Bytes)
  | setText (text : Bytes)
  | clearText
  | nextLine
  | countError
  | setSource (name : String)
  | report (message : String)
  deriving DecidableEq, Repr

/-- The outcome of an action: the session after it, the bytes it stored, the
number it returned, and the refusal of a report that was cut. -/
structure Reply where
  session : Session
  stored : Bytes := []
  returned? : Option Int := none
  refusal? : Option Refusal := none
  deriving DecidableEq, Repr

namespace Session

/-- Move the cursor of a session. -/
def withCursor (session : Session) (cursor : Cursor) : Session :=
  { session with cursor }

/-- Do one action. -/
def perform (session : Session) : Action → Reply
  | .newCursor => { session := session.withCursor {} }
  | .place line text => { session := session.withCursor ⟨line, text⟩ }
  | .setText text => { session := session.withCursor (session.cursor.withText text) }
  | .clearText => { session := session.withCursor session.cursor.clearText }
  | .nextLine =>
      let cursor := session.cursor.nextLine
      { session := session.withCursor cursor, returned? := some cursor.line }
  | .countError =>
      let errors := session.errors + 1
      { session := { session with errors }, returned? := some errors }
  | .setSource name =>
      { session := { session with reporter := session.reporter.withSource name } }
  | .report message =>
      let delivery := session.reporter.report session.errors session.cursor message
      { session := { session with reporter := delivery.reporter }
        stored := delivery.stored
        refusal? := delivery.refusal? }

/-- Do actions in order; a refused report does not end the session. -/
def performAll : Session → List Action → List Reply
  | _, [] => []
  | session, action :: actions =>
      let reply := session.perform action
      reply :: performAll reply.session actions

end Session

end MinBasic.Diagnostic
