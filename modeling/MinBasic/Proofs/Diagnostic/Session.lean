import MinBasic.Diagnostic.Session
import MinBasic.Proofs.Channel.Writes
import MinBasic.Proofs.Diagnostic.Decoding
import MinBasic.Proofs.Diagnostic.ReportLine

/-!
# What sessions write

Nothing in a session looks at its stream: the session reports the same lines
whatever the stream does with them.  So its reports are those lines, written in
order, and the laws of writing texts in order are the laws of the session.
-/

namespace MinBasic.Diagnostic

open Channel Text
open Text.Ascii (newline)

/-- Whether an action is a report. -/
def Action.isReport : Action → Bool
  | report _ => true
  | _ => false

/-- Induction on actions, with a case for a report and one for any other action. -/
@[elab_as_elim]
theorem Action.list_induction {motive : List Action → Prop} (nil : motive [])
    (report : ∀ message actions, motive actions → motive (.report message :: actions))
    (other : ∀ action actions, action.isReport = false → motive actions →
      motive (action :: actions))
    (actions : List Action) : motive actions := by
  induction actions with
  | nil => exact nil
  | cons action actions ih =>
      cases action with
      | report message => exact report message actions ih
      | _ => exact other _ actions rfl ih

/-- What a reply tells of a write. -/
def Reply.written (reply : Reply) : Written :=
  ⟨reply.session.reporter.sink, reply.stored, reply.refusal?⟩

namespace Session

/-! ## Runs of a session -/

/-- The session after actions. -/
def after : Session → List Action → Session
  | session, [] => session
  | session, action :: actions => (session.perform action).session.after actions

/-- What the stream received through actions. -/
def received (session : Session) (actions : List Action) : Bytes :=
  (session.performAll actions).flatMap Reply.stored

/-- The replies to the reports among actions. -/
def deliveries (session : Session) (actions : List Action) : List Reply :=
  ((actions.zip (session.performAll actions)).filter fun done => done.1.isReport).map Prod.snd

/-- The line that reports a message in a session. -/
def line (session : Session) (message : String) : Bytes :=
  session.reporter.line session.errors session.cursor message

/-- The same session on another stream. -/
def onSink (session : Session) (sink : Sink) : Session :=
  { session with reporter := { session.reporter with sink } }

/-- The lines that the reports among actions write to a stream that takes
everything. -/
def lines (session : Session) (actions : List Action) : List Bytes :=
  ((session.onSink .unlimited).deliveries actions).map Reply.stored

@[simp]
theorem performAll_cons (session : Session) (action : Action) (actions : List Action) :
    session.performAll (action :: actions) =
      session.perform action :: (session.perform action).session.performAll actions :=
  rfl

/-- The first replies are those to the first actions. -/
theorem take_performAll (session : Session) (actions : List Action) (count : Nat) :
    (session.performAll actions).take count = session.performAll (actions.take count) := by
  induction count generalizing session actions with
  | zero => rfl
  | succ count ih =>
      cases actions with
      | nil => rfl
      | cons action actions =>
          exact congrArg (session.perform action :: ·) (ih (session.perform action).session actions)

/-- Every reply holds the session after the actions up to its own. -/
theorem session_of_getElem?_performAll {session : Session} {actions : List Action} {index : Nat}
    {reply : Reply} (isThere : (session.performAll actions)[index]? = some reply) :
    reply.session = session.after (actions.take (index + 1)) := by
  induction actions generalizing session index with
  | nil => contradiction
  | cons action actions ih =>
      cases index with
      | zero =>
          obtain rfl := Option.some.inj isThere
          rfl
      | succ index => exact ih isThere

/-! ## One action -/

/-- An action that is no report leaves the stream alone. -/
theorem perform_of_not_isReport {action : Action} (noReport : action.isReport = false)
    (session : Session) :
    (session.perform action).written = ⟨session.reporter.sink, [], none⟩ := by
  cases action with
  | report message => contradiction
  | _ => rfl

/-- A report writes the line of its message. -/
theorem written_perform_report (session : Session) (message : String) :
    (session.perform (.report message)).written =
      session.reporter.sink.write (session.line message) :=
  rfl

/-- An action does the same to a session on any stream. -/
theorem perform_onSink_unlimited (session : Session) (action : Action) :
    ((session.onSink .unlimited).perform action).session =
      (session.perform action).session.onSink .unlimited := by
  cases action <;> rfl

/-- Only counting an error counts one. -/
theorem errors_perform (session : Session) (action : Action) :
    (session.perform action).session.errors =
      session.errors + [action].count .countError := by
  cases action <;> rfl

/-! ## Actions in order -/

section

variable {action : Action} (actions : List Action) (session : Session)

theorem deliveries_report (message : String) :
    session.deliveries (.report message :: actions) =
      session.perform (.report message) ::
        (session.perform (.report message)).session.deliveries actions :=
  rfl

theorem deliveries_of_not_isReport (noReport : action.isReport = false) :
    session.deliveries (action :: actions) =
      (session.perform action).session.deliveries actions := by
  rw [deliveries, performAll_cons, List.zip_cons_cons,
    List.filter_cons_of_neg (by simp [noReport])]
  rfl

theorem lines_report (message : String) :
    session.lines (.report message :: actions) =
      session.line message :: (session.perform (.report message)).session.lines actions :=
  rfl

theorem lines_of_not_isReport (noReport : action.isReport = false) :
    session.lines (action :: actions) = (session.perform action).session.lines actions := by
  rw [lines, deliveries_of_not_isReport _ _ noReport, perform_onSink_unlimited]
  rfl

/-- The reports of a session are its lines, written in order. -/
theorem map_written_deliveries :
    (session.deliveries actions).map Reply.written =
      session.reporter.sink.writeAll (session.lines actions) := by
  induction actions using Action.list_induction generalizing session with
  | nil => rfl
  | report message actions ih =>
      rw [deliveries_report, lines_report, Sink.writeAll_cons, List.map_cons, ih,
        written_perform_report]
      rfl
  | other action actions noReport ih =>
      have sink_eq : (session.perform action).session.reporter.sink = session.reporter.sink :=
        congrArg Written.sink (perform_of_not_isReport noReport session)
      rw [deliveries_of_not_isReport _ _ noReport, lines_of_not_isReport _ _ noReport, ih,
        sink_eq]

/-- A stream receives what reports store. -/
theorem received_eq :
    session.received actions = (session.deliveries actions).flatMap Reply.stored := by
  have later (session : Session) (action : Action) (actions : List Action) :
      session.received (action :: actions) =
        (session.perform action).stored ++ (session.perform action).session.received actions :=
    List.flatMap_cons
  induction actions using Action.list_induction generalizing session with
  | nil => rfl
  | report message actions ih => rw [later, ih, deliveries_report, List.flatMap_cons]
  | other action actions noReport ih =>
      have stored_eq : (session.perform action).stored = [] :=
        congrArg Written.stored (perform_of_not_isReport noReport session)
      rw [later, ih, stored_eq, List.nil_append, deliveries_of_not_isReport _ _ noReport]

/-- A stream receives the lines of a session as if they were written at once. -/
theorem received_eq_stored :
    session.received actions =
      (session.reporter.sink.write (session.lines actions).flatten).stored := by
  rw [received_eq, ← Sink.flatMap_stored_writeAll, ← map_written_deliveries, List.flatMap_map]
  rfl

/-- The count of errors goes up by the actions that count one. -/
theorem errors_after :
    (session.after actions).errors = session.errors + actions.count .countError := by
  induction actions generalizing session with
  | nil => rfl
  | cons action actions ih =>
      rw [after, ih, errors_perform, Nat.add_assoc, ← List.count_append, List.singleton_append]

/-- Lines are reported in two stretches. -/
theorem lines_append (later : List Action) :
    session.lines (actions ++ later) =
      session.lines actions ++ (session.after actions).lines later := by
  induction actions using Action.list_induction generalizing session with
  | nil => rfl
  | report message actions ih =>
      rw [List.cons_append, lines_report, lines_report, ih]
      rfl
  | other action actions noReport ih =>
      rw [List.cons_append, lines_of_not_isReport _ _ noReport,
        lines_of_not_isReport _ _ noReport, ih]
      rfl

/-- Every line is that of a report in the session so far. -/
theorem exists_of_mem_lines {text : Bytes} (member : text ∈ session.lines actions) :
    ∃ earlier message later, actions = earlier ++ .report message :: later ∧
      text = (session.after earlier).line message := by
  induction actions using Action.list_induction generalizing session with
  | nil => contradiction
  | report message actions ih =>
      rw [lines_report] at member
      rcases List.mem_cons.mp member with text_eq | among
      · exact ⟨[], message, actions, rfl, text_eq⟩
      · obtain ⟨earlier, message', later, rfl, text_eq⟩ := ih _ among
        exact ⟨.report message :: earlier, message', later, rfl, text_eq⟩
  | other action actions noReport ih =>
      rw [lines_of_not_isReport _ _ noReport] at member
      obtain ⟨earlier, message, later, rfl, text_eq⟩ := ih _ member
      exact ⟨action :: earlier, message, later, rfl, text_eq⟩

theorem ne_nil_of_mem_lines : ∀ text ∈ session.lines actions, text ≠ [] := by
  intro text member
  obtain ⟨earlier, message, later, -, rfl⟩ := session.exists_of_mem_lines actions member
  exact List.append_ne_nil_of_right_ne_nil _ (List.cons_ne_nil _ _)

theorem length_deliveries :
    (session.deliveries actions).length = (session.lines actions).length := by
  rw [← Sink.length_writeAll session.reporter.sink, ← map_written_deliveries, List.length_map]

/-- A report is refused as its line would be, at once with the lines before it. -/
theorem refusal?_of_getElem?_deliveries {index : Nat} {reply : Reply}
    (isThere : (session.deliveries actions)[index]? = some reply) :
    let upTo := ((session.lines actions).take (index + 1)).flatten
    reply.refusal? = (session.reporter.sink.write upTo).refusal? := by
  have isWritten : (session.reporter.sink.writeAll (session.lines actions))[index]? =
      some reply.written := by
    rw [← map_written_deliveries, List.getElem?_map, isThere, Option.map_some]
  exact Sink.refusal?_of_getElem?_writeAll (session.ne_nil_of_mem_lines actions) isWritten

/-- After a refused report every report is refused, and nothing of it is stored. -/
theorem pairwise_deliveries :
    (session.deliveries actions).Pairwise fun earlier later =>
      ∀ refusal, earlier.refusal? = some refusal →
        later.refusal? = some refusal ∧ later.stored = [] := by
  have pairwise := Sink.pairwise_writeAll (session.ne_nil_of_mem_lines actions)
    session.reporter.sink
  rw [← map_written_deliveries] at pairwise
  exact List.pairwise_map.mp pairwise

end

/-! ## Lines without a break -/

/-- No name of a source and no message has a newline. -/
structure IsUnbroken (source? : Option String) (actions : List Action) : Prop where
  source : ∀ name ∈ source?, '\n' ∉ name.toList
  names : ∀ name, .setSource name ∈ actions → '\n' ∉ name.toList
  messages : ∀ message, .report message ∈ actions → '\n' ∉ message.toList

namespace IsUnbroken

variable {session : Session}

theorem next {action : Action} {actions : List Action}
    (unbroken : IsUnbroken session.reporter.source? (action :: actions)) :
    IsUnbroken (session.perform action).session.reporter.source? actions where
  source := by
    cases action with
    | setSource name =>
        rintro _ ⟨rfl⟩
        exact unbroken.names name List.mem_cons_self
    | _ => exact unbroken.source
  names name member := unbroken.names name (List.mem_cons_of_mem _ member)
  messages message member := unbroken.messages message (List.mem_cons_of_mem _ member)

theorem after {earlier later : List Action}
    (unbroken : IsUnbroken session.reporter.source? (earlier ++ later)) :
    IsUnbroken (session.after earlier).reporter.source? later := by
  induction earlier generalizing session with
  | nil => exact unbroken
  | cons action earlier ih => exact ih unbroken.next

/-- In a session without a newline in a name or a message every line has one
newline, at its end. -/
theorem exists_eq_of_mem_lines {actions : List Action}
    (unbroken : IsUnbroken session.reporter.source? actions) :
    ∀ text ∈ session.lines actions, ∃ body, text = body ++ [newline] ∧ newline ∉ body := by
  intro text member
  obtain ⟨earlier, message, later, rfl, rfl⟩ := session.exists_of_mem_lines actions member
  -- The line shows the source that is set by then, not the one of the start.
  have here := unbroken.after
  apply Report.exists_render_eq
  · intro name shown
    obtain ⟨source, isSource, shown⟩ := Option.bind_eq_some_iff.mp shown
    exact fun inName => Utf8.newline_not_mem_encode (here.source source isSource)
      (mem_encode_of_mem_shownName shown inName)
  · exact Cursor.newline_not_mem_excerpt _
  · exact Utf8.newline_not_mem_encode (here.messages message List.mem_cons_self)

/-- As many newlines are stored as reports are not refused. -/
theorem count_newline_received {actions : List Action}
    (unbroken : IsUnbroken session.reporter.source? actions) :
    (session.received actions).count newline =
      (session.deliveries actions).countP fun reply => reply.refusal?.isNone := by
  have counted := Sink.count_newline_writeAll unbroken.exists_eq_of_mem_lines
    session.reporter.sink
  rw [← map_written_deliveries, List.flatMap_map, List.countP_map] at counted
  rw [received_eq]
  exact counted

end IsUnbroken

/-- Whatever is done in a session, every report has its line in order, and the
stream holds the first bytes of these lines.  A report is refused exactly when
the lines up to its own are more than the stream takes; so after the first
refusal every report is refused and nothing is added.  A report changes neither
the count nor the cursor nor the source, and nothing but a report changes the
stream.  The count goes up by the actions that count an error.  Unless a name or
a message has a newline, the stream has a newline for every report that is not
refused. -/
theorem reports_in_order (limit? : Option Nat) (source? : Option String) (errors : Nat)
    (cursor : Cursor) (actions : List Action) :
    let start : Session := ⟨⟨.closing limit?, source?⟩, errors, cursor⟩
    let lines := start.lines actions
    let deliveries := start.deliveries actions
    (∀ earlier message later, actions = earlier ++ .report message :: later →
      let here := start.after earlier
      ∃ line, IsReportLine here.errors here.reporter.source? here.cursor message line ∧
        lines = start.lines earlier ++
          line :: (here.perform (.report message)).session.lines later) ∧
    (∀ count, start.lines (actions.take count) <+: lines ∧
      ((start.performAll actions).take count).flatMap Reply.stored =
        clip limit? (start.lines (actions.take count)).flatten) ∧
    deliveries.length = lines.length ∧
    (∀ index reply, deliveries[index]? = some reply →
      let upTo := (lines.take (index + 1)).flatten.length
      (reply.refusal? = some .streamClosed ↔ Overflows limit? upTo) ∧
        (reply.refusal? = none ↔ ¬ Overflows limit? upTo)) ∧
    (deliveries.Pairwise fun earlier later =>
      ∀ refusal, earlier.refusal? = some refusal →
        later.refusal? = some refusal ∧ later.stored = []) ∧
    (∀ (session : Session) (message : String),
      let next := (session.perform (.report message)).session
      next.errors = session.errors ∧ next.cursor = session.cursor ∧
        next.reporter.source? = session.reporter.source?) ∧
    (∀ (session : Session) (action : Action), action.isReport = false →
      let reply := session.perform action
      reply.stored = [] ∧ reply.refusal? = none ∧
        reply.session.reporter.sink = session.reporter.sink) ∧
    (∀ index reply, (start.performAll actions)[index]? = some reply →
      reply.session.errors = errors + (actions.take (index + 1)).count .countError) ∧
    (IsUnbroken source? actions →
      (start.received actions).count newline =
        deliveries.countP fun reply => reply.refusal?.isNone) := by
  intro start lines deliveries
  refine ⟨?_, ?_, start.length_deliveries actions, ?_, start.pairwise_deliveries actions,
    fun _ _ => ⟨rfl, rfl, rfl⟩, ?_, ?_, ?_⟩
  · intro earlier message later split here
    refine ⟨here.line message, isReportLine_iff.mpr rfl, ?_⟩
    unfold lines
    rw [split, lines_append, lines_report]
  · intro count
    constructor
    · have split := start.lines_append (actions.take count) (actions.drop count)
      rw [List.take_append_drop] at split
      exact ⟨_, split.symm⟩
    · rw [take_performAll, ← Sink.stored_write_closing]
      exact start.received_eq_stored (actions.take count)
  · intro index reply isThere upTo
    have refusal_eq := start.refusal?_of_getElem?_deliveries actions isThere
    rw [refusal_eq]
    exact ⟨Sink.refusal?_write_closing_eq_some_iff, Sink.refusal?_write_closing_eq_none_iff⟩
  · intro session action noReport reply
    have written := perform_of_not_isReport noReport session
    exact ⟨congrArg Written.stored written, congrArg Written.refusal? written,
      congrArg Written.sink written⟩
  · intro index reply isThere
    rw [session_of_getElem?_performAll isThere]
    exact start.errors_after _
  · intro unbroken
    have unbroken : IsUnbroken start.reporter.source? actions := unbroken
    exact unbroken.count_newline_received

/-- A stream that closes within the second report. -/
example :
    let start : Session := ⟨⟨.closing (some 15), none⟩, 0, {}⟩
    start.received [.report "a", .countError, .report "b", .report "c"] =
      Utf8.encode "[error 0] a\n[er" := by
  decide +kernel

end Session

end MinBasic.Diagnostic
