import MinBasic.Proofs.Check.ClosedForm
import Mathlib.Data.List.Induction
import Mathlib.Order.Bounds.Defs

/-!
# Runs on a stream that takes only so much

Work that only writes reports does not look at the room that is left.  On a
limited stream it does what it does on an unlimited one, cut off after the write
that did not fit.  So a token pass on a limited stream stops at the fault whose
report overflows it: everything up to that fault is counted, noted and written
as without a limit, and nothing after it is read.
-/

namespace MinBasic.Check

open Channel Diagnostic Lexical Text

/-! ## Clipped work -/

namespace Progress

variable {σ α : Type}

/-- What unlimited work does on a stream with limited room, if only its last
write may not fit. -/
def clip (free : Progress σ) (room : Nat) (refusal : Refusal) : Progress σ where
  state := free.state
  reporter := ⟨.limited (room - free.output.length) refusal, free.reporter.source?⟩
  output := free.output.take room
  events := free.events
  refusal? := if free.output.length ≤ room then none else some refusal

/-- Work that is refused only by its stream, and then at its last write. -/
structure Clips (work : Work σ) : Prop where
  unrefused : ∀ state source?, (work state ⟨.unlimited, source?⟩).refusal? = none
  reporter_eq : ∀ state source?,
    (work state ⟨.unlimited, source?⟩).reporter = ⟨.unlimited, source?⟩
  limited : ∀ state source? room refusal,
    work state ⟨.limited room refusal, source?⟩ =
      (work state ⟨.unlimited, source?⟩).clip room refusal

theorem clip_still (state : σ) (source? : Option String) (room : Nat) (refusal : Refusal) :
    (still state ⟨.unlimited, source?⟩).clip room refusal =
      still state ⟨.limited room refusal, source?⟩ := by
  simp [clip, still]

theorem refusal?_clip_of_fits {free : Progress σ} {room : Nat}
    (fits : free.output.length ≤ room) (refusal : Refusal) :
    (free.clip room refusal).refusal? = none :=
  if_pos fits

theorem refusal?_clip_of_overflow {free : Progress σ} {room : Nat}
    (overflow : room < free.output.length) (refusal : Refusal) :
    (free.clip room refusal).refusal? = some refusal :=
  if_neg (Nat.not_le.mpr overflow)

/-- Work that fits goes on in the room that it leaves. -/
theorem clip_andThen {free : Progress σ} {room : Nat} {refusal : Refusal}
    (unrefused : free.refusal? = none) (fits : free.output.length ≤ room)
    {limited unlimited : Work σ}
    (later : limited free.state
        ⟨.limited (room - free.output.length) refusal, free.reporter.source?⟩ =
      (unlimited free.state free.reporter).clip (room - free.output.length) refusal) :
    (free.clip room refusal).andThen limited = (free.andThen unlimited).clip room refusal := by
  have goesOn : (free.clip room refusal).refusal? = none := refusal?_clip_of_fits fits refusal
  change limited (free.clip room refusal).state (free.clip room refusal).reporter = _ at later
  have whole : free.output.take room = free.output := List.take_of_length_le fits
  simp only [andThen, goesOn, unrefused, later]
  simp only [clip, whole, List.take_append, List.length_append, Nat.sub_sub,
    Nat.le_sub_iff_add_le' fits]

theorem output_andThen {done : Progress σ} (unrefused : done.refusal? = none) (more : Work σ) :
    (done.andThen more).output = done.output ++ (more done.state done.reporter).output := by
  rw [andThen_of_unrefused unrefused]

/-! ## Clipped runs -/

variable {work : α → Work σ}

/-- On an unlimited stream a run of such work is never refused. -/
theorem forEach_unlimited (clips : ∀ item, Clips (work item)) (items : List α) (state : σ)
    (source? : Option String) :
    (forEach work items state ⟨.unlimited, source?⟩).refusal? = none ∧
      (forEach work items state ⟨.unlimited, source?⟩).reporter = ⟨.unlimited, source?⟩ := by
  induction items generalizing state with
  | nil => exact ⟨rfl, rfl⟩
  | cons item items ih =>
      have later := ih (work item state ⟨.unlimited, source?⟩).state
      rw [forEach_cons, andThen, (clips item).unrefused, (clips item).reporter_eq]
      exact later

/-- A run that fits a stream goes as on an unlimited one. -/
theorem forEach_of_fits (clips : ∀ item, Clips (work item)) (items : List α) (state : σ)
    (source? : Option String) (room : Nat) (refusal : Refusal)
    (fits : (forEach work items state ⟨.unlimited, source?⟩).output.length ≤ room) :
    forEach work items state ⟨.limited room refusal, source?⟩ =
      (forEach work items state ⟨.unlimited, source?⟩).clip room refusal := by
  induction items generalizing state room with
  | nil => exact (clip_still state source? room refusal).symm
  | cons item items ih =>
      have unrefused := (clips item).unrefused state source?
      have reporter_eq := (clips item).reporter_eq state source?
      rw [forEach_cons, output_andThen unrefused, List.length_append, reporter_eq] at fits
      rw [forEach_cons, forEach_cons, (clips item).limited]
      apply clip_andThen unrefused (Nat.le_trans (Nat.le_add_right _ _) fits)
      rw [reporter_eq]
      apply ih
      omega

/-- The item at which a run overflows a stream is the last one of the run. -/
theorem forEach_of_overflow (clips : ∀ item, Clips (work item)) {before after : List α}
    {item : α} {state : σ} {source? : Option String} {room : Nat} {refusal : Refusal}
    (fits : (forEach work before state ⟨.unlimited, source?⟩).output.length ≤ room)
    (overflow :
      room < (forEach work (before ++ [item]) state ⟨.unlimited, source?⟩).output.length) :
    forEach work (before ++ item :: after) state ⟨.limited room refusal, source?⟩ =
      (forEach work (before ++ [item]) state ⟨.unlimited, source?⟩).clip room refusal := by
  obtain ⟨unrefused, reporter_eq⟩ := forEach_unlimited clips before state source?
  rw [forEach_append, output_andThen unrefused, List.length_append, reporter_eq] at overflow
  rw [forEach_append, forEach_append, forEach_of_fits clips before state source? room refusal fits]
  apply clip_andThen unrefused fits
  generalize (forEach work before state ⟨.unlimited, source?⟩) = done at *
  have last : forEach work [item] done.state ⟨.unlimited, source?⟩ =
      work item done.state ⟨.unlimited, source?⟩ :=
    andThen_still _
  rw [last] at overflow
  have refused := refusal?_clip_of_overflow (Nat.sub_lt_left_of_lt_add fits overflow) refusal
  rw [reporter_eq, forEach_cons, (clips item).limited, last]
  exact andThen_of_refused refused _

/-- A run that does not fit a stream overflows it at some item. -/
theorem exists_overflow {items : List α} {state : σ} {source? : Option String} {room : Nat}
    (overflow : room < (forEach work items state ⟨.unlimited, source?⟩).output.length) :
    ∃ before item after, items = before ++ item :: after ∧
      (forEach work before state ⟨.unlimited, source?⟩).output.length ≤ room ∧
      room < (forEach work (before ++ [item]) state ⟨.unlimited, source?⟩).output.length := by
  -- Items are taken off the end until the rest fits; the last one taken overflows.
  induction items using List.reverseRecOn with
  | nil => contradiction
  | append_singleton items last ih =>
      by_cases fits : (forEach work items state ⟨.unlimited, source?⟩).output.length ≤ room
      · exact ⟨items, last, [], rfl, fits, overflow⟩
      · obtain ⟨before, item, after, rfl, enough, tooMuch⟩ := ih (Nat.lt_of_not_le fits)
        refine ⟨before, item, after ++ [last], ?_, enough, tooMuch⟩
        rw [List.append_assoc, List.cons_append]

/-- A stream holds the first bytes of what would be written to an unlimited
one. -/
theorem output_forEach_limited (clips : ∀ item, Clips (work item)) (items : List α) (state : σ)
    (source? : Option String) (room : Nat) (refusal : Refusal) :
    (forEach work items state ⟨.limited room refusal, source?⟩).output =
      (forEach work items state ⟨.unlimited, source?⟩).output.take room := by
  rcases Nat.lt_or_ge room
    (forEach work items state ⟨.unlimited, source?⟩).output.length with overflow | fits
  · obtain ⟨before, item, after, rfl, enough, tooMuch⟩ := exists_overflow overflow
    have unrefused := (forEach_unlimited clips (before ++ [item]) state source?).1
    have whole : forEach work (before ++ item :: after) state ⟨.unlimited, source?⟩ =
        (forEach work (before ++ [item]) state ⟨.unlimited, source?⟩).andThen
          (forEach work after) := by
      rw [List.append_cons, forEach_append]
    rw [forEach_of_overflow clips enough tooMuch, whole, output_andThen unrefused,
      List.take_append_of_le_length (Nat.le_of_lt tooMuch)]
    rfl
  · rw [forEach_of_fits clips items state source? room refusal fits]
    rfl

end Progress

/-! ## Clipped passes -/

/-- A move is refused only by its stream, when its report does not fit. -/
theorem Pass.move_clips (move : Move) : Progress.Clips (Pass.move move) := by
  rcases move with _ | ⟨token | fault | _, start, text⟩
  · exact ⟨fun _ _ => rfl, fun _ _ => rfl, fun _ _ _ _ => (Progress.clip_still _ _ _ _).symm⟩
  · exact ⟨fun _ _ => rfl, fun _ _ => rfl, fun _ _ _ _ => by
      simp [move, readLexeme, Progress.clip]⟩
  · exact ⟨fun _ _ => rfl, fun _ _ => rfl, fun _ _ _ _ => rfl⟩
  · exact ⟨fun _ _ => rfl, fun _ _ => rfl, fun _ _ _ _ => (Progress.clip_still _ _ _ _).symm⟩

/-- A move that adds to the output of the moves before it reads a fault. -/
theorem exists_fault_of_output_lt {source? : Option String} {before : List Move} {last : Move}
    {pass : Pass}
    (more : (Progress.forEach Pass.move before pass ⟨.unlimited, source?⟩).output.length <
      (Progress.forEach Pass.move (before ++ [last]) pass ⟨.unlimited, source?⟩).output.length) :
    ∃ lexeme fault, last = .read lexeme ∧ lexeme.reading = .fault fault := by
  obtain ⟨unrefused, reporter_eq⟩ :=
    Progress.forEach_unlimited Pass.move_clips before pass source?
  rw [Progress.forEach_append, Progress.output_andThen unrefused, reporter_eq,
    List.length_append, Nat.lt_add_right_iff_pos] at more
  rcases last with _ | ⟨token | fault | _, start, text⟩
  · exact absurd more (Nat.lt_irrefl 0)
  · exact absurd more (Nat.lt_irrefl 0)
  · exact ⟨_, fault, rfl, rfl⟩
  · exact absurd more (Nat.lt_irrefl 0)

/-- Moves that overflow their stream stop at a fault, and up to there they go as
on an unlimited stream. -/
theorem forEach_move_overflow {moves : List Move} {pass : Pass} {source? : Option String}
    {limit : Nat} (refusal : Refusal)
    (overflow :
      limit < (Progress.forEach Pass.move moves pass ⟨.unlimited, source?⟩).output.length) :
    ∃ before lexeme fault after, moves = before ++ .read lexeme :: after ∧
      lexeme.reading = .fault fault ∧
      (Progress.forEach Pass.move before pass ⟨.unlimited, source?⟩).output.length ≤ limit ∧
      limit < (Progress.forEach Pass.move (before ++ [.read lexeme]) pass
        ⟨.unlimited, source?⟩).output.length ∧
      Progress.forEach Pass.move moves pass ⟨.limited limit refusal, source?⟩ =
        (Progress.forEach Pass.move (before ++ [.read lexeme]) pass
          ⟨.unlimited, source?⟩).clip limit refusal := by
  obtain ⟨before, last, after, rfl, fits, tooMuch⟩ := Progress.exists_overflow overflow
  obtain ⟨lexeme, fault, rfl, isFault⟩ :=
    exists_fault_of_output_lt (Nat.lt_of_le_of_lt fits tooMuch)
  exact ⟨before, lexeme, fault, after, rfl, isFault, fits, tooMuch,
    Progress.forEach_of_overflow Pass.move_clips fits tooMuch⟩

/-! ## Clipped inputs -/

namespace Pass

variable {pass : Pass} {source? : Option String} {content : Bytes} {limit : Nat}

theorem output_parse (pass : Pass) (reporter : Reporter) (content : Bytes) :
    (pass.parse reporter ⟨content, none⟩).output =
      (Progress.forEach move (moves (Text.lines content)) pass reporter).output := by
  rw [← readLines_eq_forEach_moves, parse, Input.lines_of_content]
  split <;> rfl

/-- A pass over an input that fits its stream goes as on an unlimited one. -/
theorem parse_limited_of_fits (refusal : Refusal)
    (fits : (pass.parse ⟨.unlimited, source?⟩ ⟨content, none⟩).output.length ≤ limit) :
    ∃ reporter, pass.parse ⟨.limited limit refusal, source?⟩ ⟨content, none⟩ =
      { pass.parse ⟨.unlimited, source?⟩ ⟨content, none⟩ with reporter := reporter } := by
  rw [output_parse] at fits
  have limited := Progress.forEach_of_fits move_clips _ pass source? limit refusal fits
  have unrefused :=
    (Progress.forEach_unlimited move_clips (moves (Text.lines content)) pass source?).1
  rw [parse, parse, Input.lines_of_content, readLines_eq_forEach_moves,
    readLines_eq_forEach_moves, limited]
  generalize Progress.forEach move (moves (Text.lines content)) pass
    ⟨.unlimited, source?⟩ = free at fits unrefused
  have whole : free.output.take limit = free.output := List.take_of_length_le fits
  refine ⟨(free.clip limit refusal).reporter, ?_⟩
  simp only [Progress.refusal?_clip_of_fits fits, unrefused]
  simp only [Progress.clip, whole]
  rfl

/-- A run of a pass is cut short at the mark of a fault, after the marks
`before` it: the report of that fault is the first that makes the reports of the
run longer than `limit`.  The run counts it, stands at it and has read nothing
after it, and a later run goes on from there. -/
structure CutShort (pass : Pass) (source? : Option String) (content : Bytes) (limit : Nat)
    (refusal : Refusal) (before : List Mark) (mark : Mark) (parsed : Parsed Pass) : Prop where
  marks_eq : ∃ after, marks content = before ++ mark :: after
  isFault : ∃ fault, mark.lexeme.reading = .fault fault
  least : IsLeast
    {count | limit < (((reports source? pass.cursor.line pass.errors
      (findings (marks content))).take count).flatMap Report.render).length}
    ((findings before).length + 1)
  result_eq : parsed.result = .error refusal
  state_eq : parsed.state =
    { errors := pass.errors + ((findings before).length + 1)
      cursor := ⟨pass.cursor.line + mark.line, mark.lexeme.text⟩
      tokens := pass.tokens + (tokensOf before).length }
  events_eq : parsed.events = scanEvents pass.cursor.line (tokensOf before)
  later : ∀ source? content,
    (parsed.state.parse ⟨.unlimited, source?⟩ ⟨content, none⟩).output =
      (reports source? (pass.cursor.line + mark.line)
        (pass.errors + ((findings before).length + 1))
        (findings (marks content))).flatMap Report.render

/-- The reports up to the first one that does not fit are the least number of
reports that is too long. -/
theorem isLeast_overflow {line : Int} {errors : Nat} {before after : List Finding}
    {finding : Finding}
    (fits : (reportLines source? line errors before).length ≤ limit)
    (overflow : limit < (reportLines source? line errors (before ++ [finding])).length) :
    IsLeast
      {count | limit < (((reports source? line errors (before ++ finding :: after)).take
        count).flatMap Report.render).length}
      (before.length + 1) := by
  constructor
  · have upTo : (reports source? line errors (before ++ finding :: after)).take
        (before.length + 1) = reports source? line errors (before ++ [finding]) := by
      rw [List.append_cons, reports_append]
      apply List.take_left'
      rw [length_reports, List.length_append, List.length_singleton]
    change limit < ((List.take _ _).flatMap Report.render).length
    rw [upTo]
    exact overflow
  · intro count tooLong
    by_contra fewer
    have within : count ≤ (reports source? line errors before).length := by
      rw [length_reports]
      omega
    change limit < ((List.take _ _).flatMap Report.render).length at tooLong
    rw [reports_append, List.take_append_of_le_length within] at tooLong
    have split := List.take_append_drop count (reports source? line errors before)
    rw [reportLines, ← split, List.flatMap_append, List.length_append] at fits
    omega

/-- A refused report ends a pass where it stands. -/
theorem parse_of_refused {reporter : Reporter} {refusal : Refusal}
    (refused : (Progress.forEach move (moves (Text.lines content)) pass reporter).refusal? =
      some refusal) :
    (pass.parse reporter ⟨content, none⟩).result = .error refusal ∧
    (pass.parse reporter ⟨content, none⟩).state =
      (Progress.forEach move (moves (Text.lines content)) pass reporter).state ∧
    (pass.parse reporter ⟨content, none⟩).events =
      (Progress.forEach move (moves (Text.lines content)) pass reporter).events := by
  rw [parse, Input.lines_of_content, readLines_eq_forEach_moves, refused]
  exact ⟨rfl, rfl, rfl⟩

/-- A pass over an input that does not fit its stream is cut short. -/
theorem cutShort_of_overflow (refusal : Refusal)
    (overflow : limit < (pass.parse ⟨.unlimited, source?⟩ ⟨content, none⟩).output.length) :
    ∃ before mark, CutShort pass source? content limit refusal before mark
      (pass.parse ⟨.limited limit refusal, source?⟩ ⟨content, none⟩) := by
  rw [output_parse] at overflow
  obtain ⟨before, lexeme, fault, after, split, isFault, fits, tooMuch, limited⟩ :=
    forEach_move_overflow refusal overflow
  have here : pass.cursor.line = pass.cursor.line + (0 : Nat) := (Int.add_zero _).symm
  obtain ⟨text, reached⟩ := forEach_move_unlimited source? pass.cursor.line before pass here
  have cut := forEach_move_fault source? pass.cursor.line before isFault pass here
  have marksSplit := marks_of_moves_split split
  have refused := Progress.refusal?_clip_of_overflow tooMuch refusal
  rw [← limited] at refused
  -- What the run did is what it does freely up to and with the fault.
  obtain ⟨result_eq, state_eq, events_eq⟩ := parse_of_refused refused
  rw [Nat.zero_add, freely_concat_fault source? _ pass _ _ isFault] at cut
  rw [limited, cut] at state_eq events_eq
  rw [reached] at fits
  rw [cut] at tooMuch
  exists marksFrom 0 before, ⟨linesPassed before, lexeme⟩
  constructor
  · exact ⟨_, marksSplit⟩
  · exact ⟨fault, isFault⟩
  · rw [marksSplit, findings_append, findings_cons_fault isFault]
    exact isLeast_overflow fits tooMuch
  · exact result_eq
  · exact state_eq
  · exact events_eq
  · intro source? content
    rw [parse_eq_tally, state_eq]
    rfl

/-- A limited stream holds the first bytes of what the same run writes to an
unlimited one.  A run that fits ends as the unlimited run does; any other is cut
short at the fault whose report overflows the stream. -/
theorem parse_limited (pass : Pass) (source? : Option String) (content : Bytes) (limit : Nat)
    (refusal : Refusal) :
    let free := pass.parse ⟨.unlimited, source?⟩ ⟨content, none⟩
    let limited := pass.parse ⟨.limited limit refusal, source?⟩ ⟨content, none⟩
    free.output = (reports source? pass.cursor.line pass.errors
        (findings (marks content))).flatMap Report.render ∧
      limited.output = free.output.take limit ∧
      if free.output.length ≤ limit then
        (∃ status, free.result = .ok status ∧ limited.result = .ok status) ∧
          limited.state = free.state ∧ limited.events = free.events
      else
        ∃ before mark, CutShort pass source? content limit refusal before mark limited := by
  intro free limited
  have parsed : free = _ := pass.parse_eq_tally source? content
  have clipped : limited.output = free.output.take limit := by
    change (pass.parse _ _).output = (pass.parse _ _).output.take limit
    rw [output_parse, output_parse]
    exact Progress.output_forEach_limited move_clips _ pass source? limit refusal
  constructor
  · exact congrArg Parsed.output parsed
  constructor
  · exact clipped
  · by_cases fits : free.output.length ≤ limit
    · obtain ⟨reporter, same⟩ := parse_limited_of_fits refusal fits
      change limited = { free with reporter := reporter } at same
      rw [if_pos fits, same]
      exact ⟨⟨_, congrArg Parsed.result parsed, congrArg Parsed.result parsed⟩, rfl, rfl⟩
    · rw [if_neg fits]
      exact cutShort_of_overflow refusal (Nat.lt_of_not_le fits)

/-- A report that is cut is still counted. -/
example :
    let parsed := Pass.parse {} ⟨.limited 9 .streamClosed, none⟩ ⟨Utf8.encode "?\n?", none⟩
    parsed.output = Utf8.encode "[error 1]" ∧ parsed.state.errors = 1 := by
  decide +kernel

end Pass

end MinBasic.Check
