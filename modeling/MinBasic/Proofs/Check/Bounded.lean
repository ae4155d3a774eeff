import Mathlib.Algebra.GroupWithZero.Nat
import Mathlib.Data.List.Flatten
import MinBasic.Proofs.Check.Occurrence
import MinBasic.Proofs.Lexical.Calls

/-!
# Bounds on the work of a token pass

A remark may be empty, so not every lexeme takes a byte; but every lexeme makes a
place lighter, since the keyword of the remark pays for it.  So a place gives no
more lexemes than it weighs, and the start of a text weighs as much as the text
is long.  The work on a line is a loop of calls, which ends at the end of the
line or with a refused report (`Pass.Loops`).  So it is bounded by the line, and
what a pass counts is bounded by its input.
-/

namespace MinBasic.Lexical

/-- A place gives no more lexemes than it weighs. -/
theorem Place.length_lexemes_le_weight (place : Place) :
    place.lexemes.length ≤ place.weight := by
  induction place using lexemes.induct with
  | case1 place ended =>
      rw [lexemes_of_endOfText ended]
      exact Nat.zero_le _
  | case2 place more ih =>
      rw [lexemes_of_more more]
      exact Nat.lt_of_le_of_lt ih (weight_next_lt more)

/-- A text has no more lexemes than bytes. -/
theorem length_lexemes_le (text : Bytes) : (lexemes text).length ≤ text.length :=
  (Place.opening text).length_lexemes_le_weight

end MinBasic.Lexical

namespace MinBasic.Check

open Channel Diagnostic Lexical

/-! ## The loop over a line -/

namespace Pass

/-- The loop over the lexemes from a place, with the number of its calls.  It
ends where the end of the text is read or a report is refused, and nowhere
else. -/
inductive Loops : Nat → Place → Pass → Reporter → Progress Pass → Prop where
  | ended {place : Place} {pass : Pass} {reporter : Reporter}
      (ended : place.lexeme.reading = .endOfText) :
      Loops 1 place pass reporter (.still pass reporter)
  | refused {place : Place} {pass : Pass} {reporter : Reporter} {done : Progress Pass}
      {refusal : Refusal} (more : place.lexeme.reading ≠ .endOfText)
      (read : readLexeme place.lexeme pass reporter = done)
      (refused : done.refusal? = some refusal) :
      Loops 1 place pass reporter done
  | again {place : Place} {pass : Pass} {reporter : Reporter} {done later : Progress Pass}
      {calls : Nat} (more : place.lexeme.reading ≠ .endOfText)
      (read : readLexeme place.lexeme pass reporter = done)
      (unrefused : done.refusal? = none)
      (rest : Loops calls place.next done.state done.reporter later) :
      Loops (calls + 1) place pass reporter
        { later with
          output := done.output ++ later.output
          events := done.events ++ later.events }

/-- The loop from a place ends, after one call for each of its lexemes and one
for the end of the text at most, with the work on those lexemes. -/
theorem exists_loops (place : Place) (pass : Pass) (reporter : Reporter) :
    ∃ calls ≤ place.lexemes.length + 1,
      Loops calls place pass reporter
        (Progress.forEach readLexeme place.lexemes pass reporter) := by
  -- The list of lexemes ends where the loop reads the end; a refusal cuts both.
  induction place using Place.lexemes.induct generalizing pass reporter with
  | case1 place ended =>
      refine ⟨1, Nat.le_add_left 1 _, ?_⟩
      rw [Place.lexemes_of_endOfText ended]
      exact .ended ended
  | case2 place more ih =>
      rw [Place.lexemes_of_more more, Progress.forEach_cons]
      generalize read : readLexeme place.lexeme pass reporter = done
      cases end? : done.refusal? with
      | some refusal =>
          refine ⟨1, Nat.le_add_left 1 _, ?_⟩
          rw [Progress.andThen_of_refused end?]
          exact .refused more read end?
      | none =>
          obtain ⟨calls, bounded, rest⟩ := ih done.state done.reporter
          refine ⟨calls + 1, Nat.succ_le_succ bounded, ?_⟩
          rw [Progress.andThen_of_unrefused end?]
          exact .again more read end? rest

/-- A loop has one outcome, after one number of calls. -/
theorem Loops.unique {place : Place} {pass : Pass} {reporter : Reporter}
    {calls calls' : Nat} {progress progress' : Progress Pass}
    (first : Loops calls place pass reporter progress)
    (second : Loops calls' place pass reporter progress') :
    calls = calls' ∧ progress = progress' := by
  induction first generalizing calls' progress' with
  | ended ended =>
      cases second with
      | ended => exact ⟨rfl, rfl⟩
      | refused more => contradiction
      | again more => contradiction
  | refused more read refused =>
      subst read
      cases second with
      | ended ended => contradiction
      | refused _ read => exact ⟨rfl, read⟩
      | again _ read unrefused =>
          subst read
          rw [refused] at unrefused
          contradiction
  | again more read unrefused _ ih =>
      subst read
      cases second with
      | ended ended => contradiction
      | refused _ read refused =>
          subst read
          rw [unrefused] at refused
          contradiction
      | again _ read _ rest =>
          subst read
          obtain ⟨rfl, rfl⟩ := ih rest
          exact ⟨rfl, rfl⟩

/-- The work on a line is its loop, which makes one call more than the line has
bytes at most. -/
theorem exists_loops_readLine (line : Bytes) (pass : Pass) (reporter : Reporter) :
    ∃ calls ≤ line.length + 1, ∀ calls' progress,
      Loops calls' (.opening line) pass.nextLine reporter progress ↔
        calls' = calls ∧ progress = readLine line pass reporter := by
  obtain ⟨calls, bounded, loops⟩ := exists_loops (.opening line) pass.nextLine reporter
  refine ⟨calls, Nat.le_trans bounded (Nat.succ_le_succ (length_lexemes_le line)), ?_⟩
  intro calls' progress
  constructor
  · exact fun other => other.unique loops
  · rintro ⟨rfl, rfl⟩
    exact loops

end Pass

/-! ## What a pass counts -/

namespace Progress

variable {σ α : Type} {measure : σ → Nat} {size : α → Nat} {work : α → Work σ}

/-- Work on a list raises a measure of the state by what its items weigh at
most. -/
theorem measure_forEach_le
    (step : ∀ item state reporter,
      measure (work item state reporter).state ≤ measure state + size item)
    (items : List α) (state : σ) (reporter : Reporter) :
    measure (forEach work items state reporter).state ≤
      measure state + (items.map size).sum := by
  induction items generalizing state reporter with
  | nil => exact Nat.le_refl _
  | cons item items ih =>
      have first := step item state reporter
      rw [forEach_cons, List.map_cons, List.sum_cons]
      cases end? : (work item state reporter).refusal? with
      | some refusal =>
          rw [andThen_of_refused end?]
          omega
      | none =>
          have later := ih (work item state reporter).state (work item state reporter).reporter
          rw [andThen_of_unrefused end?]
          exact Nat.le_trans later (by omega)

end Progress

/-- The lines that can be read from an input hold no more bytes than it
delivers. -/
theorem length_flatten_lines_le (input : Input) :
    input.lines.flatten.length ≤ input.content.length := by
  have read : input.lines.Sublist (Text.lines input.content) := by
    rw [Input.lines]
    split
    · exact List.Sublist.refl _
    · exact List.filter_sublist
  have kept := read.flatten.length_le
  rwa [Text.flatten_lines] at kept

namespace Pass

/-- The lexemes that a pass has counted, as tokens or as errors. -/
def counted (pass : Pass) : Nat :=
  pass.tokens + pass.errors

theorem counted_readLexeme_le (lexeme : Lexeme) (pass : Pass) (reporter : Reporter) :
    (readLexeme lexeme pass reporter).state.counted ≤ pass.counted + 1 := by
  rcases lexeme with ⟨token | fault | _, start, covered⟩
  · exact Nat.le_of_eq (Nat.add_right_comm _ _ _)
  · exact Nat.le_refl _
  · exact Nat.le_succ _

/-- A line raises the count by its bytes at most. -/
theorem counted_readLine_le (line : Bytes) (pass : Pass) (reporter : Reporter) :
    (readLine line pass reporter).state.counted ≤ pass.counted + line.length := by
  have perLexeme := Progress.measure_forEach_le counted_readLexeme_le (lexemes line)
    pass.nextLine reporter
  rw [List.map_const', List.sum_replicate_nat, Nat.mul_one] at perLexeme
  exact Nat.le_trans perLexeme (Nat.add_le_add_left (length_lexemes_le line) _)

/-- Lines raise the count by their bytes at most. -/
theorem counted_readLines_le (lines : List Bytes) (pass : Pass) (reporter : Reporter) :
    (readLines lines pass reporter).state.counted ≤ pass.counted + lines.flatten.length := by
  rw [List.length_flatten]
  exact Progress.measure_forEach_le counted_readLine_le lines pass reporter

/-- An input raises the count by its bytes at most, however its parse ends. -/
theorem counted_parse_le (pass : Pass) (reporter : Reporter) (input : Input) :
    (pass.parse reporter input).state.counted ≤ pass.counted + input.content.length := by
  have read := counted_readLines_le input.lines pass reporter
  have bytes := length_flatten_lines_le input
  cases end? : (readLines input.lines pass reporter).refusal?.or input.refusal? with
  | some refusal =>
      rw [parse_of_stopped rfl end?]
      exact Nat.le_trans read (Nat.add_le_add_left bytes _)
  | none =>
      rw [parse_of_finished rfl end?]
      exact Nat.le_trans read (Nat.add_le_add_left bytes _)

end Pass

/-- Reading ends within the length of the text, and counts no more than it
reads.  The calls on a text give the end of the text after at most one call for
each of its bytes; the loop over a line has one outcome, after at most one call
more than the line has bytes; and a pass, on whatever stream and input and
however it ends, counts at most as many tokens and errors as the input has
bytes. -/
theorem reading_bounded_by_bytes :
    (∀ text : Bytes, ∃ count ≤ text.length,
      (∀ lexeme ∈ (Place.opening text).calls count, lexeme.reading ≠ .endOfText) ∧
        ((Place.opening text).after count).lexeme.reading = .endOfText) ∧
    (∀ (line : Bytes) (pass : Pass) (reporter : Reporter), ∃ calls ≤ line.length + 1,
      ∀ calls' progress,
        Pass.Loops calls' (.opening line) pass.nextLine reporter progress ↔
          calls' = calls ∧ progress = Pass.readLine line pass reporter) ∧
    ∀ (pass : Pass) (reporter : Reporter) (input : Input),
      (pass.parse reporter input).state.tokens + (pass.parse reporter input).state.errors ≤
        pass.tokens + pass.errors + input.content.length := by
  refine ⟨?_, Pass.exists_loops_readLine, Pass.counted_parse_le⟩
  intro text
  obtain ⟨given, ended⟩ := (Place.opening text).calls_length_lexemes
  refine ⟨(lexemes text).length, length_lexemes_le text, ?_, ended⟩
  rw [lexemes, given]
  intro lexeme member
  obtain ⟨place, rfl, more⟩ := Place.exists_of_mem_lexemes member
  exact more

end MinBasic.Check
