import MinBasic.Proofs.Check.Received

/-!
# Runs over an input that breaks off

An input that is refused after some bytes loses the line in which it breaks off.
A run over it does what a run over the complete lines before that place does,
and then ends with the refusal of the input; but a report that is refused before
comes first.
-/

namespace MinBasic.Check

open Channel Diagnostic Lexical

/-- The lines of an input that breaks off are those of the longest prefix of
complete lines of what it delivers. -/
theorem exists_lines_brokenAfter (content : Bytes) (count : Nat) (refusal : Refusal) :
    ∃ whole, IsLongestPrefix Text.completeTexts (content.take count) whole ∧
      (Input.brokenAfter content count refusal).lines = Text.lines whole := by
  let input := Input.brokenAfter content count refusal
  exact ⟨input.received, (input.isLongestPrefix_received rfl).1, input.lines_received.symm⟩

namespace Pass

/-- A run over an input that breaks off, against the run over its complete lines
(`whole`) as an input that just ends.  Both write, count and trace the same.  If
the run over the complete lines ends with a status, the other one ends with the
refusal of the input and does not note that it finished; if a report is refused,
both end with that refusal. -/
theorem parse_brokenAfter (pass : Pass) (reporter : Reporter) (content : Bytes)
    (count : Nat) (refusal : Refusal) :
    ∃ whole, IsLongestPrefix Text.completeTexts (content.take count) whole ∧
      let broken := pass.parse reporter (.brokenAfter content count refusal)
      let ended := pass.parse reporter ⟨whole, none⟩
      broken.output = ended.output ∧ broken.reporter = ended.reporter ∧
        broken.state.errors = ended.state.errors ∧
        broken.state.tokens = ended.state.tokens ∧
        broken.state.cursor.line = ended.state.cursor.line ∧
        traces broken.events = traces ended.events ∧
        match ended.result with
        | .ok _ =>
            broken.result = .error refusal ∧
              ∀ lines tokens errors, .passFinished lines tokens errors ∉ broken.events
        | .error cause => broken.result = .error cause := by
  obtain ⟨whole, isLongest, lines_eq⟩ := exists_lines_brokenAfter content count refusal
  exists whole, isLongest
  have events_eq := (tells_readLines (Text.lines whole) pass reporter).events_eq
  have readEnded : readLines (Input.lines ⟨whole, none⟩) pass reporter =
      readLines (Text.lines whole) pass reporter := rfl
  have readBroken : readLines (Input.brokenAfter content count refusal).lines pass reporter =
      readLines (Text.lines whole) pass reporter := by rw [lines_eq]
  generalize readLines (Text.lines whole) pass reporter = progress at *
  cases refused : progress.refusal? with
  | some cause =>
      -- Both runs meet the refused report before their inputs end.
      have stopped (last? : Option Refusal) : progress.refusal?.or last? = some cause := by
        rw [refused, Option.some_or]
      rw [parse_of_stopped readEnded (stopped _), parse_of_stopped readBroken (stopped _)]
      exact ⟨rfl, rfl, rfl, rfl, rfl, rfl, rfl⟩
  | none =>
      have finished : progress.refusal?.or none = none := by rw [refused, Option.none_or]
      have stopped : progress.refusal?.or (some refusal) = some refusal := by
        rw [refused, Option.none_or]
      rw [parse_of_finished readEnded finished, parse_of_stopped readBroken stopped]
      refine ⟨rfl, rfl, rfl, rfl, rfl, ?_, rfl, ?_⟩
      · simp
      · intro lines tokens errors member
        rw [events_eq] at member
        exact absurd (Log.level_of_mem_events member) (by simp [Event.level])

/-- The second line is lost although all its bytes arrive. -/
example :
    let parsed := Pass.parse {} ⟨.unlimited, none⟩
      (.brokenAfter (Text.Utf8.encode "10 ?\n20 ?") 9 .readFailed)
    parsed.state.errors = 1 ∧ parsed.state.tokens = 1 ∧ parsed.state.cursor.line = 1 := by
  decide +kernel

end Pass

end MinBasic.Check
