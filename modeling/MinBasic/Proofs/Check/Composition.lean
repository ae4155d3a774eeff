import MinBasic.Proofs.Check.ClosedForm
import MinBasic.Proofs.Check.Occurrence
import MinBasic.Proofs.Text.Complete

/-!
# Runs over the pieces of an input

An input that is cut at line boundaries can be checked piece by piece: the runs
over the pieces, one after the other on one pass, do what one run over the whole
input does.  Numbers and counts go on from run to run, and of the cursor only
the line does.
-/

namespace MinBasic.Check

open Channel Diagnostic Lexical

/-- A run over an input that just ends, on a stream that takes everything. -/
def Run.ofContent (source? : Option String) (content : Bytes) : Run where
  input := ⟨content, none⟩
  source? := source?

/-- Runs that do, one after the other, what one run does: they write and trace
the same, and the last of them ends in the same state and with the same status. -/
structure Composes (runs : List (Parsed Pass)) (whole : Parsed Pass) : Prop where
  last : ∃ earlier final status, runs = earlier ++ [final] ∧ final.state = whole.state ∧
    final.result = .ok status ∧ whole.result = .ok status
  output_eq : runs.flatMap Parsed.output = whole.output
  traces_eq : traces (runs.flatMap Parsed.events) = traces whole.events

namespace Composes

variable {one two whole : Parsed Pass} {runs : List (Parsed Pass)}

/-- One run with a status does what it does. -/
theorem alone {status : Int} (ended : whole.result = .ok status) : Composes [whole] whole where
  last := ⟨[], whole, status, rfl, rfl, ended, ended⟩
  output_eq := List.flatMap_singleton ..
  traces_eq := congrArg traces (List.flatMap_singleton ..)

/-- The second of two runs can be made as several. -/
theorem cons (pair : Composes [one, two] whole) (parts : Composes runs two) :
    Composes (one :: runs) whole where
  last := by
    obtain ⟨before, second, status, split, state_eq, second_ok, whole_ok⟩ := pair.last
    obtain ⟨earlier, final, status', rfl, state_eq', final_ok, two_ok⟩ := parts.last
    obtain ⟨-, same⟩ := List.append_inj' (show [one] ++ [two] = before ++ [second] from split) rfl
    obtain rfl := List.singleton_inj.mp same
    obtain rfl : status = status' := Except.ok.inj (second_ok.symm.trans two_ok)
    exact ⟨one :: earlier, final, status, rfl, state_eq'.trans state_eq, final_ok, whole_ok⟩
  output_eq := by
    rw [List.flatMap_cons, parts.output_eq, ← pair.output_eq, List.flatMap_cons,
      List.flatMap_singleton]
  traces_eq := by
    rw [List.flatMap_cons, traces_append, parts.traces_eq, ← pair.traces_eq, List.flatMap_cons,
      List.flatMap_singleton, traces_append]

end Composes

/-- The marks of a text that is cut at a line boundary. -/
theorem marks_append {first : Bytes} (complete : first ∈ Text.completeTexts) (second : Bytes) :
    marks (first ++ second) =
      marks first ++ marksFrom (Text.lines first).length (moves (Text.lines second)) := by
  rw [← marksFrom_moves_lines, Text.lines_append complete, moves_append, marksFrom_append,
    marksFrom_moves_lines, linesPassed_moves, Nat.zero_add]

namespace Pass

/-- Two runs over an input that is cut at a line boundary do what one run
does. -/
theorem composes_append (pass : Pass) (source? : Option String) {first : Bytes}
    (complete : first ∈ Text.completeTexts) (second : Bytes) :
    let one := pass.parse ⟨.unlimited, source?⟩ ⟨first, none⟩
    let two := one.state.parse ⟨.unlimited, source?⟩ ⟨second, none⟩
    Composes [one, two] (pass.parse ⟨.unlimited, source?⟩ ⟨first ++ second, none⟩) := by
  intro one two
  have one_eq : one = _ := pass.parse_eq_tally source? first
  have here : one.state.cursor.line = pass.cursor.line + (Text.lines first).length := by
    rw [one_eq]
    rfl
  have two_eq : two = _ := one.state.parse_eq_tally_from source? pass.cursor.line second here
  have whole_eq := pass.parse_eq_tally source? (first ++ second)
  rw [marks_append complete, Text.lines_append complete, List.length_append] at whole_eq
  have state_eq : two.state =
      (pass.parse ⟨.unlimited, source?⟩ ⟨first ++ second, none⟩).state := by
    rw [whole_eq, two_eq, one_eq]
    exact pass.tally_tally _ _ _ _
  refine ⟨⟨[one], two, two.state.status, rfl, state_eq, ?_, ?_⟩, ?_, ?_⟩
  · rw [two_eq]
  · rw [state_eq, whole_eq]
  · rw [whole_eq, List.flatMap_cons, List.flatMap_singleton, findings_append,
      reportLines_append, two_eq, one_eq]
    rfl
  · rw [whole_eq, List.flatMap_cons, List.flatMap_singleton, tokensOf_append,
      scanEvents_append, two_eq, one_eq]
    simp only [traces_append, traces_passFinished, List.append_nil]

/-- A pass over an input that is cut into pieces at line boundaries, `last` being
the piece that need not end in a newline: the runs over the pieces, one after
the other and each with a reporter of its own for the same source, do what the
run over the whole input does. -/
theorem parseAll_pieces (pass : Pass) (source? : Option String) (pieces : List Bytes)
    (last : Bytes)
    (boundaries : ∀ piece ∈ pieces, piece = [] ∨ Text.isEnded piece = true) :
    Composes (pass.parseAll ((pieces ++ [last]).map (Run.ofContent source?)))
      (pass.parse ⟨.unlimited, source?⟩ ⟨pieces.flatten ++ last, none⟩) := by
  induction pieces generalizing pass with
  | nil => exact .alone (congrArg Parsed.result (pass.parse_eq_tally source? last))
  | cons piece pieces ih =>
      obtain ⟨boundary, boundaries⟩ := List.forall_mem_cons.mp boundaries
      rw [List.flatten_cons, List.append_assoc]
      exact (composes_append pass source? boundary _).cons (ih _ boundaries)

/-- Three pieces, one of them empty, and a last line without a newline, on a pass
that was used before. -/
theorem parseAll_pieces_of_three :
    let pass : Pass := { errors := 3, cursor := { line := 7 }, tokens := 5 }
    let pieces := [Text.Utf8.encode "10 ?\n20 \"A\n", [], Text.Utf8.encode "LETT REM ?\n"]
    let last := Text.Utf8.encode "A @"
    (∀ piece ∈ pieces, piece = [] ∨ Text.isEnded piece = true) ∧
      Composes (pass.parseAll ((pieces ++ [last]).map (Run.ofContent (some "A.BAS"))))
        (pass.parse ⟨.unlimited, some "A.BAS"⟩ ⟨pieces.flatten ++ last, none⟩) := by
  intro pass pieces last
  have boundaries : ∀ piece ∈ pieces, piece = [] ∨ Text.isEnded piece = true := by
    decide +kernel
  exact ⟨boundaries, pass.parseAll_pieces (some "A.BAS") pieces last boundaries⟩

end Pass

end MinBasic.Check
