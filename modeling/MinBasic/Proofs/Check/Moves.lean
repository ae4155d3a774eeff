import MinBasic.Check.Pass

/-!
# The token pass as a list of moves

Reading lines and reading the lexemes of each line are two nested loops.  They
are one loop over a list of moves: go to the next line, or read a lexeme.  What
a list of moves finds is told by its marks, the lexemes with the numbers of
their lines; on a stream that takes everything, the counts, reports and events
of a pass are read off the marks.
-/

namespace MinBasic.Check

open Channel Diagnostic Lexical

/-! ## Moves -/

/-- One move of a token pass. -/
inductive Move where
  | nextLine
  | read (lexeme : Lexeme)
  deriving DecidableEq, Repr

/-- The moves of a token pass over lines. -/
def moves (lines : List Bytes) : List Move :=
  lines.flatMap fun line => .nextLine :: (lexemes line).map .read

@[simp]
theorem moves_nil : moves [] = [] :=
  rfl

theorem moves_cons (line : Bytes) (lines : List Bytes) :
    moves (line :: lines) = .nextLine :: ((lexemes line).map .read ++ moves lines) :=
  rfl

theorem moves_append (first second : List Bytes) :
    moves (first ++ second) = moves first ++ moves second :=
  List.flatMap_append

/-- Make one move. -/
def Pass.move : Move → Work Pass
  | .nextLine => fun pass reporter => .still pass.nextLine reporter
  | .read lexeme => Pass.readLexeme lexeme

/-- Reading lines is making their moves. -/
theorem Pass.readLines_eq_forEach_moves (lines : List Bytes) (pass : Pass)
    (reporter : Reporter) :
    Pass.readLines lines pass reporter =
      Progress.forEach Pass.move (moves lines) pass reporter := by
  induction lines generalizing pass reporter with
  | nil => rfl
  | cons line lines ih =>
      have first : Pass.readLine line pass reporter =
          Progress.forEach Pass.move ((lexemes line).map .read) pass.nextLine reporter := by
        rw [Progress.forEach_map]
        rfl
      rw [Pass.readLines_cons, first, moves_cons, Progress.forEach_cons, Pass.move,
        Progress.still_andThen, Progress.forEach_append]
      congr 1
      funext pass reporter
      exact ih pass reporter

/-! ## Marks -/

/-- A lexeme of an input and the number of its line. -/
structure Mark where
  line : Nat
  lexeme : Lexeme
  deriving DecidableEq, Repr

/-- A fault of an input: the number of its line, the fault, and its text. -/
structure Finding where
  line : Nat
  fault : Fault
  text : Bytes
  deriving DecidableEq, Repr

namespace Mark

/-- The fault at a mark. -/
def finding? (mark : Mark) : Option Finding :=
  match mark.lexeme.reading with
  | .fault fault => some ⟨mark.line, fault, mark.lexeme.text⟩
  | _ => none

theorem finding?_eq_some_iff {mark : Mark} {finding : Finding} :
    mark.finding? = some finding ↔
      mark.lexeme.reading = .fault finding.fault ∧ mark.line = finding.line ∧
        mark.lexeme.text = finding.text := by
  obtain ⟨line, fault, text⟩ := finding
  rw [finding?]
  split
  · rename_i other isFault
    rw [isFault, Option.some.injEq, Finding.mk.injEq, Reading.fault.injEq]
    exact and_left_comm
  · rename_i noFault
    exact iff_of_false nofun fun found => noFault fault found.1

/-- The token at a mark, with the number of its line. -/
def token? (mark : Mark) : Option (Nat × Token) :=
  match mark.lexeme.reading with
  | .token token => some (mark.line, token)
  | _ => none

end Mark

/-- The marks of moves that are made after `passed` lines. -/
def marksFrom : (passed : Nat) → List Move → List Mark
  | _, [] => []
  | passed, .nextLine :: moves => marksFrom (passed + 1) moves
  | passed, .read lexeme :: moves => ⟨passed, lexeme⟩ :: marksFrom passed moves

/-- The number of lines that moves pass. -/
def linesPassed (moves : List Move) : Nat :=
  moves.count .nextLine

@[simp]
theorem linesPassed_nil : linesPassed [] = 0 :=
  rfl

@[simp]
theorem linesPassed_nextLine (moves : List Move) :
    linesPassed (.nextLine :: moves) = linesPassed moves + 1 := by
  simp [linesPassed]

@[simp]
theorem linesPassed_read (lexeme : Lexeme) (moves : List Move) :
    linesPassed (.read lexeme :: moves) = linesPassed moves := by
  simp [linesPassed]

theorem linesPassed_append (first second : List Move) :
    linesPassed (first ++ second) = linesPassed first + linesPassed second :=
  List.count_append

theorem marksFrom_append (passed : Nat) (first second : List Move) :
    marksFrom passed (first ++ second) =
      marksFrom passed first ++ marksFrom (passed + linesPassed first) second := by
  induction first generalizing passed with
  | nil => rfl
  | cons move first ih =>
      cases move with
      | nextLine =>
          rw [List.cons_append, marksFrom, marksFrom, ih, linesPassed_nextLine, Nat.add_assoc,
            Nat.add_comm 1]
      | read lexeme =>
          rw [List.cons_append, marksFrom, marksFrom, ih, linesPassed_read, List.cons_append]

theorem marksFrom_map_read (passed : Nat) (lexemes : List Lexeme) :
    marksFrom passed (lexemes.map .read) = lexemes.map (Mark.mk passed) := by
  induction lexemes with
  | nil => rfl
  | cons lexeme lexemes ih => rw [List.map_cons, marksFrom, ih, List.map_cons]

theorem linesPassed_map_read (lexemes : List Lexeme) :
    linesPassed (lexemes.map .read) = 0 := by
  induction lexemes with
  | nil => rfl
  | cons lexeme lexemes ih => rw [List.map_cons, linesPassed_read, ih]

@[simp]
theorem linesPassed_moves (lines : List Bytes) : linesPassed (moves lines) = lines.length := by
  induction lines with
  | nil => rfl
  | cons line lines ih =>
      rw [moves_cons, linesPassed_nextLine, linesPassed_append, linesPassed_map_read, ih,
        Nat.zero_add, List.length_cons]

/-- The marks of lines, line by line. -/
theorem marksFrom_moves (passed : Nat) (lines : List Bytes) :
    marksFrom passed (moves lines) =
      (lines.zipIdx (passed + 1)).flatMap fun numbered =>
        (lexemes numbered.1).map (Mark.mk numbered.2) := by
  induction lines generalizing passed with
  | nil => rfl
  | cons line lines ih =>
      rw [moves_cons, marksFrom, marksFrom_append, marksFrom_map_read, linesPassed_map_read,
        Nat.add_zero, ih, List.zipIdx_cons, List.flatMap_cons]

end MinBasic.Check
