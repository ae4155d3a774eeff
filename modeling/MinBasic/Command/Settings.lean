import MinBasic.Event
import MinBasic.Text.Blank

/-!
# Settings

Two environment variables choose where diagnostics go and whether they name
their source.  A value is read without the blanks around it and in either case
of the ASCII letters.  A value that is not known is noted and leaves the setting
as if the variable were unset.
-/

namespace MinBasic.Command

/-- The stream that diagnostics go to. -/
inductive Target where
  | stdout
  | stderr
  deriving DecidableEq, Repr

/-- Where diagnostics go, and whether they have a file clause. -/
structure Settings where
  target : Target := .stdout
  fileClause : Bool := false
  deriving DecidableEq, Repr

namespace Settings

/-- The variable that chooses the stream of the diagnostics. -/
def targetVariable : String := "SUBMINBAS_DIAGNOSTICS"

/-- The variable that switches the file clause. -/
def fileClauseVariable : String := "SUBMINBAS_FILE_CLAUSE"

/-- A value without the blanks around it, in lower case. -/
def normalize (value : String) : String :=
  .ofList ((Text.trim value.toList).map Char.toLower)

/-- The stream with a given name. -/
def target? (name : String) : Option Target :=
  if name = "stdout" then some .stdout
  else if name = "stderr" then some .stderr
  else none

/-- The position of a switch; an empty value switches off. -/
def switch? (value : String) : Option Bool :=
  if value ∈ ["1", "true", "yes", "on"] then some true
  else if value ∈ ["0", "false", "no", "off", ""] then some false
  else none

/-- Read one variable: its setting, and the note of an unknown value. -/
def readValue {α : Type} (known? : String → Option α) (unknown : String → Event)
    (unset : α) : Option String → α × List Event
  | none => (unset, [])
  | some value =>
      match known? (normalize value) with
      | some setting => (setting, [])
      | none => (unset, [unknown (normalize value)])

/-- The setting of the first variable. -/
def readTarget : Option String → Target × List Event :=
  readValue target? (.unknownTarget targetVariable) .stdout

/-- The setting of the second variable. -/
def readFileClause : Option String → Bool × List Event :=
  readValue switch? (.unknownSwitch fileClauseVariable) false

/-- The settings that the values of the two variables make, with the notes of
unknown values. -/
def ofValues (target? fileClause? : Option String) : Settings × List Event :=
  let target := readTarget target?
  let fileClause := readFileClause fileClause?
  (⟨target.1, fileClause.1⟩, target.2 ++ fileClause.2)

end Settings

end MinBasic.Command
