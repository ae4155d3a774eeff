import MinBasic.Channel.Refusal
import MinBasic.Text.Line

/-!
# Inputs

An input delivers bytes and then ends or is refused.  A line is read when its
newline arrives; the last line may lack one when the input ends, but is lost
when the input is refused.
-/

namespace MinBasic.Channel

/-- The bytes that an input delivers, and the refusal that follows them if it
does not just end. -/
structure Input where
  content : Bytes
  refusal? : Option Refusal := none
  deriving DecidableEq, Repr

namespace Input

/-- An input that delivers the first bytes of a text and is then refused. -/
def brokenAfter (text : Bytes) (count : Nat) (refusal : Refusal) : Input :=
  ⟨text.take count, some refusal⟩

/-- An input that can be opened but not read. -/
def unreadable (refusal : Refusal) : Input :=
  ⟨[], some refusal⟩

/-- The lines that can be read from an input. -/
def lines (input : Input) : List Bytes :=
  match input.refusal? with
  | none => Text.lines input.content
  | some _ => (Text.lines input.content).filter Text.isEnded

@[simp]
theorem lines_of_content (content : Bytes) : lines ⟨content, none⟩ = Text.lines content :=
  rfl

end Input

end MinBasic.Channel
