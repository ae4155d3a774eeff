import MinBasic.Channel.Refusal
import MinBasic.Text.Ascii

/-!
# Output streams

A sink is what a stream will still take.  Writing to it says what was stored,
so the content of a stream is the concatenation of what its writes stored.  A
limited sink stores what fits; a write that does not fit is refused.
-/

namespace MinBasic.Channel

/-- What an output stream still takes: everything, or a number of bytes before
it refuses. -/
inductive Sink where
  | unlimited
  | limited (room : Nat) (refusal : Refusal)
  deriving DecidableEq, Repr

/-- The outcome of a write: the sink after it, the bytes that were stored, and
the refusal if they were not all. -/
structure Written where
  sink : Sink
  stored : Bytes
  refusal? : Option Refusal
  deriving DecidableEq, Repr

namespace Sink

/-- Write bytes as far as they fit. -/
def write : Sink → Bytes → Written
  | unlimited, bytes => ⟨unlimited, bytes, none⟩
  | limited room refusal, bytes =>
      { sink := limited (room - bytes.length) refusal
        stored := bytes.take room
        refusal? := if bytes.length ≤ room then none else some refusal }

@[simp]
theorem write_unlimited (bytes : Bytes) : unlimited.write bytes = ⟨unlimited, bytes, none⟩ :=
  rfl

/-- Writing nothing is never refused. -/
@[simp]
theorem write_nil (sink : Sink) : sink.write [] = ⟨sink, [], none⟩ := by
  cases sink <;> simp [write]

/-- Bytes can be written in two parts, if the first part is not refused. -/
theorem write_append {sink : Sink} {first : Bytes}
    (accepted : (sink.write first).refusal? = none) (second : Bytes) :
    sink.write (first ++ second) =
      { (sink.write first).sink.write second with
        stored := (sink.write first).stored ++ ((sink.write first).sink.write second).stored } := by
  cases sink with
  | unlimited => rfl
  | limited room refusal =>
      have fits : first.length ≤ room := by simpa [write] using accepted
      simp only [write, List.take_append, List.length_append, Nat.sub_sub,
        Nat.le_sub_iff_add_le' fits]

/-- A write that is not refused stores all its bytes. -/
theorem stored_eq_of_not_refused {sink : Sink} {bytes : Bytes}
    (accepted : (sink.write bytes).refusal? = none) : (sink.write bytes).stored = bytes := by
  cases sink with
  | unlimited => rfl
  | limited room refusal =>
      have fits : bytes.length ≤ room := by simpa [write] using accepted
      exact List.take_of_length_le fits

/-- A refused write leaves no room. -/
theorem sink_eq_of_refused {sink : Sink} {bytes : Bytes} {refusal : Refusal}
    (refused : (sink.write bytes).refusal? = some refusal) :
    (sink.write bytes).sink = limited 0 refusal := by
  cases sink with
  | unlimited => simp at refused
  | limited room cause =>
      have overflow : ¬ bytes.length ≤ room ∧ cause = refusal := by simpa [write] using refused
      have full : room - bytes.length = 0 := by omega
      simp [write, full, overflow.2]

end Sink

end MinBasic.Channel
