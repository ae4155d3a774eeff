import MinBasic.Channel.Sink
import MinBasic.Text.Ascii

/-!
# Texts written in order

Texts are written to a stream one after another, and a refused text does not end
the writing.  A refused text leaves no room, so the stream stores what it would
store of all texts at once, and refuses a text exactly when it would refuse it
together with the texts before it.  An empty text is never refused, so the texts
are taken not to be empty where refusals are spoken of.
-/

namespace MinBasic.Channel

open Text.Ascii (newline)

namespace Sink

/-! ## Two texts -/

/-- A text is written in two parts as it is written at once.  The first refusal
is the one that counts. -/
theorem write_append_eq (sink : Sink) (first second : Bytes) :
    let done := sink.write first
    let later := done.sink.write second
    sink.write (first ++ second) =
      ⟨later.sink, done.stored ++ later.stored, done.refusal?.or later.refusal?⟩ := by
  cases sink with
  | unlimited => rfl
  | limited room refusal =>
      by_cases fits : first.length ≤ room
      · simp only [write, List.take_append, List.length_append, Nat.sub_sub,
          Nat.le_sub_iff_add_le' fits, if_pos fits, Option.none_or]
      · have tooMuch : ¬ first.length + second.length ≤ room := by omega
        simp only [write, List.take_append, List.length_append, Nat.sub_sub, if_neg fits,
          if_neg tooMuch, Option.some_or]

/-! ## Any number of texts -/

/-- Write texts in order. -/
def writeAll : Sink → List Bytes → List Written
  | _, [] => []
  | sink, text :: texts => sink.write text :: (sink.write text).sink.writeAll texts

@[simp]
theorem writeAll_nil (sink : Sink) : sink.writeAll [] = [] :=
  rfl

@[simp]
theorem writeAll_cons (sink : Sink) (text : Bytes) (texts : List Bytes) :
    sink.writeAll (text :: texts) =
      sink.write text :: (sink.write text).sink.writeAll texts :=
  rfl

@[simp]
theorem length_writeAll (sink : Sink) (texts : List Bytes) :
    (sink.writeAll texts).length = texts.length := by
  induction texts generalizing sink with
  | nil => rfl
  | cons text texts ih => exact congrArg Nat.succ (ih _)

/-- Texts are stored as they are at once. -/
theorem flatMap_stored_writeAll (sink : Sink) (texts : List Bytes) :
    (sink.writeAll texts).flatMap Written.stored = (sink.write texts.flatten).stored := by
  induction texts generalizing sink with
  | nil =>
      rw [writeAll_nil, List.flatten_nil, write_nil]
      rfl
  | cons text texts ih =>
      rw [writeAll_cons, List.flatMap_cons, ih, List.flatten_cons, write_append_eq]

section

variable {texts : List Bytes}

/-- Texts behind a refused one are all refused for its reason. -/
theorem writeAll_of_refused {sink : Sink} {first : Bytes} {refusal : Refusal}
    (refused : (sink.write first).refusal? = some refusal)
    (nonempty : ∀ text ∈ texts, text ≠ []) :
    (sink.write first).sink.writeAll texts =
      texts.map fun _ => ⟨.limited 0 refusal, [], some refusal⟩ := by
  rw [sink_eq_of_refused refused]
  induction texts with
  | nil => rfl
  | cons text texts ih =>
      obtain ⟨textNonempty, nonempty⟩ := List.forall_mem_cons.mp nonempty
      have written : (limited 0 refusal).write text = ⟨.limited 0 refusal, [], some refusal⟩ := by
        simp [write, textNonempty]
      rw [writeAll_cons, written, ih nonempty, List.map_cons]

/-- After a refused text every text is refused, and nothing of it is stored. -/
theorem pairwise_writeAll (nonempty : ∀ text ∈ texts, text ≠ []) (sink : Sink) :
    (sink.writeAll texts).Pairwise fun earlier later =>
      ∀ refusal, earlier.refusal? = some refusal →
        later.refusal? = some refusal ∧ later.stored = [] := by
  induction texts generalizing sink with
  | nil => exact .nil
  | cons text texts ih =>
      obtain ⟨-, nonempty⟩ := List.forall_mem_cons.mp nonempty
      refine .cons ?_ (ih nonempty _)
      intro later member refusal refused
      rw [writeAll_of_refused refused nonempty] at member
      obtain ⟨_, -, rfl⟩ := List.mem_map.mp member
      exact ⟨rfl, rfl⟩

/-- A text is refused as it is at once with the texts before it. -/
theorem refusal?_of_getElem?_writeAll (nonempty : ∀ text ∈ texts, text ≠ []) {sink : Sink}
    {index : Nat} {written : Written} (isThere : (sink.writeAll texts)[index]? = some written) :
    written.refusal? = (sink.write (texts.take (index + 1)).flatten).refusal? := by
  induction texts generalizing sink index with
  | nil => contradiction
  | cons text texts ih =>
      obtain ⟨-, nonempty⟩ := List.forall_mem_cons.mp nonempty
      cases index with
      | zero =>
          obtain rfl := Option.some.inj isThere
          rw [List.take_succ_cons, List.take_zero, List.flatten_cons, List.flatten_nil,
            List.append_nil]
      | succ index =>
          have isThere : ((sink.write text).sink.writeAll texts)[index]? = some written := isThere
          rw [List.take_succ_cons, List.flatten_cons, write_append_eq]
          cases end? : (sink.write text).refusal? with
          | none => rw [Option.none_or, ih nonempty isThere]
          | some refusal =>
              -- No room is left, so only that the text is not empty matters here.
              rw [writeAll_of_refused end? nonempty] at isThere
              obtain ⟨_, -, rfl⟩ := List.mem_map.mp (List.mem_of_getElem? isThere)
              rfl

/-! ## Lines -/

/-- A line is stored with its newline unless it is refused. -/
theorem count_newline_write {body : Bytes} (noNewline : newline ∉ body) (sink : Sink) :
    (sink.write (body ++ [newline])).stored.count newline =
      if (sink.write (body ++ [newline])).refusal?.isNone then 1 else 0 := by
  cases end? : (sink.write (body ++ [newline])).refusal? with
  | none =>
      rw [stored_eq_of_not_refused end?, List.count_append,
        List.count_eq_zero_of_not_mem noNewline, List.count_singleton_self]
      rfl
  | some refusal =>
      cases sink with
      | unlimited => contradiction
      | limited room cause =>
          have overflow : ¬ (body ++ [newline]).length ≤ room := by
            intro fits
            rw [write, if_pos fits] at end?
            contradiction
          have within : room ≤ body.length := by
            rw [List.length_append, List.length_singleton] at overflow
            omega
          change ((body ++ [newline]).take room).count newline = 0
          rw [List.take_append_of_le_length within]
          exact List.count_eq_zero_of_not_mem (mt List.mem_of_mem_take noNewline)

/-- Of lines that are written in order, as many newlines are stored as lines are not
refused. -/
theorem count_newline_writeAll
    (oneLine : ∀ text ∈ texts, ∃ body, text = body ++ [newline] ∧ newline ∉ body) (sink : Sink) :
    ((sink.writeAll texts).flatMap Written.stored).count newline =
      (sink.writeAll texts).countP fun written => written.refusal?.isNone := by
  induction texts generalizing sink with
  | nil => rfl
  | cons text texts ih =>
      obtain ⟨⟨body, rfl, noNewline⟩, others⟩ := List.forall_mem_cons.mp oneLine
      rw [writeAll_cons, List.flatMap_cons, List.count_append, count_newline_write noNewline,
        ih others, List.countP_cons, Nat.add_comm]

end

end Sink

/-! ## Streams that close -/

/-- The stream that closes after a number of bytes, or never. -/
def Sink.closing : Option Nat → Sink
  | none => unlimited
  | some limit => limited limit .streamClosed

/-- The bytes of a text that are stored before the stream closes. -/
def clip : Option Nat → Bytes → Bytes
  | none, text => text
  | some limit, text => text.take limit

/-- Whether a number of bytes is more than is stored before the stream closes. -/
def Overflows : Option Nat → Nat → Prop
  | none, _ => False
  | some limit, length => limit < length

theorem Sink.stored_write_closing (limit? : Option Nat) (text : Bytes) :
    ((closing limit?).write text).stored = clip limit? text := by
  cases limit? <;> rfl

theorem Sink.refusal?_write_closing_eq_some_iff {limit? : Option Nat} {text : Bytes} :
    ((closing limit?).write text).refusal? = some .streamClosed ↔
      Overflows limit? text.length := by
  cases limit? <;> simp [closing, write, Overflows]

theorem Sink.refusal?_write_closing_eq_none_iff {limit? : Option Nat} {text : Bytes} :
    ((closing limit?).write text).refusal? = none ↔ ¬ Overflows limit? text.length := by
  cases limit? <;> simp [closing, write, Overflows]

end MinBasic.Channel
