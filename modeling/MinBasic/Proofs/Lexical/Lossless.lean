import MinBasic.Proofs.Lexical.Reference

/-!
# No byte is lost

Every call of a run accounts for the bytes from the end of the call before it to
its own end: first blanks, then what its lexeme covers.  The spans are in order
and within the text, they are empty only for an empty remark and at the end of
the text, and so the skipped and the covered bytes, joined, are the text.
-/

namespace MinBasic.Lexical

open Text.Ascii

/-! ## Parts of a text -/

/-- The bytes of a text between two offsets. -/
def slice (text : Bytes) (start stop : Nat) : Bytes :=
  (text.take stop).drop start

theorem slice_eq_take_drop (text : Bytes) (start length : Nat) :
    slice text start (start + length) = (text.drop start).take length := by
  rw [slice, List.drop_take, Nat.add_sub_cancel_left]

@[simp]
theorem slice_self (text : Bytes) (start : Nat) : slice text start start = [] :=
  (slice_eq_take_drop text start 0).trans List.take_zero

/-- Adjacent parts join. -/
theorem slice_append_slice (text : Bytes) {start middle stop : Nat} (ordered : start ≤ middle)
    (ordered' : middle ≤ stop) :
    slice text start middle ++ slice text middle stop = slice text start stop := by
  obtain ⟨first, rfl⟩ := Nat.exists_eq_add_of_le ordered
  obtain ⟨second, rfl⟩ := Nat.exists_eq_add_of_le ordered'
  rw [slice_eq_take_drop, slice_eq_take_drop, Nat.add_assoc, slice_eq_take_drop, List.take_add,
    List.drop_drop]

/-! ## What a call accounts for -/

/-- A call, with the place after it, accounts for the bytes of a text from
`before` to the end of its lexeme. -/
structure Accounted (text : Bytes) (before : Nat) (lexeme : Lexeme) (next : Place) : Prop where
  ordered : before ≤ lexeme.start ∧ lexeme.start ≤ lexeme.stop ∧ lexeme.stop ≤ text.length
  skipped : ∀ byte ∈ slice text before lexeme.start, isBlank byte = true
  covered : slice text lexeme.start lexeme.stop = lexeme.text
  nonempty : lexeme.reading ≠ .terminal .remarkString → lexeme.reading ≠ .endOfText →
    lexeme.start < lexeme.stop
  atEnd : next.isAtEnd = true ↔ lexeme.stop = text.length
  ending : lexeme.reading = .endOfText → lexeme.start = text.length ∧ lexeme.stop = text.length

/-- The end of a text is read behind its last byte and covers nothing. -/
theorem Accounted.eq_of_endOfText {text : Bytes} {before : Nat} {lexeme : Lexeme} {next : Place}
    (accounted : Accounted text before lexeme next) (ended : lexeme.reading = .endOfText) :
    lexeme = ⟨.endOfText, text.length, []⟩ := by
  obtain ⟨start_eq, stop_eq⟩ := accounted.ending ended
  have empty : lexeme.text = [] := by
    apply List.length_eq_zero_iff.mp
    rw [Lexeme.stop, start_eq] at stop_eq
    exact Nat.add_eq_left.mp stop_eq
  obtain ⟨reading, start, covered⟩ := lexeme
  rw [Lexeme.mk.injEq]
  exact ⟨ended, start_eq, empty⟩

/-- Each call of a run accounts for the bytes from the end of the call before it
to its own end. -/
def Lossless (text : Bytes) : (before : Nat) → List (Lexeme × Place) → Prop
  | _, [] => True
  | before, (lexeme, next) :: calls =>
      Accounted text before lexeme next ∧ Lossless text lexeme.stop calls

/-- Each call of a run starts where the calls before it ended or later. -/
theorem Lossless.pairwise {text : Bytes} {before : Nat} {steps : List (Lexeme × Place)}
    (lossless : Lossless text before steps) :
    (∀ step ∈ steps, before ≤ step.1.start) ∧
      steps.Pairwise fun earlier later => earlier.1.stop ≤ later.1.start := by
  induction steps generalizing before with
  | nil => exact ⟨nofun, .nil⟩
  | cons step steps ih =>
      obtain ⟨accounted, lossless⟩ := lossless
      obtain ⟨behind, apart⟩ := ih lossless
      obtain ⟨start_le, le_stop, -⟩ := accounted.ordered
      constructor
      · intro later member
        rcases List.mem_cons.mp member with rfl | member
        · exact start_le
        · exact (start_le.trans le_stop).trans (behind later member)
      · exact List.pairwise_cons.mpr ⟨behind, apart⟩

/-- The bytes that a run of calls skips and covers, in order. -/
def pieces (text : Bytes) : (before : Nat) → List Lexeme → Bytes
  | _, [] => []
  | before, lexeme :: lexemes =>
      slice text before lexeme.start ++ lexeme.text ++ pieces text lexeme.stop lexemes

namespace Place

/-- A lexeme is empty only at the end of a text or as a remark. -/
theorem recognition_length_pos {place : Place} (noRemark : place.mode ≠ .remark)
    (more : place.lexeme.reading ≠ .endOfText) : 0 < place.recognition.length := by
  have notAtEnd : ¬ (place.mode ≠ .remark ∧ place.ahead = []) :=
    mt Recognition.ofText_reading_eq_endOfText_iff.mpr more
  rw [recognition_eq noRemark]
  cases here : place.ahead with
  | nil => exact absurd ⟨noRemark, here⟩ notAtEnd
  | cons byte rest => exact Recognition.statement_length_pos _ byte rest

theorem isBlank_of_mem_take_blanks {place : Place} {byte : UInt8}
    (member : byte ∈ place.rest.take place.blanks) : isBlank byte = true := by
  by_cases isRemark : place.mode = .remark
  · have noBlanks : place.blanks = 0 := by rw [blanks, isRemark]
    rw [noBlanks] at member
    contradiction
  · have longest := isLongestPrefix_blanks isRemark
    exact mem_kstar_ofClass_iff.mp longest.mem byte member

namespace Follows

variable {text : Bytes} {previous? : Option Lexeme} {place : Place}

/-- One call accounts for its bytes. -/
theorem accounted (follows : Follows text previous? place) :
    Accounted text (endOf previous?) place.lexeme place.next where
  ordered := by
    refine ⟨?_, Nat.le_add_right _ _, follows.next.within⟩
    rw [← follows.offset_eq]
    exact Nat.le_add_right _ _
  skipped := by
    intro byte member
    rw [← follows.offset_eq] at member
    change byte ∈ slice text place.offset (place.offset + place.blanks) at member
    rw [slice_eq_take_drop, ← follows.rest_eq] at member
    exact isBlank_of_mem_take_blanks member
  covered := by
    rw [Lexeme.stop, slice_eq_take_drop, ← follows.ahead_eq, length_lexeme_text]
    rfl
  nonempty := by
    intro notRemark more
    have noRemark : place.mode ≠ .remark := by
      intro isRemark
      rw [lexeme_of_remark isRemark] at notRemark
      contradiction
    have pos := recognition_length_pos noRemark more
    rw [Lexeme.stop, length_lexeme_text]
    omega
  atEnd := by
    have left := follows.next.length_rest
    rw [next_offset] at left
    rw [isAtEnd, List.isEmpty_iff, ← List.length_eq_zero_iff]
    omega
  ending := by
    intro ended
    have nothingAhead := (Recognition.ofText_reading_eq_endOfText_iff.mp ended).2
    have start_le : place.lexeme.start ≤ place.lexeme.stop := Nat.le_add_right _ _
    have stop_le : place.lexeme.stop ≤ text.length := follows.next.within
    have length_le : text.length ≤ place.lexeme.start := by
      rwa [follows.ahead_eq, List.drop_eq_nil_iff] at nothingAhead
    omega

/-- A run of calls accounts for its bytes, call by call. -/
theorem lossless (follows : Follows text previous? place) (count : Nat) :
    Lossless text (endOf previous?) (place.steps count) := by
  induction count generalizing previous? place with
  | zero => trivial
  | succ count ih => exact ⟨follows.accounted, ih follows.next⟩

theorem offset_le_offset_after (place : Place) (count : Nat) :
    place.offset ≤ (place.after count).offset := by
  induction count generalizing place with
  | zero => exact Nat.le_refl _
  | succ count ih =>
      have step : place.offset ≤ place.next.offset :=
        Nat.le_trans (Nat.le_add_right _ _) (Nat.le_add_right _ _)
      exact Nat.le_trans step (ih place.next)

/-- What a run of calls skips and covers is the part of the text that it
passes. -/
theorem pieces_calls (follows : Follows text previous? place) (count : Nat) :
    pieces text (endOf previous?) (place.calls count) =
      slice text (endOf previous?) (place.after count).offset := by
  induction count generalizing previous? place with
  | zero =>
      rw [after, follows.offset_eq, slice_self]
      rfl
  | succ count ih =>
      have accounted := follows.accounted
      have later := ih follows.next
      have passed : place.lexeme.stop ≤ (place.after (count + 1)).offset :=
        offset_le_offset_after place.next count
      rw [endOf_some] at later
      rw [calls_succ, pieces, later, ← accounted.covered,
        slice_append_slice text accounted.ordered.1 accounted.ordered.2.1]
      exact slice_append_slice text
        (Nat.le_trans accounted.ordered.1 accounted.ordered.2.1) passed

end Follows

end Place

/-- After the lexemes of a text a call gives the end of the text. -/
theorem calls_succ_length_lexemes (text : Bytes) :
    (Place.opening text).calls ((lexemes text).length + 1) =
      lexemes text ++ [⟨.endOfText, text.length, []⟩] := by
  obtain ⟨same, ended⟩ := (Place.opening text).calls_length_lexemes
  have follows := Place.follows_after text (lexemes text).length
  have last := follows.accounted.eq_of_endOfText ended
  rw [Place.calls_succ_last, last]
  exact congrArg (· ++ [_]) same

/-- Scanning loses no byte.  Every run of calls accounts for its bytes, what it
skips and covers is the text up to the end of its last call, and some run
reaches the end of the text, so that the skipped and covered bytes are the
text. -/
theorem calls_lossless (text : Bytes) :
    (∀ count, Lossless text 0 ((Place.opening text).steps count)) ∧
    (∀ count, pieces text 0 ((Place.opening text).calls count) =
      text.take (endOf ((Place.opening text).calls count).getLast?)) ∧
    ∃ count lexeme, ((Place.opening text).calls count).getLast? = some lexeme ∧
      lexeme.reading = .endOfText ∧ pieces text 0 ((Place.opening text).calls count) = text := by
  have start := Place.follows_opening text
  have joined : ∀ count, pieces text 0 ((Place.opening text).calls count) =
      text.take (endOf ((Place.opening text).calls count).getLast?) := by
    intro count
    rw [← (Place.follows_after text count).offset_eq]
    exact start.pieces_calls count
  refine ⟨start.lossless, joined, ?_⟩
  have ended := (Place.opening text).calls_length_lexemes.2
  generalize (Place.opening text).lexemes.length = count at ended
  have last : ((Place.opening text).calls (count + 1)).getLast? =
      some ((Place.opening text).after count).lexeme := by
    rw [Place.calls_succ_last, List.getLast?_concat]
  refine ⟨count + 1, _, last, ended, ?_⟩
  have stop_eq := ((Place.follows_after text count).accounted.ending ended).2
  rw [joined, last, endOf_some, stop_eq, List.take_length]

end MinBasic.Lexical
