import MinBasic.Lexical.Lexeme

/-!
# Repeated calls on one text

What a number of calls on one text gives, seen from the call before: every place
that a run of calls reaches follows from the last lexeme that it gave
(`Place.Follows`).  The lexemes of a text are what the calls give up to the
first end of the text.
-/

namespace MinBasic.Lexical

/-- The offset that is reached after a call, or without one. -/
def endOf (previous? : Option Lexeme) : Nat :=
  previous?.elim 0 Lexeme.stop

@[simp]
theorem endOf_none : endOf none = 0 :=
  rfl

@[simp]
theorem endOf_some (previous : Lexeme) : endOf (some previous) = previous.stop :=
  rfl

namespace Place

/-- The lexemes that a number of calls gives. -/
def calls (count : Nat) (place : Place) : List Lexeme :=
  (place.steps count).map Prod.fst

/-- The place after a number of calls. -/
def after : Nat → Place → Place
  | 0, place => place
  | count + 1, place => after count place.next

@[simp]
theorem calls_zero (place : Place) : place.calls 0 = [] :=
  rfl

@[simp]
theorem calls_succ (count : Nat) (place : Place) :
    place.calls (count + 1) = place.lexeme :: place.next.calls count :=
  rfl

/-- Calls can be made in two stretches. -/
theorem steps_add (first second : Nat) (place : Place) :
    place.steps (first + second) = place.steps first ++ (place.after first).steps second := by
  induction first generalizing place with
  | zero => rw [Nat.zero_add]; rfl
  | succ first ih =>
      rw [Nat.succ_add]
      exact congrArg _ (ih place.next)

/-- The last of a number of calls is made at the place after the others. -/
theorem steps_succ_last (count : Nat) (place : Place) :
    place.steps (count + 1) =
      place.steps count ++ [((place.after count).lexeme, (place.after count).next)] :=
  steps_add count 1 place

theorem after_succ_last (count : Nat) (place : Place) :
    place.after (count + 1) = (place.after count).next := by
  induction count generalizing place with
  | zero => rfl
  | succ count ih => exact ih place.next

theorem calls_succ_last (count : Nat) (place : Place) :
    place.calls (count + 1) = place.calls count ++ [(place.after count).lexeme] := by
  rw [calls, steps_succ_last, List.map_append]
  rfl

/-- Each call of a run is made at the place that the calls before it reached. -/
theorem getElem?_calls {count index : Nat} {place : Place} {lexeme : Lexeme} :
    (place.calls count)[index]? = some lexeme ↔
      index < count ∧ lexeme = (place.after index).lexeme := by
  induction count generalizing place index with
  | zero => simp
  | succ count ih =>
      cases index with
      | zero => simp [after, eq_comm]
      | succ index => simp [after, ih]

/-! ## The place after a call -/

theorem blanks_le (place : Place) : place.blanks ≤ place.rest.length := by
  unfold blanks
  split
  · exact Nat.zero_le _
  · exact (List.takeWhile_sublist _).length_le

/-- A place of a text as the last call, if any, leaves it: at the end of what
that call covered, and in the mode that its reading sets. -/
structure Follows (text : Bytes) (previous? : Option Lexeme) (place : Place) : Prop where
  offset_eq : place.offset = endOf previous?
  within : place.offset ≤ text.length
  rest_eq : place.rest = text.drop place.offset
  mode_eq : place.mode = previous?.elim .opening fun previous => previous.reading.nextMode

/-- The start of a text follows no call. -/
theorem follows_opening (text : Bytes) : Follows text none (opening text) where
  offset_eq := rfl
  within := Nat.zero_le _
  rest_eq := rfl
  mode_eq := rfl

namespace Follows

variable {text : Bytes} {previous? : Option Lexeme} {place : Place}

/-- What a place has before it and after it make up its text. -/
theorem length_rest (follows : Follows text previous? place) :
    place.offset + place.rest.length = text.length := by
  rw [follows.rest_eq, List.length_drop]
  have := follows.within
  omega

/-- The bytes after the blanks are still those of the text. -/
theorem ahead_eq (follows : Follows text previous? place) :
    place.ahead = text.drop place.lexeme.start := by
  rw [ahead, follows.rest_eq, List.drop_drop]
  rfl

/-- A call leaves its place within the text, at the end of its lexeme. -/
theorem next (follows : Follows text previous? place) :
    Follows text (some place.lexeme) place.next where
  offset_eq := rfl
  within := by
    have split := congrArg List.length place.rest_eq
    have within := follows.length_rest
    rw [List.length_append, List.length_append,
      List.length_take_of_le place.blanks_le] at split
    change place.offset + place.blanks + place.lexeme.text.length ≤ text.length
    omega
  rest_eq := by
    change place.ahead.drop place.recognition.length = text.drop place.lexeme.stop
    rw [follows.ahead_eq, List.drop_drop, Lexeme.stop, length_lexeme_text]
  mode_eq := rfl

end Follows

/-- A run of calls on a text always stands where its last call ended. -/
theorem follows_after (text : Bytes) (count : Nat) :
    Follows text ((opening text).calls count).getLast? ((opening text).after count) := by
  induction count with
  | zero => exact follows_opening text
  | succ count ih =>
      rw [calls_succ_last, after_succ_last, List.getLast?_concat]
      exact ih.next

/-! ## The lexemes of a text -/

theorem lexemes_of_endOfText {place : Place} (ended : place.lexeme.reading = .endOfText) :
    place.lexemes = [] := by
  rw [lexemes, if_pos ended]

theorem lexemes_of_more {place : Place} (more : place.lexeme.reading ≠ .endOfText) :
    place.lexemes = place.lexeme :: place.next.lexemes := by
  rw [lexemes, if_neg more]

/-- The first of the lexemes is the next one, and the others come after it. -/
theorem lexemes_eq_cons_iff {place : Place} {lexeme : Lexeme} {lexemes' : List Lexeme} :
    place.lexemes = lexeme :: lexemes' ↔
      lexeme.reading ≠ .endOfText ∧ lexeme = place.lexeme ∧ lexemes' = place.next.lexemes := by
  constructor
  · intro split
    by_cases ended : place.lexeme.reading = .endOfText
    · rw [lexemes_of_endOfText ended] at split
      contradiction
    · rw [lexemes_of_more ended] at split
      obtain ⟨rfl, rfl⟩ := List.cons.inj split
      exact ⟨ended, rfl, rfl⟩
  · rintro ⟨more, rfl, rfl⟩
    exact lexemes_of_more more

/-- The lexemes of a text are what its calls give before the first end of the
text. -/
theorem calls_length_lexemes (place : Place) :
    place.calls place.lexemes.length = place.lexemes ∧
      (place.after place.lexemes.length).lexeme.reading = .endOfText := by
  induction place using lexemes.induct with
  | case1 place ended =>
      rw [lexemes_of_endOfText ended]
      exact ⟨rfl, ended⟩
  | case2 place more ih =>
      rw [lexemes_of_more more, List.length_cons, calls_succ, ih.1]
      exact ⟨rfl, ih.2⟩

/-- Each of the lexemes is the next one at some place. -/
theorem exists_of_mem_lexemes {place : Place} {lexeme : Lexeme} (member : lexeme ∈ place.lexemes) :
    ∃ place' : Place, lexeme = place'.lexeme ∧ place'.lexeme.reading ≠ .endOfText := by
  induction place using lexemes.induct with
  | case1 place ended =>
      rw [lexemes_of_endOfText ended] at member
      contradiction
  | case2 place more ih =>
      rw [lexemes_of_more more] at member
      rcases List.mem_cons.mp member with isHere | later
      · exact ⟨place, isHere, more⟩
      · exact ih later

end Place

end MinBasic.Lexical
