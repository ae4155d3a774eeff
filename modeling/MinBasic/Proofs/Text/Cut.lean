import MinBasic.Text.Line

/-!
# What it means to cut a text into lines

A text is cut right after every newline, and nowhere else.  A tail without a
newline is a line unless it is empty.  `CutInto` says this without building the
lines, and `lines` is the only list that meets it.
-/

namespace MinBasic.Text

open Ascii

/-- A text is cut after every newline; an empty tail is no line. -/
inductive CutInto : Bytes → List Bytes → Prop
  | nothing : CutInto [] []
  | unended {line : Bytes} (nonempty : line ≠ []) (noNewline : newline ∉ line) :
      CutInto line [line]
  | ended {line rest : Bytes} {lines : List Bytes} (noNewline : newline ∉ line)
      (later : CutInto rest lines) :
      CutInto (line ++ newline :: rest) ((line ++ [newline]) :: lines)

theorem consByte_of_ne {byte : UInt8} (ne : byte ≠ newline) (line : Bytes) (more : List Bytes) :
    consByte byte (line :: more) = (byte :: line) :: more := by
  rw [consByte, if_neg ne]

/-- A byte in front of a text goes to the first line, or is a line. -/
theorem CutInto.cons {text : Bytes} {lines : List Bytes} (cut : CutInto text lines)
    (byte : UInt8) : CutInto (byte :: text) (consByte byte lines) := by
  by_cases isNewline : byte = newline
  · subst isNewline
    exact .ended (List.not_mem_nil : newline ∉ []) cut
  · have notInFront {line : Bytes} (noNewline : newline ∉ line) : newline ∉ byte :: line := by
      rw [List.mem_cons, not_or]
      exact ⟨Ne.symm isNewline, noNewline⟩
    cases cut with
    | nothing =>
        rw [consByte, if_neg isNewline]
        exact .unended (List.cons_ne_nil _ _) (notInFront List.not_mem_nil)
    | unended nonempty noNewline =>
        rw [consByte_of_ne isNewline]
        exact .unended (List.cons_ne_nil _ _) (notInFront noNewline)
    | ended noNewline later =>
        rw [consByte_of_ne isNewline]
        exact .ended (notInFront noNewline) later

/-- The lines of a text are a cut of it. -/
theorem cutInto_lines (text : Bytes) : CutInto text (lines text) := by
  induction text with
  | nil => exact .nothing
  | cons byte text ih => exact ih.cons byte

theorem lines_eq_singleton {line : Bytes} (nonempty : line ≠ []) (noNewline : newline ∉ line) :
    lines line = [line] := by
  induction line with
  | nil => contradiction
  | cons byte line ih =>
      rw [List.mem_cons, not_or] at noNewline
      cases line with
      | nil => rw [lines_cons, lines_nil, consByte, if_neg (Ne.symm noNewline.1)]
      | cons next line =>
          rw [lines_cons, ih (List.cons_ne_nil _ _) noNewline.2,
            consByte_of_ne (Ne.symm noNewline.1)]

theorem lines_append_newline {line : Bytes} (noNewline : newline ∉ line) (rest : Bytes) :
    lines (line ++ newline :: rest) = (line ++ [newline]) :: lines rest := by
  induction line with
  | nil => rfl
  | cons byte line ih =>
      rw [List.mem_cons, not_or] at noNewline
      rw [List.cons_append, lines_cons, ih noNewline.2, consByte_of_ne (Ne.symm noNewline.1)]
      rfl

/-- A text has one cut, its lines. -/
theorem cutInto_iff {text : Bytes} {cut : List Bytes} : CutInto text cut ↔ cut = lines text := by
  constructor
  · intro isCut
    induction isCut with
    | nothing => rfl
    | unended nonempty noNewline => exact (lines_eq_singleton nonempty noNewline).symm
    | ended noNewline later ih => rw [lines_append_newline noNewline, ih]
  · rintro rfl
    exact cutInto_lines text

/-! ## Lines in place of others -/

theorem isEnded_iff {text : Bytes} : isEnded text = true ↔ text.getLast? = some newline :=
  decide_eq_true_iff

theorem newline_mem_of_isEnded {text : Bytes} (ended : isEnded text = true) : newline ∈ text :=
  List.mem_of_getLast? (isEnded_iff.mp ended)

/-- A line has no newline but at its end. -/
theorem newline_not_mem_dropLast_of_mem_lines {text line : Bytes} (member : line ∈ lines text) :
    newline ∉ line.dropLast := by
  have cut := cutInto_lines text
  generalize lines text = cutLines at cut member
  induction cut with
  | nothing => contradiction
  | unended nonempty noNewline =>
      rw [List.mem_singleton.mp member]
      exact fun inside => noNewline (List.dropLast_subset _ inside)
  | ended noNewline _ ih =>
      rcases List.mem_cons.mp member with rfl | member
      · rwa [List.dropLast_concat]
      · exact ih member

/-- A line that ends like another one and so can be put in its place. -/
structure StandsFor (line line' : Bytes) : Prop where
  nonempty : line' ≠ []
  oneLine : newline ∉ line'.dropLast
  ended : isEnded line' = isEnded line

/-- Before the end of a line there is no newline. -/
theorem newline_not_mem_of_append {front rest : Bytes}
    (oneLine : newline ∉ (front ++ rest).dropLast) (more : rest ≠ []) : newline ∉ front := by
  rw [List.dropLast_append_of_ne_nil more] at oneLine
  exact fun member => oneLine (List.mem_append_left _ member)

/-- A line can be replaced up to its end. -/
theorem StandsFor.of_append {front front' rest : Bytes} (nonempty : front' ≠ [])
    (noNewline : newline ∉ front) (noNewline' : newline ∉ front')
    (oneLine : newline ∉ (front ++ rest).dropLast) :
    StandsFor (front ++ rest) (front' ++ rest) := by
  by_cases nothing : rest = []
  · rw [nothing, List.append_nil, List.append_nil]
    refine ⟨nonempty, fun inside => noNewline' (List.dropLast_subset _ inside), ?_⟩
    rw [Bool.eq_iff_iff]
    exact iff_of_false (mt newline_mem_of_isEnded noNewline') (mt newline_mem_of_isEnded noNewline)
  · rw [List.dropLast_append_of_ne_nil nothing] at oneLine
    constructor
    · exact List.append_ne_nil_of_right_ne_nil _ nothing
    · rw [List.dropLast_append_of_ne_nil nothing, List.mem_append]
      rintro (inFront | inRest)
      · exact noNewline' inFront
      · exact oneLine (List.mem_append_right _ inRest)
    · simp only [isEnded, List.getLast?_append, List.getLast?_eq_some_getLast nothing,
        Option.some_or]

/-- A line without a newline at its end has none. -/
theorem newline_not_mem_of_not_isEnded {line : Bytes} (oneLine : newline ∉ line.dropLast)
    (unended : isEnded line = false) : newline ∉ line := by
  rcases List.eq_nil_or_concat line with rfl | ⟨body, last, rfl⟩
  · exact List.not_mem_nil
  · rw [List.concat_eq_append] at *
    rw [List.dropLast_concat] at oneLine
    rw [isEnded, List.getLast?_concat, decide_eq_false_iff_not, Option.some.injEq] at unended
    rw [List.mem_append, List.mem_singleton, not_or]
    exact ⟨oneLine, Ne.symm unended⟩

/-- Where a line is replaced the other lines stay as they are. -/
theorem CutInto.replace {text line line' : Bytes} {above below : List Bytes}
    (cut : CutInto text (above ++ line :: below)) (standsFor : StandsFor line line') :
    CutInto (above ++ line' :: below).flatten (above ++ line' :: below) := by
  induction above generalizing text with
  | nil =>
      rw [List.nil_append] at cut ⊢
      cases cut with
      | unended nonempty noNewline =>
          have unended : isEnded line' = false := by
            rw [standsFor.ended, Bool.eq_false_iff]
            exact mt newline_mem_of_isEnded noNewline
          rw [List.flatten_singleton]
          exact .unended standsFor.nonempty
            (newline_not_mem_of_not_isEnded standsFor.oneLine unended)
      | @ended body rest _ _ later =>
          have ended : isEnded line' = true := by
            rw [standsFor.ended, isEnded_iff, List.getLast?_concat]
          obtain ⟨body', rfl⟩ := List.getLast?_eq_some_iff.mp (isEnded_iff.mp ended)
          have oneLine := standsFor.oneLine
          rw [List.dropLast_concat] at oneLine
          have rest_eq : below.flatten = rest := by
            rw [cutInto_iff.mp later, flatten_lines]
          rw [List.flatten_cons, rest_eq, List.append_assoc]
          exact .ended oneLine later
  | cons first above ih =>
      rw [List.cons_append] at cut ⊢
      generalize later_eq : above ++ line :: below = later at cut
      cases cut with
      | unended => exact absurd later_eq (by simp)
      | ended noNewline cut =>
          rw [List.flatten_cons, List.append_assoc]
          exact .ended noNewline (ih (later_eq ▸ cut))

end MinBasic.Text
