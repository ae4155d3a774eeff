import Mathlib.Data.List.Chain
import MinBasic.Proofs.Lexical.Replacing

/-!
# Respacing a line

The lexemes of a line can be printed with any blanks between them and are scanned
again as they were, faults included.  Two lexemes that touched in the line are
told apart by a blank as they were told apart by each other, because a rule sees
no more of the text after a lexeme than where the lexeme stops.  Only a remark
is not moved away from its keyword: its blanks are its own.
-/

namespace MinBasic.Lexical

open Computability Text Text.Ascii

/-! ## Printing lexemes with blanks -/

/-- Tab, form feed, carriage return and space: the blanks inside a line. -/
def spaces : Bytes :=
  [0x09, 0x0C, 0x0D, 0x20]

/-- Lexemes joined to a text, each after the blanks that are put before it. -/
def joined (spaced : List (Bytes × Lexeme)) : Bytes :=
  spaced.flatMap fun item => item.1 ++ item.2.text

/-- The lexemes at the offsets where they are printed from `offset` on. -/
def relocated (offset : Nat) : List (Bytes × Lexeme) → List Lexeme
  | [] => []
  | (gap, lexeme) :: spaced =>
      { lexeme with start := offset + gap.length } ::
        relocated (offset + gap.length + lexeme.text.length) spaced

/-- Blanks that keep lexemes apart: some between any two of them, but none
between the keyword of a remark and the remark. -/
structure IsSpacing (spaced : List (Bytes × Lexeme)) : Prop where
  blank : ∀ item ∈ spaced, ∀ byte ∈ item.1, byte ∈ spaces
  apart : spaced.IsChain fun before after => after.1 = [] ↔ before.2.reading = .terminal .kwRem

/-- The single space after a reading, which the keyword of a remark lacks. -/
def singleSpace (reading : Reading) : Bytes :=
  if reading = .terminal .kwRem then [] else [0x20]

/-- Lexemes with single spaces between them, after a first gap. -/
def singlySpaced (gap : Bytes) : List Lexeme → List (Bytes × Lexeme)
  | [] => []
  | lexeme :: lexemes => (gap, lexeme) :: singlySpaced (singleSpace lexeme.reading) lexemes

@[simp]
theorem joined_nil : joined [] = [] :=
  rfl

@[simp]
theorem joined_cons (gap : Bytes) (lexeme : Lexeme) (spaced : List (Bytes × Lexeme)) :
    joined ((gap, lexeme) :: spaced) = gap ++ (lexeme.text ++ joined spaced) := by
  rw [joined, List.flatMap_cons, List.append_assoc]
  rfl

theorem isBlank_of_mem_spaces {byte : UInt8} (isSpace : byte ∈ spaces) : isBlank byte = true := by
  have blank : ∀ byte ∈ spaces, isBlank byte = true := by decide +kernel
  exact blank byte isSpace

theorem mem_spaces_of_mem_singleSpace {reading : Reading} {byte : UInt8}
    (member : byte ∈ singleSpace reading) : byte ∈ spaces := by
  unfold singleSpace at member
  split at member
  · contradiction
  · rw [List.mem_singleton.mp member]
    decide +kernel

theorem singleSpace_eq_nil_iff {reading : Reading} :
    singleSpace reading = [] ↔ reading = .terminal .kwRem := by
  rw [singleSpace]
  split <;> simp_all

theorem IsSpacing.tail {item : Bytes × Lexeme} {spaced : List (Bytes × Lexeme)}
    (isSpacing : IsSpacing (item :: spaced)) : IsSpacing spaced where
  blank later laterMem := isSpacing.blank later (List.mem_cons_of_mem _ laterMem)
  apart := isSpacing.apart.tail

theorem map_snd_singlySpaced (gap : Bytes) (lexemes : List Lexeme) :
    (singlySpaced gap lexemes).map Prod.snd = lexemes := by
  induction lexemes generalizing gap with
  | nil => rfl
  | cons lexeme lexemes ih => exact congrArg (lexeme :: ·) (ih _)

/-- Single spaces keep lexemes apart. -/
theorem isSpacing_singlySpaced {gap : Bytes} (blank : ∀ byte ∈ gap, byte ∈ spaces)
    (lexemes : List Lexeme) : IsSpacing (singlySpaced gap lexemes) := by
  induction lexemes generalizing gap with
  | nil => exact ⟨nofun, .nil⟩
  | cons lexeme lexemes ih =>
      have later : IsSpacing (singlySpaced (singleSpace lexeme.reading) lexemes) :=
        ih fun _ => mem_spaces_of_mem_singleSpace
      constructor
      · intro item itemMem
        rcases List.mem_cons.mp itemMem with rfl | itemMem
        · exact blank
        · exact later.blank item itemMem
      · apply List.isChain_cons.mpr
        refine ⟨?_, later.apart⟩
        cases lexemes with
        | nil => nofun
        | cons next lexemes =>
            rintro _ ⟨rfl⟩
            exact singleSpace_eq_nil_iff

@[simp]
theorem length_relocated (offset : Nat) (spaced : List (Bytes × Lexeme)) :
    (relocated offset spaced).length = spaced.length := by
  induction spaced generalizing offset with
  | nil => rfl
  | cons item spaced ih => exact congrArg Nat.succ (ih _)

/-- What was read and the bytes of it, wherever they stand. -/
def Lexeme.result (lexeme : Lexeme) : Reading × Bytes :=
  (lexeme.reading, lexeme.text)

/-- Printing changes no result. -/
theorem map_result_relocated (offset : Nat) (spaced : List (Bytes × Lexeme)) :
    (relocated offset spaced).map Lexeme.result = (spaced.map Prod.snd).map Lexeme.result := by
  induction spaced generalizing offset with
  | nil => rfl
  | cons item spaced ih => exact congrArg (item.2.result :: ·) (ih _)

/-! ## Places of one line -/

namespace Place

/-- A place of a text that is one line. -/
def IsOneLine (place : Place) : Prop :=
  newline ∉ place.rest.dropLast

theorem IsOneLine.next {place : Place} (oneLine : place.IsOneLine) : place.next.IsOneLine := by
  intro member
  apply oneLine
  rw [place.rest_eq, ← List.append_assoc]
  have more : place.next.rest ≠ [] := by
    intro empty
    rw [empty] at member
    contradiction
  rw [List.dropLast_append_of_ne_nil more]
  exact List.mem_append_right _ member

/-- Behind a remark a line has at most its newline. -/
theorem IsOneLine.isBlank_of_mem_next_of_remark {place : Place} (oneLine : place.IsOneLine)
    (isRemark : place.mode = .remark) : ∀ byte ∈ place.next.rest, isBlank byte = true := by
  obtain ⟨-, stops⟩ := IsLongestPrefix.kstar_iff.mp (isLongestPrefix_remark isRemark)
  intro byte member
  have ended := oneLine.next
  cases here : place.next.rest with
  | nil => simp [here] at member
  | cons first later =>
      rw [here] at member stops
      have isNewline : first = newline := by simpa using stops first rfl
      cases later with
      | nil => rw [List.mem_singleton.mp member, isNewline, isBlank_newline]
      | cons second later => simp [IsOneLine, here, isNewline] at ended

/-- A remark is the last lexeme of a line. -/
theorem IsOneLine.lexemes_next_of_remark {place : Place} (oneLine : place.IsOneLine)
    (isRemark : place.mode = .remark) : place.next.lexemes = [] := by
  apply lexemes_of_blank
  · intro again
    have isRem : place.lexeme.reading = .terminal .kwRem := Reading.nextMode_eq_remark_iff.mp again
    rw [lexeme_of_remark isRemark] at isRem
    cases isRem
  · exact oneLine.isBlank_of_mem_next_of_remark isRemark

end Place

/-! ## Scanning the printed lexemes -/

/-- Lexemes from a place of a line on, with blanks that keep them apart. -/
structure Respaces (place : Place) (spaced : List (Bytes × Lexeme)) : Prop where
  oneLine : place.IsOneLine
  same : spaced.map Prod.snd = place.lexemes
  isSpacing : IsSpacing spaced
  atRemark : place.mode = .remark → ∀ item ∈ spaced.head?, item.1 = []

namespace Respaces

variable {place : Place} {gap : Bytes} {lexeme : Lexeme} {spaced : List (Bytes × Lexeme)}

/-- The first lexeme is the next one, and the others are respaced from the place
after it. -/
theorem of_cons (respaces : Respaces place ((gap, lexeme) :: spaced)) :
    lexeme.reading ≠ .endOfText ∧ lexeme = place.lexeme ∧ Respaces place.next spaced := by
  obtain ⟨more, rfl, same⟩ := Place.lexemes_eq_cons_iff.mp respaces.same.symm
  obtain ⟨apart, -⟩ := List.isChain_cons.mp respaces.isSpacing.apart
  refine ⟨more, rfl, respaces.oneLine.next, same, respaces.isSpacing.tail, ?_⟩
  intro isRemark item isHead
  exact (apart item isHead).mpr (Reading.nextMode_eq_remark_iff.mp isRemark)

/-- A remark stands right after its keyword and is the last lexeme. -/
theorem of_cons_of_remark (respaces : Respaces place ((gap, lexeme) :: spaced))
    (isRemark : place.mode = .remark) : gap = [] ∧ spaced = [] := by
  obtain ⟨-, -, later⟩ := respaces.of_cons
  have none := later.same
  rw [respaces.oneLine.lexemes_next_of_remark isRemark, List.map_eq_nil_iff] at none
  exact ⟨respaces.atRemark isRemark _ rfl, none⟩

/-- The lexemes printed after a lexeme can replace the text after it. -/
theorem canReplace (respaces : Respaces place ((gap, lexeme) :: spaced)) :
    CanReplace place.next.rest (joined spaced) := by
  obtain ⟨-, rfl, respacesNext⟩ := respaces.of_cons
  cases spaced with
  | nil => exact .shorter List.nil_prefix
  | cons item spaced =>
      obtain ⟨gap', lexeme'⟩ := item
      obtain ⟨-, rfl, -⟩ := respacesNext.of_cons
      have apart := (List.isChain_cons_cons.mp respaces.isSpacing.apart).1
      by_cases isRemark : place.next.mode = .remark
      · obtain ⟨rfl, rfl⟩ := respacesNext.of_cons_of_remark isRemark
        rw [joined_cons, Place.lexeme_of_remark isRemark]
        apply CanReplace.shorter
        simpa using List.takeWhile_prefix _
      · have someGap : gap' ≠ [] := mt apart.mp (mt Reading.nextMode_eq_remark_iff.mpr isRemark)
        have someText : place.next.rest ≠ [] := by
          intro empty
          have none := Place.lexemes_of_blank isRemark (by simp [empty])
          rw [← respacesNext.same] at none
          contradiction
        obtain ⟨byte, gap', rfl⟩ := List.exists_cons_of_ne_nil someGap
        rw [joined_cons]
        apply CanReplace.blank someText
        exact isBlank_of_mem_spaces (respacesNext.isSpacing.blank _ List.mem_cons_self _
          List.mem_cons_self)

/-- The first of the printed lexemes is read where it is printed. -/
theorem lexeme_joined (respaces : Respaces place ((gap, lexeme) :: spaced)) (offset : Nat) :
    let printed : Place := ⟨offset, joined ((gap, lexeme) :: spaced), place.mode⟩
    printed.lexeme = { lexeme with start := offset + gap.length } ∧
      printed.next.rest = joined spaced := by
  intro printed
  have canReplace := respaces.canReplace
  obtain ⟨more, rfl, -⟩ := respaces.of_cons
  by_cases isRemark : place.mode = .remark
  · obtain ⟨rfl, rfl⟩ := respaces.of_cons_of_remark isRemark
    have body_eq := Place.lexeme_of_remark isRemark
    have left : printed.rest = place.lexeme.text ++ [] := rfl
    have longest : IsLongestPrefix (ofClass (· ≠ newline))∗ (place.lexeme.text ++ [])
        place.lexeme.text := by
      apply IsLongestPrefix.kstar_iff.mpr
      rw [body_eq]
      exact ⟨fun byte => List.mem_takeWhile_imp, nofun⟩
    rw [body_eq] at left longest ⊢
    exact Place.lexeme_of_body isRemark left longest
  · have sameMode : printed.mode = place.mode := rfl
    have left : printed.rest = gap ++ (place.lexeme.text ++ joined spaced) := joined_cons ..
    have blank : ∀ byte ∈ gap, isBlank byte = true := fun byte byteMem =>
      isBlank_of_mem_spaces (respaces.isSpacing.blank _ List.mem_cons_self byte byteMem)
    exact Place.lexeme_of_replaced isRemark more canReplace sameMode left blank

/-- The printed lexemes are scanned where they are printed. -/
theorem lexemes_joined (respaces : Respaces place spaced) (offset : Nat) :
    (Place.mk offset (joined spaced) place.mode).lexemes = relocated offset spaced := by
  induction spaced generalizing place offset with
  | nil =>
      have noRemark : place.mode ≠ .remark := by
        intro isRemark
        have more : place.lexeme.reading ≠ .endOfText := by
          rw [Place.lexeme_of_remark isRemark]
          nofun
        have none : [] = place.lexemes := respaces.same
        rw [Place.lexemes_of_more more] at none
        contradiction
      exact Place.lexemes_of_blank noRemark (List.forall_mem_nil _)
  | cons item spaced ih =>
      obtain ⟨gap, lexeme⟩ := item
      obtain ⟨isLexeme, rest_eq⟩ := respaces.lexeme_joined offset
      obtain ⟨more, rfl, respacesNext⟩ := respaces.of_cons
      rw [relocated, Place.lexemes_eq_cons_iff, Place.next_eq, isLexeme, rest_eq]
      exact ⟨more, rfl, (ih respacesNext _).symm⟩

end Respaces

/-- The lexemes of a line, printed with blanks that keep them apart. -/
theorem respaces_opening {line : Bytes} (oneLine : newline ∉ line.dropLast)
    {spaced : List (Bytes × Lexeme)} (same : spaced.map Prod.snd = lexemes line)
    (isSpacing : IsSpacing spaced) : Respaces (Place.opening line) spaced where
  oneLine := oneLine
  same := same
  isSpacing := isSpacing
  atRemark := nofun

/-- Respacing a line does not change its scan.  However the lexemes of a line
are printed with blanks that keep them apart, the calls on the printed text give
the same lexemes where they are printed, and then the end of the text; with
single spaces, what is read is read again. -/
theorem lexemes_respaced {line : Bytes} (oneLine : newline ∉ line.dropLast) :
    (∀ spaced : List (Bytes × Lexeme), spaced.map Prod.snd = lexemes line → IsSpacing spaced →
      (Place.opening (joined spaced)).calls (spaced.length + 1) =
        relocated 0 spaced ++ [⟨.endOfText, (joined spaced).length, []⟩]) ∧
    (lexemes (joined (singlySpaced [] (lexemes line)))).map Lexeme.result =
      (lexemes line).map Lexeme.result := by
  have scanned : ∀ spaced : List (Bytes × Lexeme), spaced.map Prod.snd = lexemes line →
      IsSpacing spaced → lexemes (joined spaced) = relocated 0 spaced :=
    fun spaced same isSpacing => (respaces_opening oneLine same isSpacing).lexemes_joined 0
  constructor
  · intro spaced same isSpacing
    have ended := calls_succ_length_lexemes (joined spaced)
    rwa [scanned spaced same isSpacing, length_relocated] at ended
  · have same := map_snd_singlySpaced [] (lexemes line)
    have isSpacing := isSpacing_singlySpaced (List.forall_mem_nil _) (lexemes line)
    rw [scanned _ same isSpacing, map_result_relocated, same]

/-- Lexemes that touch are moved apart, a fault and a remark among them. -/
theorem lexemes_respaced_touching :
    let line := Utf8.encode "10A@<REM  x\n"
    let spaced := [[0x20], [0x09], [0x0C, 0x0D], [0x20], [0x09], []].zip (lexemes line)
    newline ∉ line.dropLast ∧ spaced.map Prod.snd = lexemes line ∧ IsSpacing spaced ∧
      joined spaced = Utf8.encode " 10\tA\x0C\r@ <\tREM  x" ∧
      (Place.opening (joined spaced)).calls (spaced.length + 1) =
        relocated 0 spaced ++ [⟨.endOfText, (joined spaced).length, []⟩] := by
  intro line spaced
  have oneLine : newline ∉ line.dropLast := by decide +kernel
  have same : spaced.map Prod.snd = lexemes line := by decide +kernel
  have isSpacing : IsSpacing spaced := ⟨by decide +kernel, by decide +kernel⟩
  have printed : joined spaced = Utf8.encode " 10\tA\x0C\r@ <\tREM  x" := by decide +kernel
  exact ⟨oneLine, same, isSpacing, printed, (lexemes_respaced oneLine).1 spaced same isSpacing⟩

end MinBasic.Lexical
