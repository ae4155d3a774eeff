import Mathlib.Data.List.Forall2
import MinBasic.Proofs.Text.Cut

/-!
# Upper case

A byte function that gives the same for both cases of every letter does not see
letter case.  The classes of the lexical rules are such functions, so runs of them
have the same length in a text and in the text in upper case.
-/

namespace MinBasic.Text

open Ascii

/-- A byte in upper case. -/
def upper (byte : UInt8) : UInt8 :=
  if isLower byte then byte - 0x20 else byte

/-- A text in upper case. -/
def upperCase (text : Bytes) : Bytes :=
  text.map upper

@[simp]
theorem upperCase_nil : upperCase [] = [] :=
  rfl

@[simp]
theorem upperCase_cons (byte : UInt8) (text : Bytes) :
    upperCase (byte :: text) = upper byte :: upperCase text :=
  rfl

@[simp]
theorem length_upperCase (text : Bytes) : (upperCase text).length = text.length :=
  List.length_map ..

theorem upperCase_append (first second : Bytes) :
    upperCase (first ++ second) = upperCase first ++ upperCase second :=
  List.map_append

theorem upperCase_take (count : Nat) (text : Bytes) :
    upperCase (text.take count) = (upperCase text).take count :=
  List.map_take

theorem upperCase_drop (count : Nat) (text : Bytes) :
    upperCase (text.drop count) = (upperCase text).drop count :=
  List.map_drop

/-! ## What does not see letter case -/

/-- A function that gives the same for both cases of every letter does not see
letter case. -/
theorem apply_upper {α : Type} {f : UInt8 → α}
    (alike : ∀ n < 26, f (UInt8.ofNat (0x41 + n)) = f (UInt8.ofNat (0x61 + n))) (byte : UInt8) :
    f (upper byte) = f byte := by
  rw [upper]
  split
  · rename_i lower
    simp only [isLower, Bool.and_eq_true, decide_eq_true_eq, UInt8.le_iff_toNat_le,
      UInt8.reduceToNat] at lower
    have lower_eq : UInt8.ofNat (0x61 + (byte.toNat - 0x61)) = byte := by
      rw [Nat.add_sub_cancel' lower.1, UInt8.ofNat_toNat]
    have upper_eq : UInt8.ofNat (0x41 + (byte.toNat - 0x61)) = byte - 0x20 := by
      apply UInt8.toNat_inj.mp
      have within : (0x20 : UInt8) ≤ byte := by
        simp only [UInt8.le_iff_toNat_le, UInt8.reduceToNat]
        omega
      rw [UInt8.toNat_sub_of_le _ _ within, UInt8.toNat_ofNat']
      simp only [UInt8.reduceToNat]
      omega
    have same := alike (byte.toNat - 0x61) (by omega)
    rwa [upper_eq, lower_eq] at same
  · rfl

theorem isDigit_upper (byte : UInt8) : isDigit (upper byte) = isDigit byte :=
  apply_upper (by decide) byte

theorem isBlank_upper (byte : UInt8) : isBlank (upper byte) = isBlank byte :=
  apply_upper (by decide) byte

theorem isLetter_upper (byte : UInt8) : isLetter (upper byte) = isLetter byte :=
  apply_upper (by decide) byte

theorem isSign_upper (byte : UInt8) : isSign (upper byte) = isSign byte :=
  apply_upper (by decide) byte

theorem isExponentMark_upper (byte : UInt8) :
    isExponentMark (upper byte) = isExponentMark byte :=
  apply_upper (by decide) byte

/-- A byte that is no letter is not changed. -/
theorem upper_eq_self {byte : UInt8} (noLetter : isLetter byte = false) : upper byte = byte := by
  rw [isLetter, Bool.or_eq_false_iff] at noLetter
  rw [upper, if_neg (Bool.eq_false_iff.mp noLetter.2)]

/-- A byte is in upper case one that is no letter only if it is that one. -/
theorem upper_eq_iff {byte other : UInt8} (noLetter : isLetter other = false) :
    upper byte = other ↔ byte = other := by
  constructor
  · rintro rfl
    rw [isLetter_upper] at noLetter
    exact (upper_eq_self noLetter).symm
  · rintro rfl
    exact upper_eq_self noLetter

/-- The bytes of a class that does not see letter case. -/
theorem takeWhile_upperCase {accepts : UInt8 → Bool}
    (same : ∀ byte, accepts (upper byte) = accepts byte) (text : Bytes) :
    (upperCase text).takeWhile accepts = upperCase (text.takeWhile accepts) := by
  have accepts_eq : accepts ∘ upper = accepts := funext same
  rw [upperCase, List.takeWhile_map, accepts_eq]
  rfl

theorem length_takeWhile_upperCase {accepts : UInt8 → Bool}
    (same : ∀ byte, accepts (upper byte) = accepts byte) (text : Bytes) :
    ((upperCase text).takeWhile accepts).length = (text.takeWhile accepts).length := by
  rw [takeWhile_upperCase same, length_upperCase]

theorem head?_upperCase_eq_some_iff {text : Bytes} {byte : UInt8}
    (noLetter : isLetter byte = false) :
    (upperCase text).head? = some byte ↔ text.head? = some byte := by
  cases text with
  | nil => rfl
  | cons first text => simp [upper_eq_iff noLetter]

/-! ## Lines -/

/-- Upper case does not move the ends of lines. -/
theorem lines_upperCase (text : Bytes) : lines (upperCase text) = (lines text).map upperCase := by
  induction text with
  | nil => rfl
  | cons byte text ih =>
      have isNewline : upper byte = newline ↔ byte = newline := upper_eq_iff rfl
      rw [upperCase_cons, lines_cons, lines_cons, ih]
      unfold consByte
      by_cases newlineHere : byte = newline
      · rw [if_pos newlineHere, if_pos (isNewline.mpr newlineHere)]
        rfl
      · rw [if_neg newlineHere, if_neg (mt isNewline.mp newlineHere)]
        cases lines text <;> rfl

/-- Lists that are the same under a function are so item by item. -/
theorem forall₂_of_map_eq {α β : Type} {f : α → β} {items items' : List α}
    (same : items.map f = items'.map f) :
    List.Forall₂ (fun item item' => f item = f item') items items' := by
  rw [← List.forall₂_eq_eq_eq] at same
  rwa [List.forall₂_map_left_iff, List.forall₂_map_right_iff] at same

/-- Texts that differ only in letter case have lines that do. -/
theorem forall₂_lines_of_upperCase_eq {text text' : Bytes}
    (same : upperCase text = upperCase text') :
    List.Forall₂ (fun line line' => upperCase line = upperCase line') (lines text)
      (lines text') := by
  apply forall₂_of_map_eq
  rw [← lines_upperCase, ← lines_upperCase, same]

end MinBasic.Text
