import Mathlib.Data.List.Forall2

/-!
# Characters that differ in case

Only the letters of ASCII have a case here: a capital and its small letter are 32 apart, and
every other character, a letter or not, is in either case itself.  The relations of this module
say so by the numbers of the characters; the maps to lower and to upper case compute them.
-/

namespace MinBasic.Text

/-- A capital of ASCII and its small letter. -/
def IsCapitalOf (capital small : Char) : Prop :=
  'A' ≤ capital ∧ capital ≤ 'Z' ∧ small.toNat = capital.toNat + 32

/-- Characters that are the same but for the case of a letter of ASCII. -/
def SameButCase (c d : Char) : Prop :=
  c = d ∨ IsCapitalOf c d ∨ IsCapitalOf d c

/-- A character and what it is in lower case. -/
inductive LowersTo : Char → Char → Prop where
  | capital {capital small : Char} (isCapital : IsCapitalOf capital small) :
      LowersTo capital small
  | other {c : Char} (noCapital : ¬ ('A' ≤ c ∧ c ≤ 'Z')) : LowersTo c c

variable {c d : Char}

/-! ## Lower and upper case -/

theorem le_iff_toNat_le : c ≤ d ↔ c.toNat ≤ d.toNat :=
  UInt32.le_iff_toNat_le

theorem isUpper_iff : c.isUpper = true ↔ 'A' ≤ c ∧ c ≤ 'Z' :=
  decide_eq_true_iff

/-- Lower case by the numbers of the characters. -/
theorem toNat_toLower (c : Char) :
    c.toLower.toNat = if 'A' ≤ c ∧ c ≤ 'Z' then c.toNat + 32 else c.toNat := by
  by_cases isCapital : 'A' ≤ c ∧ c ≤ 'Z'
  · have within : c.toNat ≤ 90 := le_iff_toNat_le.mp isCapital.2
    have moved : c.toLower.toNat = (c.toNat + 32) % 2 ^ 32 := by
      delta Char.toLower
      rw [dif_pos (show c.val ≥ 'A'.val ∧ c.val ≤ 'Z'.val from isCapital)]
      exact UInt32.toNat_add c.val ('a'.val - 'A'.val)
    rw [if_pos isCapital, moved]
    exact Nat.mod_eq_of_lt (by omega)
  · rw [if_neg isCapital]
    exact congrArg Char.toNat (dif_neg isCapital)

/-- Upper case by the numbers of the characters. -/
theorem toNat_toUpper (c : Char) :
    c.toUpper.toNat = if 'a' ≤ c ∧ c ≤ 'z' then c.toNat - 32 else c.toNat := by
  by_cases isSmall : 'a' ≤ c ∧ c ≤ 'z'
  · have above : 97 ≤ c.toNat := le_iff_toNat_le.mp isSmall.1
    have within : c.toNat ≤ 122 := le_iff_toNat_le.mp isSmall.2
    -- The distance that is added is negative and wraps around.
    have moved : c.toUpper.toNat = (c.toNat + (2 ^ 32 - 32)) % 2 ^ 32 := by
      delta Char.toUpper
      rw [dif_pos (show 'a'.val ≤ c.val ∧ c.val ≤ 'z'.val from isSmall)]
      exact UInt32.toNat_add c.val ('A'.val - 'a'.val)
    rw [if_pos isSmall, moved]
    omega
  · rw [if_neg isSmall]
    exact congrArg Char.toNat (dif_neg isSmall)

theorem toLower_eq_iff : c.toLower = d ↔ LowersTo c d := by
  constructor
  · rintro rfl
    by_cases isCapital : 'A' ≤ c ∧ c ≤ 'Z'
    · exact .capital ⟨isCapital.1, isCapital.2, by rw [toNat_toLower, if_pos isCapital]⟩
    · have unchanged : c.toLower = c := by
        rw [← Char.toNat_inj, toNat_toLower, if_neg isCapital]
      rw [unchanged]
      exact .other isCapital
  · intro lowers
    rw [← Char.toNat_inj, toNat_toLower]
    cases lowers with
    | capital isCapital => rw [if_pos ⟨isCapital.1, isCapital.2.1⟩, isCapital.2.2]
    | other noCapital => rw [if_neg noCapital]

/-- Characters are the same in lower case exactly when they differ at most in case. -/
theorem toLower_eq_toLower_iff : c.toLower = d.toLower ↔ SameButCase c d := by
  have capitals : 'A'.toNat = 65 ∧ 'Z'.toNat = 90 := ⟨rfl, rfl⟩
  simp only [← Char.toNat_inj, toNat_toLower, SameButCase, IsCapitalOf, le_iff_toNat_le, capitals]
  split <;> split <;> omega

/-- Characters are the same in upper case exactly when they differ at most in case. -/
theorem toUpper_eq_toUpper_iff : c.toUpper = d.toUpper ↔ SameButCase c d := by
  have capitals : 'A'.toNat = 65 ∧ 'Z'.toNat = 90 := ⟨rfl, rfl⟩
  have small : 'a'.toNat = 97 ∧ 'z'.toNat = 122 := ⟨rfl, rfl⟩
  simp only [← Char.toNat_inj, toNat_toUpper, SameButCase, IsCapitalOf, le_iff_toNat_le, capitals,
    small]
  split <;> split <;> omega

/-! ## Texts -/

/-- Texts are the same in lower case exactly when they differ at most in case, character by
character. -/
theorem map_toLower_eq_map_toLower_iff {text text' : List Char} :
    text.map Char.toLower = text'.map Char.toLower ↔ List.Forall₂ SameButCase text text' := by
  rw [← List.forall₂_eq_eq_eq, List.forall₂_map_left_iff, List.forall₂_map_right_iff]
  simp only [toLower_eq_toLower_iff]

theorem map_toUpper_eq_map_toUpper_iff {text text' : List Char} :
    text.map Char.toUpper = text'.map Char.toUpper ↔ List.Forall₂ SameButCase text text' := by
  rw [← List.forall₂_eq_eq_eq, List.forall₂_map_left_iff, List.forall₂_map_right_iff]
  simp only [toUpper_eq_toUpper_iff]

/-- A text in lower case, character by character. -/
theorem map_toLower_eq_iff {text text' : List Char} :
    text.map Char.toLower = text' ↔ List.Forall₂ LowersTo text text' := by
  rw [← List.forall₂_eq_eq_eq, List.forall₂_map_left_iff]
  simp only [toLower_eq_iff]

end MinBasic.Text
