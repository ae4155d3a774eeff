import MinBasic.Lexical.Terminal
import MinBasic.Proofs.Text.CharCase
import MinBasic.Text.Ascii

/-!
# Words that spell keywords

A keyword is named in capitals, and a word spells it when each of its letters is
the capital at that place in either case.  The scan upper-cases a run of letters
and looks the result up, which finds exactly the keyword that the run spells.
-/

namespace MinBasic.Lexical

open Text Text.Ascii

/-- A word spells a name in capitals when each of its bytes is the letter at
that place in either case. -/
def Spells (word : Bytes) (name : String) : Prop :=
  List.Forall₂
    (fun byte letter => byte.toNat = letter.toNat ∨ byte.toNat = letter.toNat + 32)
    word name.toList

private theorem toNat_toChar (byte : UInt8) : (toChar byte).toNat = byte.toNat := by
  have valid : byte.toNat.isValidChar := Or.inl (Nat.lt_of_lt_of_le byte.toNat_lt (by decide))
  rw [toChar, Char.ofNat, dif_pos valid]
  rfl

/-- A byte is upper-cased to a capital when it is that capital in either case. -/
private theorem toUpper_toChar_eq_iff (byte : UInt8) {capital : Char}
    (isCapital : capital.isUpper = true) :
    (toChar byte).toUpper = capital ↔
      byte.toNat = capital.toNat ∨ byte.toNat = capital.toNat + 32 := by
  have bounds : 65 ≤ capital.toNat ∧ capital.toNat ≤ 90 :=
    (isUpper_iff.mp isCapital).imp le_iff_toNat_le.mp le_iff_toNat_le.mp
  have small : 'a'.toNat = 97 ∧ 'z'.toNat = 122 := ⟨rfl, rfl⟩
  rw [← Char.toNat_inj, toNat_toUpper]
  simp only [le_iff_toNat_le, toNat_toChar, small]
  split <;> omega

/-- Upper-casing a word gives a name in capitals exactly when the word spells
it. -/
theorem map_toUpper_eq_iff_spells {word : Bytes} {name : String}
    (capitals : ∀ c ∈ name.toList, c.isUpper = true) :
    name.toList = (word.map toChar).map Char.toUpper ↔ Spells word name := by
  unfold Spells
  generalize name.toList = spelled at capitals ⊢
  induction word generalizing spelled with
  | nil => cases spelled <;> simp
  | cons byte word ih =>
      cases spelled with
      | nil => simp
      | cons capital spelled =>
          have first := toUpper_toChar_eq_iff byte (capitals capital List.mem_cons_self)
          have others := ih spelled fun c member => capitals c (List.mem_cons_of_mem _ member)
          rw [List.map_cons, List.map_cons, List.cons.injEq, List.forall₂_cons, others, ← first,
            eq_comm (a := capital)]

/-- Keywords are named in capitals. -/
theorem isUpper_of_mem_name_of_mem_keywords :
    ∀ keyword ∈ Terminal.keywords, ∀ c ∈ keyword.name.toList, c.isUpper = true := by
  simp only [← List.all_eq_true]
  decide

/-- No keyword is a single letter. -/
theorem two_le_length_name_of_mem_keywords :
    ∀ keyword ∈ Terminal.keywords, 2 ≤ keyword.name.toList.length := by
  decide

/-- A word that spells a keyword has more than one letter. -/
theorem Spells.two_le_length {word : Bytes} {keyword : Terminal}
    (spells : Spells word keyword.name) (isKeyword : keyword ∈ Terminal.keywords) :
    2 ≤ word.length := by
  rw [List.Forall₂.length_eq spells]
  exact two_le_length_name_of_mem_keywords keyword isKeyword

/-- The keyword that the scan looks up for a run of letters is the one that the
run spells. -/
theorem ofSpelling?_eq_some_iff_spells {word : Bytes} {keyword : Terminal} :
    Terminal.ofSpelling? (word.map toChar) = some keyword ↔
      keyword ∈ Terminal.keywords ∧ Spells word keyword.name := by
  rw [Terminal.ofSpelling?_eq_some_iff]
  apply and_congr_right
  intro isKeyword
  exact map_toUpper_eq_iff_spells (isUpper_of_mem_name_of_mem_keywords keyword isKeyword)

end MinBasic.Lexical
