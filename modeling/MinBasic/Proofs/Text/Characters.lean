import MinBasic.Proofs.Text.Cut
import MinBasic.Text.Utf8

/-!
# Characters in UTF-8 text

A character is written as one byte of ASCII, or as a leading byte and continuation
bytes.  So in the bytes of a text a character starts wherever no continuation byte
stands, and nothing but the characters themselves needs to be known to see where a
text can be cut between them.
-/

namespace MinBasic.Text.Utf8

/-- The UTF-8 bytes of characters. -/
def encodeChars (chars : List Char) : Bytes :=
  chars.flatMap String.utf8EncodeChar

@[simp]
theorem encodeChars_nil : encodeChars [] = [] :=
  rfl

theorem encodeChars_cons (c : Char) (chars : List Char) :
    encodeChars (c :: chars) = String.utf8EncodeChar c ++ encodeChars chars :=
  rfl

@[simp]
theorem encodeChars_singleton (c : Char) : encodeChars [c] = String.utf8EncodeChar c :=
  List.append_nil _

theorem encodeChars_append (front back : List Char) :
    encodeChars (front ++ back) = encodeChars front ++ encodeChars back :=
  List.flatMap_append

/-! ## The bytes of a character -/

/-- The bytes of a character: its code if it is ASCII, else a leading byte and
continuation bytes. -/
inductive CharacterBytes (c : Char) : Bytes → Prop where
  | ascii (small : c.toNat < 0x80) : CharacterBytes c [UInt8.ofNat c.toNat]
  | multi {lead : UInt8} {trail : Bytes} (large : 0x80 ≤ c.toNat) (isLead : isLead lead = true)
      (continued : ∀ byte ∈ trail, isContinuation byte = true) : CharacterBytes c (lead :: trail)

theorem isLead_ofNat {code : Nat} (lower : 0xC0 ≤ code) (upper : code < 0x100) :
    isLead (UInt8.ofNat code) = true := by
  simp only [isLead, decide_eq_true_eq, UInt8.le_iff_toNat_le, UInt8.toNat_ofNat',
    UInt8.reduceToNat]
  omega

theorem isContinuation_ofNat (code : Nat) :
    isContinuation (UInt8.ofNat (code % 0x40 + 0x80)) = true := by
  simp only [isContinuation, Bool.and_eq_true, decide_eq_true_eq, UInt8.le_iff_toNat_le,
    UInt8.lt_iff_toNat_lt, UInt8.toNat_ofNat', UInt8.reduceToNat]
  omega

theorem characterBytes (c : Char) : CharacterBytes c (String.utf8EncodeChar c) := by
  unfold String.utf8EncodeChar
  have code_eq : c.val.toNat = c.toNat := rfl
  dsimp only
  rw [code_eq]
  split
  · rename_i small
    exact .ascii (Nat.lt_succ_of_le small)
  rename_i large
  have large : 0x80 ≤ c.toNat := Nat.lt_of_not_le large
  have continued := isContinuation_ofNat
  split
  · apply CharacterBytes.multi large (isLead_ofNat (by omega) (by omega))
    exact List.forall_mem_singleton.mpr (continued _)
  split
  · apply CharacterBytes.multi large (isLead_ofNat (by omega) (by omega))
    exact List.forall_mem_cons.mpr ⟨continued _, List.forall_mem_singleton.mpr (continued _)⟩
  · apply CharacterBytes.multi large (isLead_ofNat (by omega) (by omega))
    exact List.forall_mem_cons.mpr ⟨continued _, List.forall_mem_cons.mpr
      ⟨continued _, List.forall_mem_singleton.mpr (continued _)⟩⟩

/-- The bytes of a character behind its first one continue it. -/
theorem CharacterBytes.continued {c : Char} {first : UInt8} {trail : Bytes}
    (shape : CharacterBytes c (first :: trail)) : ∀ byte ∈ trail, isContinuation byte = true := by
  cases shape with
  | ascii => exact nofun
  | multi _ _ continued => exact continued

/-- The first byte of a character does not continue another. -/
theorem CharacterBytes.not_continued {c : Char} {bytes : Bytes} (shape : CharacterBytes c bytes) :
    ∃ first trail, bytes = first :: trail ∧ isContinuation first = false := by
  cases shape with
  | ascii small =>
      refine ⟨_, _, rfl, ?_⟩
      simp only [isContinuation, Bool.and_eq_false_iff, decide_eq_false_iff_not, UInt8.not_le,
        UInt8.lt_iff_toNat_lt, UInt8.toNat_ofNat', UInt8.reduceToNat]
      omega
  | @multi lead trail _ isLead _ =>
      refine ⟨_, _, rfl, ?_⟩
      rw [isContinuation, Bool.and_eq_false_iff, decide_eq_false_iff_not,
        decide_eq_false_iff_not, UInt8.not_lt]
      exact Or.inr (of_decide_eq_true isLead)

/-- The characters that are blank bytes: tab, line feed, form feed, carriage return and
space. -/
def isAsciiBlank (c : Char) : Bool :=
  c.toNat = 0x09 || c.toNat = 0x0A || c.toNat = 0x0C || c.toNat = 0x0D || c.toNat = 0x20

/-- A character is blank if its first byte is, and then that is all of it. -/
theorem CharacterBytes.isBlank_eq {c : Char} {first : UInt8} {trail : Bytes}
    (shape : CharacterBytes c (first :: trail)) : Ascii.isBlank first = isAsciiBlank c := by
  rw [Bool.eq_iff_iff]
  cases shape with
  | ascii small =>
      simp only [Ascii.isBlank, isAsciiBlank, Bool.or_eq_true, decide_eq_true_eq,
        ← UInt8.toNat_inj, UInt8.toNat_ofNat', UInt8.reduceToNat]
      omega
  | multi large isLead _ =>
      simp only [Utf8.isLead, decide_eq_true_eq, UInt8.le_iff_toNat_le, UInt8.reduceToNat]
        at isLead
      simp only [Ascii.isBlank, isAsciiBlank, Bool.or_eq_true, decide_eq_true_eq,
        ← UInt8.toNat_inj, UInt8.reduceToNat]
      omega

/-! ## Cutting between characters -/

/-- A text is cut between characters where no continuation byte follows. -/
theorem exists_of_encodeChars_eq_append {chars : List Char} {left right : Bytes}
    (split : encodeChars chars = left ++ right)
    (notContinued : ∀ byte ∈ right.head?, isContinuation byte = false) :
    ∃ front back, chars = front ++ back ∧ left = encodeChars front ∧ right = encodeChars back := by
  induction chars generalizing left with
  | nil =>
      obtain ⟨rfl, rfl⟩ := List.append_eq_nil_iff.mp split.symm
      exact ⟨[], [], rfl, rfl, rfl⟩
  | cons c chars ih =>
      cases left with
      | nil => exact ⟨[], c :: chars, rfl, rfl, split.symm⟩
      | cons first left =>
          rw [encodeChars_cons] at split
          rcases List.append_eq_append_iff.mp split with
            ⟨rest, left_eq, split'⟩ | ⟨extra, character_eq, rfl⟩
          · obtain ⟨front, back, rfl, rfl, rfl⟩ := ih split'
            exact ⟨c :: front, back, rfl, left_eq, rfl⟩
          · cases extra with
            | nil =>
                rw [List.append_nil] at character_eq
                exact ⟨[c], chars, rfl, by rw [encodeChars_singleton, character_eq], rfl⟩
            | cons byte extra =>
                have shape := characterBytes c
                rw [character_eq] at shape
                have continued := shape.continued byte (by simp)
                rw [notContinued byte rfl] at continued
                contradiction

/-- The bytes of a text do not start with a continuation byte. -/
theorem not_continued_of_mem_head? (chars : List Char) :
    ∀ byte ∈ (encodeChars chars).head?, isContinuation byte = false := by
  cases chars with
  | nil => exact nofun
  | cons c chars =>
      obtain ⟨first, trail, bytes_eq, notContinued⟩ := (characterBytes c).not_continued
      rw [encodeChars_cons, bytes_eq]
      rintro _ ⟨rfl⟩
      exact notContinued

/-- The byte of a character that is ASCII is all of it. -/
theorem CharacterBytes.eq_singleton {c : Char} {first : UInt8} {trail : Bytes}
    (shape : CharacterBytes c (first :: trail)) (ascii : first < 0x80) : trail = [] := by
  cases shape with
  | ascii => rfl
  | multi large isLead continued =>
      have lead : 0xC0 ≤ first := of_decide_eq_true isLead
      rw [UInt8.le_iff_toNat_le] at lead
      rw [UInt8.lt_iff_toNat_lt] at ascii
      simp only [UInt8.reduceToNat] at lead ascii
      omega

/-- What stands at a byte of ASCII in a text is a character. -/
theorem exists_of_encodeChars_eq_ascii {chars : List Char} {left right : Bytes} {byte : UInt8}
    (split : encodeChars chars = left ++ byte :: right) (ascii : byte < 0x80) :
    ∃ front c back, chars = front ++ c :: back ∧ left = encodeChars front ∧
      String.utf8EncodeChar c = [byte] ∧ right = encodeChars back := by
  have notContinued : isContinuation byte = false := by
    rw [isContinuation, decide_eq_false (UInt8.not_le.mpr ascii), Bool.false_and]
  obtain ⟨front, back, rfl, rfl, back_eq⟩ :=
    exists_of_encodeChars_eq_append split (by rintro _ ⟨rfl⟩; exact notContinued)
  cases back with
  | nil => contradiction
  | cons c back =>
      have shape := characterBytes c
      obtain ⟨first, trail, bytes_eq, -⟩ := shape.not_continued
      rw [encodeChars_cons, bytes_eq, List.cons_append] at back_eq
      obtain ⟨rfl, rfl⟩ := List.cons.inj back_eq
      rw [bytes_eq] at shape
      obtain rfl := shape.eq_singleton ascii
      exact ⟨front, c, back, rfl, rfl, bytes_eq, rfl⟩

/-- A text is cut between characters behind a byte of ASCII, and where no continuation
byte follows. -/
theorem exists_of_encodeChars_eq_append_of_ends {chars : List Char} {left right : Bytes}
    (split : encodeChars chars = left ++ right)
    (ends : (∀ byte ∈ left.getLast?, byte < 0x80) ∨
      ∀ byte ∈ right.head?, isContinuation byte = false) :
    ∃ front back, chars = front ++ back ∧ left = encodeChars front ∧ right = encodeChars back := by
  rcases ends with ascii | notContinued
  · rcases List.eq_nil_or_concat left with rfl | ⟨left, last, rfl⟩
    · exact ⟨[], chars, rfl, rfl, split.symm⟩
    · rw [List.concat_eq_append] at split ascii ⊢
      rw [List.append_assoc] at split
      obtain ⟨front, c, back, rfl, rfl, bytes_eq, rfl⟩ :=
        exists_of_encodeChars_eq_ascii split (ascii last List.getLast?_concat)
      refine ⟨front ++ [c], back, (List.append_cons ..), ?_, rfl⟩
      rw [encodeChars_append, encodeChars_singleton, bytes_eq]
  · exact exists_of_encodeChars_eq_append split notContinued

/-- The lines of a text are made of its characters. -/
theorem exists_of_mem_lines {chars : List Char} {line : Bytes}
    (member : line ∈ lines (encodeChars chars)) :
    ∃ within, line = encodeChars within ∧ within ⊆ chars := by
  have cut := cutInto_lines (encodeChars chars)
  generalize text_eq : encodeChars chars = text at cut member
  generalize lines text = cutLines at cut member
  induction cut generalizing chars with
  | nothing => contradiction
  | unended =>
      rw [List.mem_singleton.mp member, ← text_eq]
      exact ⟨chars, rfl, List.Subset.refl _⟩
  | ended _ _ ih =>
      obtain ⟨front, c, back, rfl, rfl, bytes_eq, rfl⟩ :=
        exists_of_encodeChars_eq_ascii text_eq (by decide)
      rcases List.mem_cons.mp member with rfl | member
      · refine ⟨front ++ [c], ?_, ?_⟩
        · rw [encodeChars_append, encodeChars_singleton, bytes_eq]
        · rw [List.append_cons front c back]
          exact List.subset_append_left _ _
      · obtain ⟨within, line_eq, subset⟩ := ih rfl member
        refine ⟨within, line_eq, fun other inLine => ?_⟩
        exact List.mem_append_right _ (List.mem_cons_of_mem _ (subset inLine))

/-! ## The characters of ASCII in a text -/

/-- Texts with the same bytes are the same. -/
theorem encode_inj {text text' : String} : encode text = encode text' ↔ text = text' := by
  have bytes_eq (text : String) : text.toByteArray = (encode text).toByteArray := by
    obtain ⟨chars, rfl⟩ := text.exists_eq_ofList
    rw [String.toByteArray_ofList, encode, String.toList_ofList]
    rfl
  constructor
  · intro same
    rw [← String.toByteArray_inj, bytes_eq, bytes_eq text', same]
  · rintro rfl
    rfl

theorem encodeChars_ne_nil (c : Char) (chars : List Char) : encodeChars (c :: chars) ≠ [] := by
  obtain ⟨first, trail, bytes_eq, -⟩ := (characterBytes c).not_continued
  rw [encodeChars_cons, bytes_eq]
  exact List.cons_ne_nil _ _

/-- A character that is one byte of ASCII has its number. -/
theorem CharacterBytes.eq_toChar {c : Char} {byte : UInt8} (shape : CharacterBytes c [byte])
    (ascii : byte < 0x80) : c = Ascii.toChar byte := by
  cases shape with
  | ascii small =>
      rw [Ascii.toChar, UInt8.toNat_ofNat', Nat.mod_eq_of_lt (by omega), Char.ofNat_toNat]
  | multi large isLead _ =>
      have lead : 0xC0 ≤ byte := of_decide_eq_true isLead
      exact absurd ascii (UInt8.not_lt.mpr (UInt8.le_trans (by decide) lead))

/-- At a byte of ASCII in a text stands the character with its number. -/
theorem exists_of_encodeChars_eq_toChar {chars : List Char} {left right : Bytes} {byte : UInt8}
    (split : encodeChars chars = left ++ byte :: right) (ascii : byte < 0x80) :
    ∃ front back, chars = front ++ Ascii.toChar byte :: back ∧ left = encodeChars front := by
  obtain ⟨front, c, back, rfl, left_eq, bytes_eq, -⟩ := exists_of_encodeChars_eq_ascii split ascii
  have shape := characterBytes c
  rw [bytes_eq] at shape
  obtain rfl := shape.eq_toChar ascii
  exact ⟨front, back, rfl, left_eq⟩

/-- A byte of ASCII is in the bytes of a text only if its character is in the text. -/
theorem toChar_mem_of_mem_encodeChars {chars : List Char} {byte : UInt8}
    (member : byte ∈ encodeChars chars) (ascii : byte < 0x80) : Ascii.toChar byte ∈ chars := by
  obtain ⟨left, right, split⟩ := List.append_of_mem member
  obtain ⟨front, back, rfl, -⟩ := exists_of_encodeChars_eq_toChar split ascii
  exact List.mem_append_right _ List.mem_cons_self

/-- A text without a newline has none in its bytes. -/
theorem newline_not_mem_encode {text : String} (noNewline : '\n' ∉ text.toList) :
    Ascii.newline ∉ encode text :=
  fun member => noNewline (toChar_mem_of_mem_encodeChars member (by decide))

/-- The bytes of a text start with a byte of ASCII only if the text starts with its
character. -/
theorem head?_of_head?_encodeChars {chars : List Char} {byte : UInt8}
    (starts : (encodeChars chars).head? = some byte) (ascii : byte < 0x80) :
    chars.head? = some (Ascii.toChar byte) := by
  obtain ⟨right, split⟩ := List.head?_eq_some_iff.mp starts
  have split : encodeChars chars = [] ++ byte :: right := split
  obtain ⟨front, back, rfl, left_eq⟩ := exists_of_encodeChars_eq_toChar split ascii
  cases front with
  | nil => rfl
  | cons c front => exact absurd left_eq.symm (encodeChars_ne_nil c front)

end MinBasic.Text.Utf8
