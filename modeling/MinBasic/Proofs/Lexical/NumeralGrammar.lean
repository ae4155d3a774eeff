import MinBasic.Lexical.Numeral
import MinBasic.Proofs.Lexical.LongestPrefix

/-!
# The grammar of numerals

Numerals as a regular language,

    D+('.'D*)?([Ee][+-]?D+)? | '.'D+([Ee][+-]?D+)?

The length that `Numeral.length` computes from left to right is the length of
the longest prefix in this language.  Each part can be taken greedily because no
byte inside it starts the part after it.
-/

namespace MinBasic.Lexical

open Computability Text.Ascii

namespace Grammar

/-- `D` -/
def digit : Language UInt8 :=
  ofClass isDigit

/-- `D+` -/
def digits : Language UInt8 :=
  digit * digit∗

/-- `'.'` -/
def dot : Language UInt8 :=
  ofClass (· = point)

/-- `[Ee][+-]?D+` -/
def exponent : Language UInt8 :=
  ofClass isExponentMark * ((1 + ofClass isSign) * digits)

/-- `D+('.'D*)?([Ee][+-]?D+)? | '.'D+([Ee][+-]?D+)?` -/
def numeral : Language UInt8 :=
  digits * (1 + dot * digit∗) * (1 + exponent) + dot * digits * (1 + exponent)

/-! ## The bytes of numerals -/

/-- A class that has the digits, the point, the exponent marks and the signs has
every byte of a numeral. -/
theorem numeral_le_kstar {accepts : UInt8 → Bool}
    (ofDigit : ∀ {byte}, isDigit byte = true → accepts byte = true)
    (ofPoint : accepts point = true)
    (ofMark : ∀ {byte}, isExponentMark byte = true → accepts byte = true)
    (ofSign : ∀ {byte}, isSign byte = true → accepts byte = true) :
    numeral ≤ (ofClass accepts)∗ := by
  have class_le {part : UInt8 → Bool} (within : ∀ {byte}, part byte = true → accepts byte = true) :
      ofClass part ≤ (ofClass accepts)∗ :=
    (ofClass_mono fun _ => within).trans le_kstar
  have optional_le {language : Language UInt8} (le : language ≤ (ofClass accepts)∗) :
      1 + language ≤ (ofClass accepts)∗ :=
    add_le one_le_kstar le
  have digit_le : digit ≤ (ofClass accepts)∗ := class_le ofDigit
  have run_le : digit∗ ≤ (ofClass accepts)∗ := (kstar_mono digit_le).trans_eq (kstar_idem _)
  have digits_le : digits ≤ (ofClass accepts)∗ := mul_le_kstar digit_le run_le
  have dot_le : dot ≤ (ofClass accepts)∗ :=
    class_le fun isPoint => of_decide_eq_true isPoint ▸ ofPoint
  have exponent_le : exponent ≤ (ofClass accepts)∗ :=
    mul_le_kstar (class_le ofMark) (mul_le_kstar (optional_le (class_le ofSign)) digits_le)
  have wholeFirst :=
    mul_le_kstar (mul_le_kstar digits_le (optional_le (mul_le_kstar dot_le run_le)))
      (optional_le exponent_le)
  have pointFirst := mul_le_kstar (mul_le_kstar dot_le digits_le) (optional_le exponent_le)
  exact add_le wholeFirst pointFirst

/-- The words without blanks. -/
def unbroken : Language UInt8 :=
  (ofClass fun byte => !isBlank byte)∗

theorem numeral_le_unbroken : numeral ≤ unbroken := by
  apply numeral_le_kstar
  · exact fun digit => by rw [isBlank_eq_false_of_isDigit digit, Bool.not_false]
  · rfl
  · exact fun mark => by rw [isBlank_eq_false_of_isExponentMark mark, Bool.not_false]
  · exact fun sign => by rw [isBlank_eq_false_of_isSign sign, Bool.not_false]

/-- The bytes that numerals are made of. -/
def isNumeralByte (byte : UInt8) : Bool :=
  isDigit byte || byte = point || isExponentMark byte || isSign byte

theorem numeral_le_numeralBytes : numeral ≤ (ofClass isNumeralByte)∗ := by
  apply numeral_le_kstar
  · exact fun digit => by simp [isNumeralByte, digit]
  · rfl
  · exact fun mark => by simp [isNumeralByte, mark]
  · exact fun sign => by simp [isNumeralByte, sign]

end Grammar

namespace Numeral

open Grammar

theorem take_wholeLength (bytes : Bytes) :
    bytes.take (wholeLength bytes) = bytes.takeWhile isDigit :=
  (List.prefix_iff_eq_take.mp (List.takeWhile_prefix isDigit)).symm

/-- The whole digits are the longest run of digits. -/
theorem isLongestPrefix_whole (bytes : Bytes) :
    IsLongestPrefix digit∗ bytes (bytes.take (wholeLength bytes)) := by
  rw [take_wholeLength]
  exact IsLongestPrefix.takeWhile isDigit bytes

theorem isDigit_of_mem_take_wholeLength {bytes : Bytes} {byte : UInt8}
    (member : byte ∈ bytes.take (wholeLength bytes)) : isDigit byte = true := by
  rw [take_wholeLength] at member
  exact List.mem_takeWhile_imp member

private theorem take_wholeLength_ne_nil {bytes : Bytes} (nonzero : wholeLength bytes ≠ 0) :
    bytes.take (wholeLength bytes) ≠ [] := by
  rw [take_wholeLength]
  exact fun none => nonzero (by rw [wholeLength, none, List.length_nil])

private theorem isDigit_of_cons_mem_kstar {byte : UInt8} {word : Bytes}
    (member : byte :: word ∈ digit∗) : isDigit byte = true :=
  mem_kstar_ofClass_iff.mp member byte List.mem_cons_self

private theorem isDigit_of_cons_mem_digits {byte : UInt8} {word : Bytes}
    (member : byte :: word ∈ digits) : isDigit byte = true :=
  accepts_of_cons_mem_ofClass_mul member

/-- The fraction is the longest prefix in `('.'D*)?`. -/
theorem isLongestPrefix_fraction (bytes : Bytes) :
    IsLongestPrefix (1 + dot * digit∗) bytes (bytes.take (fractionLength bytes)) := by
  cases bytes with
  | nil => exact IsLongestPrefix.nil_of_forall (Or.inl rfl) fun _ => List.prefix_nil.mp
  | cons byte rest =>
      by_cases isPoint : byte = point
      · rw [fractionLength, if_pos isPoint, Nat.add_comm, List.take_succ_cons]
        have atPoint : IsLongestPrefix dot ([byte] ++ rest) [byte] :=
          IsLongestPrefix.singleton (by simpa using isPoint) rest
        apply IsLongestPrefix.one_add
        apply atPoint.mul (· = point) (isLongestPrefix_whole rest)
        · simpa using isPoint
        · intro start word member
          have startDigit := isDigit_of_cons_mem_kstar member
          rw [decide_eq_false_iff_not]
          rintro rfl
          contradiction
      · rw [fractionLength, if_neg isPoint, List.take_zero]
        apply IsLongestPrefix.nil_of_forall (Or.inl rfl)
        rintro other (otherNil | otherMem) otherWithin
        · exact otherNil
        · cases other with
          | nil => rfl
          | cons start word =>
              have atPoint := accepts_of_cons_mem_ofClass_mul otherMem
              obtain ⟨rfl, -⟩ := List.cons_prefix_cons.mp otherWithin
              exact absurd (by simpa using atPoint) isPoint

/-- The sign is the longest prefix in `[+-]?`. -/
theorem isLongestPrefix_sign (bytes : Bytes) :
    IsLongestPrefix (1 + ofClass isSign) bytes (bytes.take (signLength bytes)) := by
  cases bytes with
  | nil => exact IsLongestPrefix.nil_of_forall (Or.inl rfl) fun _ => List.prefix_nil.mp
  | cons byte rest =>
      rw [signLength]
      split
      · rename_i sign
        exact (IsLongestPrefix.singleton sign rest).one_add
      · rename_i noSign
        apply IsLongestPrefix.nil_of_forall (Or.inl rfl)
        rintro other (otherNil | ⟨start, sign, rfl⟩) otherWithin
        · exact otherNil
        · obtain ⟨rfl, -⟩ := List.cons_prefix_cons.mp otherWithin
          exact absurd sign noSign

private theorem isSign_of_mem_take_signLength {bytes : Bytes} {byte : UInt8}
    (member : byte ∈ bytes.take (signLength bytes)) : isSign byte = true := by
  rcases (isLongestPrefix_sign bytes).mem with none | ⟨sign, isSign, isTaken⟩
  · rw [(Language.mem_one _).mp none] at member
    contradiction
  · rw [isTaken] at member
    rwa [List.mem_singleton.mp member]

private theorem isSign_eq_false_of_cons_mem_digits {byte : UInt8} {word : Bytes}
    (member : byte :: word ∈ digits) : isSign byte = false :=
  isSign_eq_false_of_isDigit (isDigit_of_cons_mem_digits member)

/-- A nonempty run of whole digits is the longest prefix in `D+`. -/
theorem isLongestPrefix_digits {bytes : Bytes} (nonzero : wholeLength bytes ≠ 0) :
    IsLongestPrefix digits bytes (bytes.take (wholeLength bytes)) :=
  (isLongestPrefix_whole bytes).mul_kstar (take_wholeLength_ne_nil nonzero)

/-- A text without digits at its start has no prefix in `D+`. -/
theorem wholeLength_ne_zero_of_mem_digits {bytes word : Bytes} (member : word ∈ digits)
    (within : word <+: bytes) : wholeLength bytes ≠ 0 := by
  obtain ⟨nonempty, accepted⟩ := mem_ofClass_mul_kstar_iff.mp member
  have fits := (isLongestPrefix_whole bytes).longest (mem_kstar_ofClass_iff.mpr accepted) within
  have := List.length_pos_iff.mpr nonempty
  rw [List.length_take] at fits
  omega

/-- A sign and digits after an exponent mark do not look like a mark. -/
private theorem isExponentMark_eq_false_of_cons_mem {byte : UInt8} {word : Bytes}
    (member : byte :: word ∈ (1 + ofClass isSign) * digits) : isExponentMark byte = false := by
  obtain ⟨left, leftMem, right, rightMem, joined⟩ := Language.mem_mul.mp member
  cases mark : isExponentMark byte with
  | false => rfl
  | true =>
      rcases leftMem with rfl | ⟨sign, isSign, rfl⟩
      · rw [List.nil_append] at joined
        rw [joined] at rightMem
        have digit := isDigit_of_cons_mem_digits rightMem
        rw [isDigit_eq_false_of_isExponentMark mark] at digit
        contradiction
      · obtain ⟨rfl, -⟩ := List.cons.inj joined
        rw [isSign_eq_false_of_isExponentMark mark] at isSign
        contradiction

/-- The exponent is the longest prefix in `([Ee][+-]?D+)?`. -/
theorem isLongestPrefix_exponent (bytes : Bytes) :
    IsLongestPrefix (1 + exponent) bytes (bytes.take (exponentLength bytes)) := by
  cases bytes with
  | nil => exact IsLongestPrefix.nil_of_forall (Or.inl rfl) fun _ => List.prefix_nil.mp
  | cons byte rest =>
      have signed : IsLongestPrefix (1 + ofClass isSign)
          (rest.take (signLength rest) ++ rest.drop (signLength rest))
          (rest.take (signLength rest)) := by
        rw [List.take_append_drop]
        exact isLongestPrefix_sign rest
      rw [exponentLength]
      split
      · rename_i isTaken
        have number := signed.mul isSign (isLongestPrefix_digits isTaken.2)
          (fun _ => isSign_of_mem_take_signLength) isSign_eq_false_of_cons_mem_digits
        rw [List.take_append_drop] at number
        have marked := (IsLongestPrefix.singleton isTaken.1 rest).mul isExponentMark number
          (by simpa using isTaken.1) isExponentMark_eq_false_of_cons_mem
        rw [Nat.add_assoc, Nat.add_comm, List.take_succ_cons, List.take_add]
        exact marked.one_add
      · rename_i notTaken
        apply IsLongestPrefix.nil_of_forall (Or.inl rfl)
        rintro other (otherNil | ⟨_, ⟨start, mark, rfl⟩, word, wordMem, rfl⟩) otherWithin
        · exact otherNil
        -- A mark with a sign and digits after it would have been taken.
        · exfalso
          obtain ⟨left, leftMem, right, rightMem, rfl⟩ := Language.mem_mul.mp wordMem
          obtain ⟨rfl, wordWithin⟩ := List.cons_prefix_cons.mp otherWithin
          have wordWithin : left ++ right <+:
              rest.take (signLength rest) ++ rest.drop (signLength rest) := by
            rw [List.take_append_drop]
            exact wordWithin
          rcases signed.append_within_cases isSign (fun _ => isSign_of_mem_take_signLength)
              isSign_eq_false_of_cons_mem_digits leftMem rightMem wordWithin with
            ⟨rfl, -⟩ | ⟨-, rightWithin⟩
          · exact (mem_ofClass_mul_kstar_iff.mp rightMem).1 rfl
          · exact notTaken ⟨mark, wholeLength_ne_zero_of_mem_digits rightMem rightWithin⟩

/-! ## Whole numerals -/

/-- A byte of the whole digits or the fraction. -/
def isMantissaByte (byte : UInt8) : Bool :=
  isDigit byte || byte = point

theorem isMantissaByte_of_mem_take_fractionLength {bytes : Bytes} {byte : UInt8}
    (member : byte ∈ bytes.take (fractionLength bytes)) : isMantissaByte byte = true := by
  cases bytes with
  | nil => simp at member
  | cons start rest =>
      rw [fractionLength] at member
      split at member
      · rename_i isPoint
        rw [Nat.add_comm, List.take_succ_cons] at member
        rcases List.mem_cons.mp member with rfl | member
        · simp [isMantissaByte, isPoint]
        · simp [isMantissaByte, isDigit_of_mem_take_wholeLength member]
      · simp at member

theorem take_mantissaLength (bytes : Bytes) :
    bytes.take (mantissaLength bytes) =
      bytes.take (wholeLength bytes) ++
        (bytes.drop (wholeLength bytes)).take (fractionLength (bytes.drop (wholeLength bytes))) :=
  List.take_add

theorem isMantissaByte_of_mem_take_mantissaLength {bytes : Bytes} {byte : UInt8}
    (member : byte ∈ bytes.take (mantissaLength bytes)) : isMantissaByte byte = true := by
  rw [take_mantissaLength] at member
  rcases List.mem_append.mp member with member | member
  · simp [isMantissaByte, isDigit_of_mem_take_wholeLength member]
  · exact isMantissaByte_of_mem_take_fractionLength member

private theorem isMantissaByte_eq_false_of_cons_mem {byte : UInt8} {word : Bytes}
    (member : byte :: word ∈ 1 + exponent) : isMantissaByte byte = false := by
  rcases member with none | member
  · contradiction
  · have mark := accepts_of_cons_mem_ofClass_mul member
    have notPoint : byte ≠ point := by
      rintro rfl
      contradiction
    simp [isMantissaByte, isDigit_eq_false_of_isExponentMark mark, notPoint]

/-- A mantissa is extended by its exponent. -/
theorem isLongestPrefix_mantissa_mul_exponent {bytes : Bytes} {language : Language UInt8}
    (mantissa : IsLongestPrefix language bytes (bytes.take (mantissaLength bytes))) :
    IsLongestPrefix (language * (1 + exponent)) bytes (bytes.take (length bytes)) := by
  rw [← List.take_append_drop (mantissaLength bytes) bytes] at mantissa
  rw [List.take_left' (by simp [mantissaLength_le])] at mantissa
  have extended := mantissa.mul isMantissaByte (isLongestPrefix_exponent _)
    (fun _ => isMantissaByte_of_mem_take_mantissaLength) isMantissaByte_eq_false_of_cons_mem
  rwa [List.take_append_drop, ← List.take_add] at extended

theorem wholeLength_cons_ne_zero_iff {byte : UInt8} {rest : Bytes} :
    wholeLength (byte :: rest) ≠ 0 ↔ isDigit byte = true := by
  by_cases digit : isDigit byte = true <;> simp [wholeLength, digit]

/-- A numeral starts with a digit, or with a point and a digit. -/
theorem starts_iff {bytes : Bytes} :
    starts bytes = true ↔
      ∃ start rest, isDigit start = true ∧
        (bytes = start :: rest ∨ bytes = point :: start :: rest) := by
  constructor
  · intro started
    cases bytes with
    | nil => contradiction
    | cons byte rest =>
        simp only [starts, Bool.or_eq_true, Bool.and_eq_true, decide_eq_true_eq] at started
        rcases started with digit | ⟨rfl, fraction⟩
        · exact ⟨byte, rest, digit, Or.inl rfl⟩
        · cases rest with
          | nil => contradiction
          | cons start rest =>
              exact ⟨start, rest, wholeLength_cons_ne_zero_iff.mp fraction, Or.inr rfl⟩
  · rintro ⟨start, rest, digit, rfl | rfl⟩
    · simp [starts, digit]
    · simp [starts, wholeLength, digit]

private theorem isDigit_eq_false_of_cons_mem_fraction {byte : UInt8} {word : Bytes}
    (member : byte :: word ∈ 1 + dot * digit∗) : isDigit byte = false := by
  rcases member with none | member
  · contradiction
  · have isPoint := accepts_of_cons_mem_ofClass_mul member
    rw [decide_eq_true_iff.mp isPoint]
    rfl

/-- Whole digits are extended by their fraction. -/
theorem isLongestPrefix_digits_mul_fraction {bytes : Bytes} (nonzero : wholeLength bytes ≠ 0) :
    IsLongestPrefix (digits * (1 + dot * digit∗)) bytes
      (bytes.take (mantissaLength bytes)) := by
  have whole := isLongestPrefix_digits nonzero
  rw [← List.take_append_drop (wholeLength bytes) bytes] at whole
  rw [List.take_left' (by simp [wholeLength_le])] at whole
  have extended := whole.mul isDigit (isLongestPrefix_fraction _)
    (fun _ => isDigit_of_mem_take_wholeLength) isDigit_eq_false_of_cons_mem_fraction
  rwa [List.take_append_drop, ← take_mantissaLength] at extended

/-- A fraction without whole digits needs a digit after its point. -/
theorem isLongestPrefix_dot_mul_digits {rest : Bytes} (nonzero : wholeLength rest ≠ 0) :
    IsLongestPrefix (dot * digits) (point :: rest)
      ((point :: rest).take (mantissaLength (point :: rest))) := by
  have atPoint : IsLongestPrefix dot ([point] ++ rest) [point] :=
    IsLongestPrefix.singleton rfl rest
  have mantissa : mantissaLength (point :: rest) = wholeLength rest + 1 := by
    have noWhole : wholeLength (point :: rest) = 0 := by simp [wholeLength]
    rw [mantissaLength, noWhole, List.drop_zero, fractionLength, if_pos rfl, Nat.zero_add,
      Nat.add_comm]
  rw [mantissa, List.take_succ_cons]
  apply atPoint.mul (· = point) (isLongestPrefix_digits nonzero) (by simp)
  intro byte word member
  have digit := isDigit_of_cons_mem_digits member
  rw [decide_eq_false_iff_not]
  rintro rfl
  contradiction

/-- The length of a numeral is the length of the longest prefix in the language
of numerals. -/
theorem isLongestPrefix_numeral {bytes : Bytes} (started : starts bytes = true) :
    IsLongestPrefix numeral bytes (bytes.take (length bytes)) := by
  -- The first byte tells the two forms apart, so only one of them can hold.
  obtain ⟨start, rest, digit, form⟩ := starts_iff.mp started
  have nonzero : wholeLength (start :: rest) ≠ 0 := wholeLength_cons_ne_zero_iff.mpr digit
  rcases form with rfl | rfl
  · have wholeFirst := isLongestPrefix_mantissa_mul_exponent
      (isLongestPrefix_digits_mul_fraction nonzero)
    apply wholeFirst.add_of_forall_not_within
    rintro _ ⟨_, ⟨_, ⟨other, isPoint, rfl⟩, _, -, rfl⟩, _, -, rfl⟩ otherWithin
    obtain ⟨rfl, -⟩ := List.cons_prefix_cons.mp otherWithin
    rw [decide_eq_true_iff.mp isPoint] at digit
    contradiction
  · rw [numeral, add_comm]
    have pointFirst := isLongestPrefix_mantissa_mul_exponent
      (isLongestPrefix_dot_mul_digits nonzero)
    apply pointFirst.add_of_forall_not_within
    rintro _ ⟨_, ⟨_, ⟨_, ⟨other, otherDigit, rfl⟩, _, -, rfl⟩, _, -, rfl⟩, _, -, rfl⟩ otherWithin
    obtain ⟨rfl, -⟩ := List.cons_prefix_cons.mp otherWithin
    contradiction

/-- A numeral is whole exactly when all its bytes are digits. -/
theorem isWhole_iff {bytes : Bytes} :
    isWhole bytes = true ↔ ∀ byte ∈ bytes.take (length bytes), isDigit byte = true := by
  rw [isWhole, decide_eq_true_iff]
  constructor
  · intro whole
    rw [whole]
    exact fun _ => isDigit_of_mem_take_wholeLength
  · intro accepted
    have fits := (isLongestPrefix_whole bytes).longest (mem_kstar_ofClass_iff.mpr accepted)
      (List.take_prefix _ _)
    rw [List.length_take_of_le (length_le bytes),
      List.length_take_of_le (wholeLength_le bytes)] at fits
    have : wholeLength bytes ≤ length bytes :=
      Nat.le_trans (Nat.le_add_right _ _) (Nat.le_add_right _ _)
    omega

end Numeral

end MinBasic.Lexical
