import Mathlib.Computability.Language
import Mathlib.Data.List.TakeWhile
import Mathlib.Order.CompletePartialOrder
import MinBasic.Text.Ascii

/-!
# Longest prefixes in a language

A lexical rule takes the longest prefix of a text that a language of byte
strings holds.  Two facts carry the rules.  Among the runs of a class of bytes,
the longest prefix stops at the first byte outside the class.  In a product of
two languages, the longest prefix is made of the longest prefixes in the
factors, provided that no byte inside the first one can start a word of the
second factor; otherwise giving a byte back could gain more than it costs.
-/

namespace MinBasic.Lexical

open Computability

/-- A prefix of a text that is the longest one in a language. -/
structure IsLongestPrefix (language : Language UInt8) (text taken : Bytes) : Prop where
  mem : taken ∈ language
  within : taken <+: text
  longest : ∀ {other : Bytes}, other ∈ language → other <+: text →
    other.length ≤ taken.length

/-- The words of one byte from a class. -/
def ofClass (accepts : UInt8 → Bool) : Language UInt8 :=
  {word | ∃ byte, accepts byte = true ∧ word = [byte]}

theorem mem_ofClass_iff {accepts : UInt8 → Bool} {word : Bytes} :
    word ∈ ofClass accepts ↔ ∃ byte, accepts byte = true ∧ word = [byte] :=
  Iff.rfl

/-- The runs of a class are the words with all their bytes in it. -/
theorem mem_kstar_ofClass_iff {accepts : UInt8 → Bool} {word : Bytes} :
    word ∈ (ofClass accepts)∗ ↔ ∀ byte ∈ word, accepts byte = true := by
  constructor
  · intro member
    obtain ⟨parts, rfl, single⟩ := Language.mem_kstar.mp member
    intro byte byteMem
    obtain ⟨part, partMem, byteMem⟩ := List.mem_flatten.mp byteMem
    obtain ⟨only, accepted, rfl⟩ := mem_ofClass_iff.mp (single part partMem)
    rwa [List.mem_singleton.mp byteMem]
  · intro accepted
    have joined : (word.map fun byte => [byte]).flatten = word := by
      induction word with
      | nil => rfl
      | cons byte word ih => simp_all
    rw [← joined]
    apply Language.join_mem_kstar
    intro part partMem
    obtain ⟨byte, byteMem, rfl⟩ := List.mem_map.mp partMem
    exact ⟨byte, accepted byte byteMem, rfl⟩

theorem ofClass_mono {accepts accepts' : UInt8 → Bool}
    (imp : ∀ byte, accepts byte = true → accepts' byte = true) :
    ofClass accepts ≤ ofClass accepts' := by
  rintro _ ⟨byte, accepted, rfl⟩
  exact ⟨byte, imp byte accepted, rfl⟩

/-- Runs of a class joined to runs of it are runs of it. -/
theorem mul_le_kstar {language first second : Language UInt8} (le : first ≤ language∗)
    (le' : second ≤ language∗) : first * second ≤ language∗ :=
  (mul_le_mul' le le').trans_eq (kstar_mul_kstar _)

/-- A word of a product starts in the class that is its first factor. -/
theorem accepts_of_cons_mem_ofClass_mul {accepts : UInt8 → Bool} {language : Language UInt8}
    {byte : UInt8} {word : Bytes} (member : byte :: word ∈ ofClass accepts * language) :
    accepts byte = true := by
  obtain ⟨_, ⟨start, accepted, rfl⟩, rest, -, joined⟩ := Language.mem_mul.mp member
  obtain ⟨rfl, -⟩ := List.cons.inj joined
  exact accepted

/-- The nonempty runs of a class. -/
theorem mem_ofClass_mul_kstar_iff {accepts : UInt8 → Bool} {word : Bytes} :
    word ∈ ofClass accepts * (ofClass accepts)∗ ↔
      word ≠ [] ∧ ∀ byte ∈ word, accepts byte = true := by
  rw [Language.mem_mul]
  constructor
  · rintro ⟨_, ⟨byte, accepted, rfl⟩, run, runMem, rfl⟩
    constructor
    · exact List.cons_ne_nil _ _
    · rintro other otherMem
      rcases List.mem_cons.mp otherMem with rfl | otherMem
      · exact accepted
      · exact mem_kstar_ofClass_iff.mp runMem other otherMem
  · rintro ⟨nonempty, accepted⟩
    cases word with
    | nil => contradiction
    | cons byte run =>
        have runMem : run ∈ (ofClass accepts)∗ := by
          apply mem_kstar_ofClass_iff.mpr
          exact fun other otherMem => accepted other (List.mem_cons_of_mem _ otherMem)
        exact ⟨[byte], ⟨byte, accepted byte List.mem_cons_self, rfl⟩, run, runMem, rfl⟩

namespace IsLongestPrefix

variable {language first second : Language UInt8} {accepts : UInt8 → Bool}
variable {text taken after : Bytes}

/-- A text has at most one longest prefix in a language. -/
theorem unique {other : Bytes} (isLongest : IsLongestPrefix language text taken)
    (isLongest' : IsLongestPrefix language text other) : taken = other := by
  have sameLength : taken.length = other.length :=
    Nat.le_antisymm (isLongest'.longest isLongest.mem isLongest.within)
      (isLongest.longest isLongest'.mem isLongest'.within)
  rw [List.prefix_iff_eq_take.mp isLongest.within, sameLength]
  exact (List.prefix_iff_eq_take.mp isLongest'.within).symm

/-- Where the empty word is the only prefix in a language, it is the longest. -/
theorem nil_of_forall (mem : [] ∈ language)
    (only : ∀ {other : Bytes}, other ∈ language → other <+: text → other = []) :
    IsLongestPrefix language text [] where
  mem := mem
  within := List.nil_prefix
  longest otherMem otherWithin := by rw [only otherMem otherWithin]

/-- The longest run of a class stops at the first byte outside it. -/
theorem kstar_iff :
    IsLongestPrefix (ofClass accepts)∗ (taken ++ after) taken ↔
      (∀ byte ∈ taken, accepts byte = true) ∧
        ∀ byte ∈ after.head?, accepts byte = false := by
  constructor
  · rintro ⟨mem, -, longest⟩
    have accepted := mem_kstar_ofClass_iff.mp mem
    constructor
    · exact accepted
    · intro byte isHead
      obtain ⟨rest, rfl⟩ := List.head?_eq_some_iff.mp (Option.mem_def.mp isHead)
      -- One more accepted byte would make a longer run.
      by_contra acceptedToo
      have longer : taken ++ [byte] ∈ (ofClass accepts)∗ := by
        apply mem_kstar_ofClass_iff.mpr
        intro other otherMem
        rcases List.mem_append.mp otherMem with otherMem | otherMem
        · exact accepted other otherMem
        · rw [List.mem_singleton.mp otherMem]
          exact Bool.not_eq_false _ ▸ acceptedToo
      have tooLong := longest longer ⟨rest, by simp⟩
      rw [List.length_append, List.length_singleton] at tooLong
      exact Nat.not_succ_le_self _ tooLong
  · rintro ⟨accepted, stops⟩
    constructor
    · exact mem_kstar_ofClass_iff.mpr accepted
    · exact List.prefix_append _ _
    · intro other otherMem otherWithin
      have otherAccepted := mem_kstar_ofClass_iff.mp otherMem
      by_contra longer
      obtain ⟨extra, rfl⟩ := List.prefix_of_prefix_length_le (List.prefix_append taken after)
        otherWithin (Nat.le_of_lt (Nat.lt_of_not_le longer))
      have extraWithin : extra <+: after := (List.prefix_append_right_inj taken).mp otherWithin
      cases extra with
      | nil => simp at longer
      | cons byte extra =>
          obtain ⟨rest, rfl⟩ := extraWithin
          have rejected := stops byte rfl
          rw [otherAccepted byte (by simp)] at rejected
          contradiction

/-- The bytes that `takeWhile` takes are the longest run of the class, seen from
where it stops. -/
theorem takeWhile_append_dropWhile (accepts : UInt8 → Bool) (text : Bytes) :
    IsLongestPrefix (ofClass accepts)∗ (text.takeWhile accepts ++ text.dropWhile accepts)
      (text.takeWhile accepts) := by
  apply kstar_iff.mpr
  constructor
  · intro byte byteMem
    exact List.mem_takeWhile_imp byteMem
  · intro byte isHead
    have stops := List.head?_dropWhile_not accepts text
    rw [Option.mem_def.mp isHead] at stops
    simpa using stops

/-- The bytes that `takeWhile` takes are the longest run of the class. -/
theorem takeWhile (accepts : UInt8 → Bool) (text : Bytes) :
    IsLongestPrefix (ofClass accepts)∗ text (text.takeWhile accepts) := by
  have isLongest := takeWhile_append_dropWhile accepts text
  rwa [List.takeWhile_append_dropWhile] at isLongest

/-- A nonempty longest run is the longest nonempty run. -/
theorem mul_kstar (isLongest : IsLongestPrefix (ofClass accepts)∗ text taken)
    (nonempty : taken ≠ []) :
    IsLongestPrefix (ofClass accepts * (ofClass accepts)∗) text taken where
  mem := mem_ofClass_mul_kstar_iff.mpr ⟨nonempty, mem_kstar_ofClass_iff.mp isLongest.mem⟩
  within := isLongest.within
  longest otherMem :=
    isLongest.longest (mem_kstar_ofClass_iff.mpr (mem_ofClass_mul_kstar_iff.mp otherMem).2)

/-- One byte of a class is the longest word of one byte. -/
theorem singleton {byte : UInt8} (accepted : accepts byte = true) (rest : Bytes) :
    IsLongestPrefix (ofClass accepts) ([byte] ++ rest) [byte] where
  mem := ⟨byte, accepted, rfl⟩
  within := ⟨rest, rfl⟩
  longest := by
    rintro _ ⟨other, -, rfl⟩ -
    exact Nat.le_refl 1

/-- A longest run of a class is what `takeWhile` takes. -/
theorem eq_takeWhile (isLongest : IsLongestPrefix (ofClass accepts)∗ text taken) :
    taken = text.takeWhile accepts :=
  isLongest.unique (takeWhile accepts text)

/-! ## Changing the text after the prefix -/

/-- A longest prefix stays the longest when the text after it is cut short. -/
theorem of_prefix {after' : Bytes} (isLongest : IsLongestPrefix language (taken ++ after) taken)
    (within : after' <+: after) : IsLongestPrefix language (taken ++ after') taken where
  mem := isLongest.mem
  within := List.prefix_append taken after'
  longest otherMem otherWithin :=
    isLongest.longest otherMem (otherWithin.trans ((List.prefix_append_right_inj taken).mpr within))

/-- A longest prefix stays the longest when the text goes on behind a byte that is
in no word of the language. -/
theorem append_of_mem {more : Bytes} {stop : UInt8}
    (isLongest : IsLongestPrefix language (taken ++ after) taken)
    (inside : language ≤ (ofClass accepts)∗) (stopMem : stop ∈ after)
    (rejected : accepts stop = false) :
    IsLongestPrefix language (taken ++ (after ++ more)) taken where
  mem := isLongest.mem
  within := List.prefix_append _ _
  longest := by
    intro other otherMem otherWithin
    rw [← List.append_assoc] at otherWithin
    rcases List.prefix_or_prefix_of_prefix otherWithin (List.prefix_append _ more) with
      within | beyond
    · exact isLongest.longest otherMem within
    · have stopMem' : stop ∈ other := beyond.subset (List.mem_append_right taken stopMem)
      have accepted := mem_kstar_ofClass_iff.mp (inside otherMem) stop stopMem'
      rw [rejected] at accepted
      contradiction

/-- A longest prefix stays the longest when the text goes on with a byte that is in
no word of the language. -/
theorem append_of_head {more : Bytes}
    (isLongest : IsLongestPrefix language (taken ++ after) taken)
    (inside : language ≤ (ofClass accepts)∗)
    (stops : ∀ byte ∈ more.head?, accepts byte = false) :
    IsLongestPrefix language (taken ++ (after ++ more)) taken where
  mem := isLongest.mem
  within := List.prefix_append _ _
  longest := by
    intro other otherMem otherWithin
    rw [← List.append_assoc] at otherWithin
    rcases List.prefix_or_prefix_of_prefix otherWithin (List.prefix_append _ more) with
      within | ⟨extra, rfl⟩
    · exact isLongest.longest otherMem within
    · cases extra with
      | nil => exact isLongest.longest otherMem (List.append_nil _ ▸ List.prefix_rfl)
      | cons byte extra =>
          obtain ⟨rest, rfl⟩ := (List.prefix_append_right_inj _).mp otherWithin
          have accepted := mem_kstar_ofClass_iff.mp (inside otherMem) byte (by simp)
          rw [stops byte rfl] at accepted
          contradiction

/-! ## Products -/

/-- How a prefix in a product can lie when no byte of the longest prefix in the
first factor starts a word of the second: either it ends inside that prefix, or
its first part is that prefix. -/
theorem append_within_cases {left right : Bytes} (accepts : UInt8 → Bool)
    (isLongest : IsLongestPrefix first (taken ++ after) taken)
    (inside : ∀ byte ∈ taken, accepts byte = true)
    (outside : ∀ {byte : UInt8} {word : Bytes}, byte :: word ∈ second → accepts byte = false)
    (leftMem : left ∈ first) (rightMem : right ∈ second)
    (within : left ++ right <+: taken ++ after) :
    (right = [] ∧ left <+: taken) ∨ (left = taken ∧ right <+: after) := by
  have leftWithin : left <+: taken ++ after := (List.prefix_append left right).trans within
  obtain ⟨skipped, rfl⟩ := List.prefix_of_prefix_length_le leftWithin
    (List.prefix_append taken after) (isLongest.longest leftMem leftWithin)
  rw [List.append_assoc] at within
  have rightWithin : right <+: skipped ++ after := (List.prefix_append_right_inj left).mp within
  cases skipped with
  | nil => exact Or.inr ⟨by simp, by simpa using rightWithin⟩
  | cons byte skipped =>
      cases right with
      | nil => exact Or.inl ⟨rfl, List.prefix_append _ _⟩
      | cons byte' right =>
          have sameByte : byte' = byte := (List.cons_prefix_cons.mp rightWithin).1
          have rejected := outside rightMem
          rw [sameByte, inside byte (by simp)] at rejected
          contradiction

/-- The longest prefix in a product is made of the longest prefixes in its
factors. -/
theorem mul {taken' : Bytes} (accepts : UInt8 → Bool)
    (isLongest : IsLongestPrefix first (taken ++ after) taken)
    (isLongest' : IsLongestPrefix second after taken')
    (inside : ∀ byte ∈ taken, accepts byte = true)
    (outside : ∀ {byte : UInt8} {word : Bytes}, byte :: word ∈ second → accepts byte = false) :
    IsLongestPrefix (first * second) (taken ++ after) (taken ++ taken') where
  mem := Language.append_mem_mul isLongest.mem isLongest'.mem
  within := (List.prefix_append_right_inj taken).mpr isLongest'.within
  longest := by
    intro other otherMem otherWithin
    obtain ⟨left, leftMem, right, rightMem, rfl⟩ := Language.mem_mul.mp otherMem
    rw [List.length_append, List.length_append]
    rcases isLongest.append_within_cases accepts inside outside leftMem rightMem otherWithin with
      ⟨rfl, leftWithin⟩ | ⟨rfl, rightWithin⟩
    · have := leftWithin.length_le
      rw [List.length_nil]
      omega
    · have := isLongest'.longest rightMem rightWithin
      omega

/-- A language that has no word starting like the text adds nothing. -/
theorem add_of_forall_not_within (isLongest : IsLongestPrefix first text taken)
    (apart : ∀ {other : Bytes}, other ∈ second → ¬ other <+: text) :
    IsLongestPrefix (first + second) text taken where
  mem := Or.inl isLongest.mem
  within := isLongest.within
  longest := by
    intro other otherMem otherWithin
    rcases otherMem with otherMem | otherMem
    · exact isLongest.longest otherMem otherWithin
    · exact absurd otherWithin (apart otherMem)

/-- A nonempty longest prefix stays the longest when the empty word is added. -/
theorem one_add (isLongest : IsLongestPrefix language text taken) :
    IsLongestPrefix (1 + language) text taken where
  mem := Or.inr isLongest.mem
  within := isLongest.within
  longest := by
    intro other otherMem otherWithin
    rcases otherMem with otherNil | otherMem
    · rw [(Language.mem_one other).mp otherNil]
      exact Nat.zero_le _
    · exact isLongest.longest otherMem otherWithin

end IsLongestPrefix

end MinBasic.Lexical
