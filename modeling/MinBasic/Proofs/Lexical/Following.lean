import MinBasic.Proofs.Lexical.Spelling

/-!
# What follows a lexeme

A rule looks past the bytes that it takes: a comparison at the next byte, a
numeral at an exponent that might continue it, a point at a digit.  None of that
depends on more than where the taken bytes stop.  So the text after a lexeme may
be cut short, and from there it may go on in any way that the rules do not read
into: with a blank or a quote, or behind a byte that is in no numeral.  None of
that changes the rule that spells the lexeme.  Only an unclosed string and the
end of the text need that nothing follows.
-/

namespace MinBasic.Lexical

open Computability Text Text.Ascii

/-- A byte that ends every lexeme before it: a blank or a quote. -/
def isStop (byte : UInt8) : Bool :=
  isBlank byte || byte = quote

/-- No rule that has read up to `kept` reads on into `more`: the rules stop before
the end of `kept`, or at the start of `more`. -/
def StopsBefore (kept more : Bytes) : Prop :=
  (∃ byte ∈ kept, Grammar.isNumeralByte byte = false) ∨ ∀ byte ∈ more.head?, isStop byte = true

/-- A text that may stand after a lexeme in place of `after`: a part of it from
its start, and then a text that no rule reads into.  Where nothing stood nothing
may. -/
inductive CanReplace (after : Bytes) : Bytes → Prop where
  | intro {kept more : Bytes} (within : kept <+: after) (stops : StopsBefore kept more)
      (nothing : after = [] → more = []) : CanReplace after (kept ++ more)

/-! ## Stops belong to no class -/

theorem isStop_of_isBlank {byte : UInt8} (blank : isBlank byte = true) : isStop byte = true := by
  rw [isStop, blank, Bool.true_or]

theorem isStop_quote : isStop quote = true :=
  rfl

/-- A class that has no blank and no quote has no stop. -/
theorem eq_false_of_isStop {accepts : UInt8 → Bool}
    (apart : ∀ byte ∈ ([0x09, 0x0A, 0x0C, 0x0D, 0x20, quote] : Bytes), accepts byte = false)
    {byte : UInt8} (stop : isStop byte = true) : accepts byte = false := by
  simp only [isStop, isBlank, Bool.or_eq_true, decide_eq_true_eq, or_assoc] at stop
  exact apart byte (by simpa using stop)

theorem isDigit_eq_false_of_isStop {byte : UInt8} (stop : isStop byte = true) :
    isDigit byte = false :=
  eq_false_of_isStop (by decide +kernel) stop

theorem isLetter_eq_false_of_isStop {byte : UInt8} (stop : isStop byte = true) :
    isLetter byte = false :=
  eq_false_of_isStop (by decide +kernel) stop

theorem isContinuation_eq_false_of_isStop {byte : UInt8} (stop : isStop byte = true) :
    Utf8.isContinuation byte = false :=
  eq_false_of_isStop (by decide +kernel) stop

theorem isNumeralByte_eq_false_of_isStop {byte : UInt8} (stop : isStop byte = true) :
    Grammar.isNumeralByte byte = false :=
  eq_false_of_isStop (by decide +kernel) stop

theorem not_mem_operators_of_isStop {byte next : UInt8} (stop : isStop next = true)
    (symbol : Terminal) : ([byte, next], symbol) ∉ operators := by
  have unstopped : ∀ item ∈ operators, ∀ byte ∈ item.1, isStop byte = false := by
    decide +kernel
  intro isOperator
  have noStop : isStop next = false := unstopped _ isOperator next (by simp)
  rw [stop] at noStop
  cases noStop

namespace CanReplace

variable {after after' : Bytes}

/-! ## Ways to replace a text -/

/-- A text can be cut short. -/
theorem shorter (within : after' <+: after) : CanReplace after after' := by
  have cut : CanReplace after (after' ++ []) := .intro within (Or.inr nofun) fun _ => rfl
  rwa [List.append_nil] at cut

/-- A text can go on with a stop. -/
theorem atStop {kept rest : Bytes} {byte : UInt8} (more : after ≠ []) (within : kept <+: after)
    (stop : isStop byte = true) : CanReplace after (kept ++ byte :: rest) := by
  apply CanReplace.intro within (Or.inr _) fun nothing => absurd nothing more
  rintro _ ⟨rfl⟩
  exact stop

/-- A text that was there can start with a blank. -/
theorem blank {byte : UInt8} {rest : Bytes} (more : after ≠ []) (isBlank : isBlank byte = true) :
    CanReplace after (byte :: rest) :=
  atStop more List.nil_prefix (isStop_of_isBlank isBlank)

/-- A text can go on in any way behind a byte that is in no numeral. -/
theorem behind {kept more : Bytes} {byte : UInt8} (within : kept <+: after) (member : byte ∈ kept)
    (noNumeral : Grammar.isNumeralByte byte = false) : CanReplace after (kept ++ more) := by
  apply CanReplace.intro within (Or.inl ⟨byte, member, noNumeral⟩)
  rintro rfl
  rw [List.prefix_nil.mp within] at member
  contradiction

/-- A text can go on in any way behind a newline. -/
theorem longer {more : Bytes} (broken : newline ∈ after) : CanReplace after (after ++ more) :=
  behind List.prefix_rfl broken rfl

/-! ## What a rule sees of the text -/

/-- Nothing can only be replaced by nothing. -/
theorem eq_nil (canReplace : CanReplace [] after') : after' = [] := by
  obtain ⟨within, -, nothing⟩ := canReplace
  rw [List.prefix_nil.mp within, nothing rfl, List.append_nil]

/-- What is true of the first byte of a text, and of stops, stays true. -/
theorem head {holds : UInt8 → Prop} (canReplace : CanReplace after after')
    (first : ∀ byte ∈ after.head?, holds byte)
    (ofStop : ∀ {byte}, isStop byte = true → holds byte) : ∀ byte ∈ after'.head?, holds byte := by
  obtain @⟨kept, more, within, stops, -⟩ := canReplace
  intro byte isHead
  cases kept with
  | nil =>
      rcases stops with ⟨_, member, -⟩ | stops
      · contradiction
      · exact ofStop (stops byte isHead)
  | cons start kept =>
      obtain ⟨rest, rfl⟩ := within
      exact first byte isHead

/-- A run of a class without stops stops where it stopped. -/
theorem kstar {accepts : UInt8 → Bool} {taken : Bytes} (canReplace : CanReplace after after')
    (apart : ∀ {byte}, isStop byte = true → accepts byte = false)
    (longest : IsLongestPrefix (ofClass accepts)∗ (taken ++ after) taken) :
    IsLongestPrefix (ofClass accepts)∗ (taken ++ after') taken := by
  obtain ⟨accepted, stops⟩ := IsLongestPrefix.kstar_iff.mp longest
  exact IsLongestPrefix.kstar_iff.mpr ⟨accepted, canReplace.head stops apart⟩

/-- A numeral stops where it stopped. -/
theorem numeral {taken : Bytes} (canReplace : CanReplace after after')
    (longest : IsLongestPrefix Grammar.numeral (taken ++ after) taken) :
    IsLongestPrefix Grammar.numeral (taken ++ after') taken := by
  obtain ⟨within, stops, -⟩ := canReplace
  have inside := Grammar.numeral_le_numeralBytes
  rcases stops with ⟨byte, member, noNumeral⟩ | stops
  · exact (longest.of_prefix within).append_of_mem inside member noNumeral
  · exact (longest.of_prefix within).append_of_head inside fun byte isHead =>
      isNumeralByte_eq_false_of_isStop (stops byte isHead)

end CanReplace

/-! ## Opening a numeral -/

/-- A numeral opens like one. -/
theorem opensNumeral_of_mem_numeral {word : Bytes} (member : word ∈ Grammar.numeral) :
    OpensNumeral word := by
  rcases member with ⟨_, ⟨_, ⟨_, ⟨digit, isDigit, rfl⟩, _, -, rfl⟩, _, -, rfl⟩, _, -, rfl⟩ |
    ⟨_, ⟨_, ⟨_, isPoint, rfl⟩, _, ⟨_, ⟨digit, isDigit, rfl⟩, _, -, rfl⟩, rfl⟩, _, -, rfl⟩
  · exact ⟨digit, _, isDigit, Or.inl rfl⟩
  · rw [of_decide_eq_true isPoint]
    exact ⟨digit, _, isDigit, Or.inr rfl⟩

/-- What opens a numeral is not changed by the text after it. -/
theorem OpensNumeral.append {text : Bytes} (opens : OpensNumeral text) (after : Bytes) :
    OpensNumeral (text ++ after) := by
  obtain ⟨digit, rest, isDigit, rfl | rfl⟩ := opens
  · exact ⟨digit, rest ++ after, isDigit, Or.inl rfl⟩
  · exact ⟨digit, rest ++ after, isDigit, Or.inr rfl⟩

/-- Only a point needs to see the byte after it. -/
theorem opensNumeral_cons_iff {byte : UInt8} {rest : Bytes} :
    OpensNumeral (byte :: rest) ↔
      isDigit byte = true ∨ byte = point ∧ ∃ digit ∈ rest.head?, isDigit digit = true := by
  constructor
  · rintro ⟨digit, rest', isDigit, same | same⟩
    · obtain ⟨rfl, -⟩ := List.cons.inj same
      exact Or.inl isDigit
    · obtain ⟨rfl, rfl⟩ := List.cons.inj same
      exact Or.inr ⟨rfl, digit, rfl, isDigit⟩
  · rintro (isDigit | ⟨rfl, digit, isHead, isDigit⟩)
    · exact ⟨byte, rest, isDigit, Or.inl rfl⟩
    · obtain ⟨rest', rfl⟩ := List.head?_eq_some_iff.mp (Option.mem_def.mp isHead)
      exact ⟨digit, rest', isDigit, Or.inr rfl⟩

/-- A text that opens no numeral does not open one after a replacement behind its
first bytes. -/
theorem CanReplace.opensNumeral {after after' trail : Bytes} {byte : UInt8}
    (canReplace : CanReplace after after') (opens : OpensNumeral (byte :: (trail ++ after'))) :
    OpensNumeral (byte :: (trail ++ after)) := by
  rw [opensNumeral_cons_iff] at opens ⊢
  apply opens.imp_right
  rintro ⟨isPoint, digit, isHead, isDigit⟩
  cases trail with
  | cons next trail => exact ⟨isPoint, digit, isHead, isDigit⟩
  | nil =>
      refine ⟨isPoint, ?_⟩
      by_contra noDigit
      have notHead : ∀ byte ∈ after.head?, Ascii.isDigit byte = false := by
        intro byte isHead
        rw [Bool.eq_false_iff]
        exact fun isDigit => noDigit ⟨byte, isHead, isDigit⟩
      rw [canReplace.head notHead isDigit_eq_false_of_isStop digit isHead] at isDigit
      contradiction

/-! ## The rules -/

/-- A rule that spells a lexeme still does after the text behind it is replaced. -/
theorem Spelling.replace {isFirst : Bool} {reading : Reading} {taken after after' : Bytes}
    (spelling : Spelling isFirst reading taken after) (canReplace : CanReplace after after') :
    Spelling isFirst reading taken after' := by
  cases spelling with
  | nothing => rw [canReplace.eq_nil]; exact .nothing
  | symbol isSymbol => exact .symbol isSymbol
  | operator isOperator => exact .operator isOperator
  | comparison isComparison alone =>
      exact .comparison isComparison (canReplace.head alone not_mem_operators_of_isStop)
  | closedString inside => exact .closedString inside
  | openString unclosed => rw [canReplace.eq_nil]; exact .openString unclosed
  | numeral opens longest =>
      exact .numeral ((opensNumeral_of_mem_numeral longest.mem).append after')
        (canReplace.numeral longest)
  | keyword longest isKeyword spells =>
      exact .keyword (canReplace.kstar isLetter_eq_false_of_isStop longest) isKeyword spells
  | identifier longest noDigit =>
      exact .identifier (canReplace.kstar isLetter_eq_false_of_isStop longest)
        (canReplace.head noDigit isDigit_eq_false_of_isStop)
  | numberedIdentifier isLetter isDigit => exact .numberedIdentifier isLetter isDigit
  | unrecognized longest isLong unknown =>
      exact .unrecognized (canReplace.kstar isLetter_eq_false_of_isStop longest) isLong unknown
  | unexpected noSymbol noComparison noQuote noNumeral noLetter longest =>
      apply Spelling.unexpected noSymbol noComparison noQuote
        (mt canReplace.opensNumeral noNumeral) noLetter
      split at longest
      · rename_i lead
        rw [if_pos lead]
        exact canReplace.kstar isContinuation_eq_false_of_isStop longest
      · rename_i noLead
        rwa [if_neg noLead]

end MinBasic.Lexical
