import Mathlib.Logic.Relation
import MinBasic.Command.Settings
import MinBasic.Proofs.Text.Trimming

/-!
# The words of the variables

The value of a variable is read as one word: what stands between the blanks around it, in lower
case.  Nothing else of a value matters, so values that are read as the same word make the same
settings and notes.  The two variables are read apart: each makes its own setting and at most one
note, which is of a word that the variable does not know, and the notes stand in the order of the
variables.
-/

namespace MinBasic.Command.Settings

open Relation Text

/-! ## Words -/

/-- A value is read as a word: between blanks stands a text that is the word in lower case, and
that has no blank at its ends. -/
def ReadAs (value word : String) : Prop :=
  ∃ inner, IsTrimmed inner ∧ List.Forall₂ LowersTo inner word.toList ∧
    ∃ before after, (∀ c ∈ before, isBlankChar c = true) ∧ (∀ c ∈ after, isBlankChar c = true) ∧
      value.toList = before ++ inner ++ after

/-- A value and the same value with blanks around it, or with letters in the other case. -/
inductive Respelled : String → String → Prop where
  | surrounded {before after : List Char} (value : String)
      (blankBefore : ∀ c ∈ before, isBlankChar c = true)
      (blankAfter : ∀ c ∈ after, isBlankChar c = true) :
      Respelled value (.ofList (before ++ value.toList ++ after))
  | recased {value value' : String}
      (same : List.Forall₂ SameButCase value.toList value'.toList) : Respelled value value'

/-- The words that name a stream. -/
def targetWords : List String :=
  ["stdout", "stderr"]

/-- The words that switch the file clause on. -/
def onWords : List String :=
  ["1", "true", "yes", "on"]

/-- The words that switch the file clause on or off. -/
def switchWords : List String :=
  onWords ++ ["0", "false", "no", "off", ""]

/-- What is noted of the value of a variable that knows some words: a word that it does not
know. -/
inductive Noted (known : List String) (note : String → Event) :
    Option String → List Event → Prop where
  | unset : Noted known note none []
  | known {value word : String} (readAs : ReadAs value word) (isKnown : word ∈ known) :
      Noted known note (some value) []
  | unknown {value word : String} (readAs : ReadAs value word) (isUnknown : word ∉ known) :
      Noted known note (some value) [note word]

variable {value value' word : String}

/-- The word of a value is computed by trimming and lower case. -/
theorem readAs_iff : ReadAs value word ↔ normalize value = word := by
  rw [normalize, ← String.toList_inj, String.toList_ofList, map_toLower_eq_iff]
  constructor
  · rintro ⟨inner, isTrimmed, lowered, around⟩
    rwa [trim_eq_iff.mpr ⟨isTrimmed, around⟩]
  · intro lowered
    exact ⟨trim value.toList, isTrimmed_trim _, lowered, exists_trim _⟩

theorem existsUnique_readAs (value : String) : ∃! word, ReadAs value word := by
  simp only [readAs_iff]
  exact ⟨normalize value, rfl, fun _ isWord => isWord.symm⟩

/-- A value is read as the empty word if it has no other characters than blanks. -/
theorem readAs_empty_iff : ReadAs value "" ↔ ∀ c ∈ value.toList, isBlankChar c = true := by
  constructor
  · rintro ⟨inner, -, lowered, before, after, blankBefore, blankAfter, split⟩
    obtain rfl : inner = [] := List.forall₂_nil_right_iff.mp lowered
    intro c member
    rw [split, List.append_nil] at member
    exact (List.mem_append.mp member).elim (blankBefore c) (blankAfter c)
  · intro blank
    exact ⟨[], ⟨nofun, nofun⟩, .nil, value.toList, [], blank, nofun, by simp⟩

/-- Values that differ in blanks around them and in letter case are read as the same word. -/
theorem normalize_eq_of_respelled (respelled : EqvGen Respelled value value') :
    normalize value = normalize value' := by
  induction respelled with
  | rel value value' respelled =>
      cases respelled with
      | surrounded _ blankBefore blankAfter =>
          rw [normalize, normalize, String.toList_ofList, trim_surrounded blankBefore _ blankAfter]
      | recased same =>
          rw [normalize, normalize, ← trim_map_toLower, map_toLower_eq_map_toLower_iff.mpr same,
            trim_map_toLower]
  | refl value => rfl
  | symm value value' _ ih => exact ih.symm
  | trans first second third _ _ ih ih' => exact ih.trans ih'

/-! ## One variable -/

section ReadValue

variable {α : Type} {known? : String → Option α} {unknown : String → Event} {unset : α}

/-- A variable is read from its word. -/
theorem readValue_congr {value? value?' : Option String}
    (alike : Option.Rel (EqvGen Respelled) value? value?') :
    readValue known? unknown unset value? = readValue known? unknown unset value?' := by
  cases alike with
  | none => rfl
  | some respelled => simp only [readValue, normalize_eq_of_respelled respelled]

/-- A variable is noted if its word is not known. -/
theorem noted_readValue {words : List String}
    (knows : ∀ word, known? word = none ↔ word ∉ words) (value? : Option String) :
    Noted words unknown value? (readValue known? unknown unset value?).2 := by
  cases value? with
  | none => exact .unset
  | some value =>
      have readAs : ReadAs value (normalize value) := readAs_iff.mpr rfl
      rw [readValue]
      cases setting : known? (normalize value) with
      | none => exact .unknown readAs ((knows _).mp setting)
      | some setting' =>
          have isKnown : normalize value ∈ words := by
            by_contra isUnknown
            rw [(knows _).mpr isUnknown] at setting
            cases setting
          exact .known readAs isKnown

/-- A word that is not known leaves the setting as if the variable were unset. -/
theorem readValue_of_unknown (readAs : ReadAs value word) (isUnknown : known? word = none) :
    (readValue known? unknown unset (some value)).1 =
      (readValue known? unknown unset none).1 := by
  obtain rfl := readAs_iff.mp readAs
  simp only [readValue, isUnknown]

/-- A setting that is not that of an unset variable comes from a word that is known for it. -/
theorem readValue_eq_iff {setting : α} (isSet : setting ≠ unset) (value? : Option String) :
    (readValue known? unknown unset value?).1 = setting ↔
      ∃ value ∈ value?, ∃ word, known? word = some setting ∧ ReadAs value word := by
  cases value? with
  | none => simpa [readValue] using isSet.symm
  | some value =>
      simp only [readAs_iff, exists_eq_right', Option.mem_def, Option.some.injEq,
        exists_eq_left', readValue]
      cases known? (normalize value) with
      | none => simpa using isSet.symm
      | some setting' => simp

end ReadValue

theorem target?_eq_none_iff (word : String) : target? word = none ↔ word ∉ targetWords := by
  rw [target?]
  split
  · simp_all [targetWords]
  · split <;> simp_all [targetWords]

theorem target?_eq_stderr_iff (word : String) :
    target? word = some .stderr ↔ word = "stderr" := by
  rw [target?]
  split
  · simp_all
  · split <;> simp_all

theorem switch?_eq_none_iff (word : String) : switch? word = none ↔ word ∉ switchWords := by
  have split_eq : word ∈ switchWords ↔
      word ∈ ["1", "true", "yes", "on"] ∨ word ∈ ["0", "false", "no", "off", ""] :=
    List.mem_append
  rw [split_eq, switch?]
  split
  · simp_all
  · split <;> simp_all

theorem switch?_eq_true_iff (word : String) : switch? word = some true ↔ word ∈ onWords := by
  rw [switch?]
  split
  · simp_all [onWords]
  · split <;> simp_all [onWords]

theorem readTarget_eq_stderr_iff (value? : Option String) :
    (readTarget value?).1 = .stderr ↔ ∃ value ∈ value?, ReadAs value "stderr" := by
  rw [readTarget, readValue_eq_iff (by decide)]
  simp only [target?_eq_stderr_iff, exists_eq_left]

theorem readFileClause_eq_true_iff (value? : Option String) :
    (readFileClause value?).1 = true ↔ ∃ value ∈ value?, ∃ word ∈ onWords, ReadAs value word := by
  rw [readFileClause, readValue_eq_iff (by decide)]
  simp only [switch?_eq_true_iff]

/-! ## Both variables -/

/-- With one variable unset the notes are those of the other one. -/
theorem notes_alone (target? fileClause? : Option String) :
    (ofValues target? none).2 = (readTarget target?).2 ∧
      (ofValues none fileClause?).2 = (readFileClause fileClause?).2 :=
  ⟨List.append_nil _, rfl⟩

theorem level_of_mem_noted {known : List String} {note : String → Event} {value? : Option String}
    {notes : List Event} (noted : Noted known note value? notes)
    (isWarning : ∀ word, (note word).level = .warn) : ∀ event ∈ notes, event.level = .warn := by
  cases noted with
  | unset => exact nofun
  | known _ _ => exact nofun
  | unknown _ _ => simpa using isWarning _

/-- The settings are read from the words of the two variables, each from its own.  Blanks around a
value and the case of its letters change nothing.  The stream and its note are those of the first
variable alone, the switch and its note those of the second, and the notes stand in this order.
Diagnostics go to standard error, and the file clause is on, exactly for the words that ask for
it; a word that is not known is noted once and makes the settings of an unset variable.  A blank
value is read as the empty word, which switches the clause off and names no stream. -/
theorem ofValues_by_words (target? fileClause? : Option String) :
    let settings := (ofValues target? fileClause?).1
    let targetNotes := (ofValues target? none).2
    let switchNotes := (ofValues none fileClause?).2
    (∀ value, ∃! word, ReadAs value word) ∧
    (∀ target?' fileClause?', Option.Rel (EqvGen Respelled) target? target?' →
      Option.Rel (EqvGen Respelled) fileClause? fileClause?' →
        ofValues target?' fileClause?' = ofValues target? fileClause?) ∧
    ofValues target? fileClause? =
      (⟨(ofValues target? none).1.target, (ofValues none fileClause?).1.fileClause⟩,
        targetNotes ++ switchNotes) ∧
    (settings.target = .stderr ↔ ∃ value ∈ target?, ReadAs value "stderr") ∧
    (settings.fileClause = true ↔ ∃ value ∈ fileClause?, ∃ word ∈ onWords, ReadAs value word) ∧
    (Noted targetWords (.unknownTarget "SUBMINBAS_DIAGNOSTICS") target? targetNotes ∧
      ∀ value ∈ target?, ∀ word, ReadAs value word → word ∉ targetWords →
        settings = (ofValues none fileClause?).1) ∧
    (Noted switchWords (.unknownSwitch "SUBMINBAS_FILE_CLAUSE") fileClause? switchNotes ∧
      ∀ value ∈ fileClause?, ∀ word, ReadAs value word → word ∉ switchWords →
        settings = (ofValues target? none).1) ∧
    (∀ note ∈ targetNotes ++ switchNotes, note.level = .warn) ∧
    (∀ value, ReadAs value "" ↔ ∀ c ∈ value.toList, isBlankChar c = true) ∧
    "" ∈ switchWords ∧ "" ∉ targetWords := by
  intro settings targetNotes switchNotes
  obtain ⟨targetNotes_eq, switchNotes_eq⟩ := notes_alone target? fileClause?
  have targetNoted : Noted targetWords (.unknownTarget "SUBMINBAS_DIAGNOSTICS") target?
      targetNotes := by
    unfold targetNotes
    rw [targetNotes_eq]
    exact noted_readValue target?_eq_none_iff target?
  have switchNoted : Noted switchWords (.unknownSwitch "SUBMINBAS_FILE_CLAUSE") fileClause?
      switchNotes := by
    unfold switchNotes
    rw [switchNotes_eq]
    exact noted_readValue switch?_eq_none_iff fileClause?
  refine ⟨existsUnique_readAs, ?_, ?_, ?_, ?_, ⟨targetNoted, ?_⟩, ⟨switchNoted, ?_⟩, ?_, ?_, ?_⟩
  · intro target?' fileClause?' alike alike'
    have sameTarget : readTarget target? = readTarget target?' := readValue_congr alike
    have sameSwitch : readFileClause fileClause? = readFileClause fileClause?' :=
      readValue_congr alike'
    rw [ofValues, ofValues, sameTarget, sameSwitch]
  · unfold targetNotes switchNotes
    rw [targetNotes_eq, switchNotes_eq]
    rfl
  · exact readTarget_eq_stderr_iff target?
  · exact readFileClause_eq_true_iff fileClause?
  · rintro value rfl word readAs isUnknown
    have asUnset : (readTarget (some value)).1 = (readTarget none).1 :=
      readValue_of_unknown readAs ((target?_eq_none_iff word).mpr isUnknown)
    exact congrArg (Settings.mk · _) asUnset
  · rintro value rfl word readAs isUnknown
    have asUnset : (readFileClause (some value)).1 = (readFileClause none).1 :=
      readValue_of_unknown readAs ((switch?_eq_none_iff word).mpr isUnknown)
    exact congrArg (Settings.mk _) asUnset
  · intro note member
    rcases List.mem_append.mp member with isTarget | isSwitch
    · exact level_of_mem_noted targetNoted (fun _ => rfl) note isTarget
    · exact level_of_mem_noted switchNoted (fun _ => rfl) note isSwitch
  · intro value
    exact readAs_empty_iff
  · decide

/-- The second value is not known, and the blanks inside it are kept. -/
example :
    ofValues (some "\u00A0StdErr\t") (some " Yes  No ") =
      (⟨.stderr, false⟩, [.unknownSwitch "SUBMINBAS_FILE_CLAUSE" "yes  no"]) := by
  decide +kernel

end MinBasic.Command.Settings
