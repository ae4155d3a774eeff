import MinBasic.Proofs.Lexical.LineByLine

/-!
# Lines that end in other blanks

The newline of a line belongs to no lexeme but a string that is not closed.  So
with any other blanks in its place, or with none, the line is read as before, only
that a string that is not closed and a remark take the blanks that they reach.
-/

namespace MinBasic.Lexical

open Computability Text Text.Ascii

/-- A lexeme of a line, and the same lexeme of the line with the blanks `ending` in
place of its newline. -/
inductive Reended (ending : Bytes) : Lexeme → Lexeme → Prop where
  | same {lexeme : Lexeme} (closed : lexeme.reading ≠ .fault .unterminatedString) :
      Reended ending lexeme lexeme
  | remark {start : Nat} {text : Bytes} :
      Reended ending ⟨.terminal .remarkString, start, text⟩
        ⟨.terminal .remarkString, start, text ++ ending.takeWhile (· ≠ newline)⟩
  | openString {start : Nat} {text : Bytes} :
      Reended ending ⟨.fault .unterminatedString, start, text ++ [newline]⟩
        ⟨.fault .unterminatedString, start, text ++ ending⟩

/-- The last byte of a text can be replaced by blanks. -/
theorem CanReplace.ending {after ending : Bytes} (more : after ≠ [])
    (blank : ∀ byte ∈ ending, isBlank byte = true) :
    CanReplace after (after.dropLast ++ ending) := by
  apply CanReplace.intro (List.dropLast_prefix _) (Or.inr _) fun nothing => absurd nothing more
  intro byte isHead
  exact isStop_of_isBlank (blank byte (List.mem_of_mem_head? isHead))

/-- A string that is not closed by the end of its line is not closed by blanks
there. -/
theorem Spelling.reend {isFirst : Bool} {taken : Bytes}
    (spelling : Spelling isFirst (.fault .unterminatedString) taken [])
    (ended : isEnded taken = true) (oneLine : newline ∉ taken.dropLast) :
    ∃ text, taken.dropLast = quote :: text ∧ ∀ {ending : Bytes},
      (∀ byte ∈ ending, isBlank byte = true) →
        Spelling isFirst (.fault .unterminatedString) (quote :: (text ++ ending)) [] := by
  obtain ⟨covered, rfl⟩ := List.getLast?_eq_some_iff.mp (isEnded_iff.mp ended)
  rw [List.dropLast_concat] at oneLine ⊢
  generalize taken_eq : covered ++ [newline] = taken at spelling
  cases spelling with
  | openString unclosed =>
      cases covered with
      | nil => exact absurd (List.cons.inj taken_eq).1 (by decide)
      | cons first text =>
          obtain ⟨rfl, rfl⟩ := List.cons.inj taken_eq
          have noQuote : quote ∉ text := by
            intro member
            obtain ⟨body, after, rfl⟩ := List.append_of_mem member
            have broken := unclosed body (after ++ [newline]) (List.append_assoc ..)
            exact oneLine (List.mem_cons_of_mem _ (List.mem_append_left _ broken))
          refine ⟨text, rfl, fun blank => .openString ?_⟩
          intro body after split
          have member : quote ∈ text ++ _ := split ▸ List.mem_append_right body List.mem_cons_self
          rcases List.mem_append.mp member with member | member
          · exact absurd member noQuote
          · exact absurd (blank quote member) (by decide)

theorem isBlank_of_mem_newline : ∀ byte ∈ [newline], isBlank byte = true :=
  List.forall_mem_singleton.mpr isBlank_newline

theorem dropLast_append_newline {text : Bytes} (ended : isEnded text = true) :
    text.dropLast ++ [newline] = text := by
  obtain ⟨body, rfl⟩ := List.getLast?_eq_some_iff.mp (isEnded_iff.mp ended)
  rw [List.dropLast_concat]

namespace Place

variable {place : Place} {ending : Bytes}

/-- The same place of a line that ends in other blanks. -/
def reend (place : Place) (ending : Bytes) : Place :=
  place.withRest (place.rest.dropLast ++ ending)

theorem reend_newline (ended : isEnded place.rest = true) : place.reend [newline] = place := by
  rw [reend, dropLast_append_newline ended]
  rfl

/-- A remark takes the blanks that stand in place of its newline, but no other
newline. -/
theorem lexemes_reend_of_remark (oneLine : place.IsOneLine) (isRemark : place.mode = .remark)
    (blank : ∀ byte ∈ ending, isBlank byte = true) :
    (place.reend ending).lexemes = [⟨.terminal .remarkString, place.offset,
      place.rest.dropLast ++ ending.takeWhile (· ≠ newline)⟩] := by
  have isRemark' : (place.reend ending).mode = .remark := isRemark
  have left : (place.reend ending).rest =
      (place.rest.dropLast ++ ending.takeWhile (· ≠ newline)) ++
        ending.dropWhile (· ≠ newline) := by
    rw [List.append_assoc, List.takeWhile_append_dropWhile]
    rfl
  have longest : IsLongestPrefix (ofClass (· ≠ newline))∗
      ((place.rest.dropLast ++ ending.takeWhile (· ≠ newline)) ++
        ending.dropWhile (· ≠ newline))
      (place.rest.dropLast ++ ending.takeWhile (· ≠ newline)) := by
    obtain ⟨accepted, stops⟩ := IsLongestPrefix.kstar_iff.mp
      (IsLongestPrefix.takeWhile_append_dropWhile (fun byte => decide (byte ≠ newline)) ending)
    refine IsLongestPrefix.kstar_iff.mpr ⟨?_, stops⟩
    intro byte member
    rcases List.mem_append.mp member with member | member
    · apply decide_eq_true
      rintro rfl
      exact oneLine member
    · exact accepted byte member
  exact lexemes_of_body isRemark' left longest
    fun byte member => blank byte ((List.dropWhile_sublist _).subset member)

/-- A string that is not closed takes the blanks that stand in place of its
newline. -/
theorem lexemes_reend_of_unclosed (ended : isEnded place.rest = true) (oneLine : place.IsOneLine)
    (isFault : place.lexeme.reading = .fault .unterminatedString) :
    ∃ start text, ∀ {ending : Bytes}, (∀ byte ∈ ending, isBlank byte = true) →
      (place.reend ending).lexemes = [⟨.fault .unterminatedString, start, text ++ ending⟩] := by
  have noRemark := noRemark_of_fault isFault
  have more := more_of_fault isFault
  have spelled := spelling_lexeme noRemark
  have nothing := spelled.eq_nil_of_last (Or.inr isFault)
  rw [isFault, nothing] at spelled
  have ended' : isEnded place.lexeme.text = true :=
    isEnded_iff.mpr (getLast?_text_of_next_eq_nil ended more nothing)
  have dropLast_eq : place.rest.dropLast =
      place.rest.take place.blanks ++ place.lexeme.text.dropLast := by
    conv_lhs => rw [place.rest_eq, nothing, List.append_nil]
    exact List.dropLast_append_of_ne_nil (List.ne_nil_of_mem (newline_mem_of_isEnded ended'))
  have oneLine' : newline ∉ place.lexeme.text.dropLast := by
    rw [IsOneLine, dropLast_eq] at oneLine
    exact fun member => oneLine (List.mem_append_right _ member)
  obtain ⟨text, text_eq, spelled'⟩ := spelled.reend ended' oneLine'
  refine ⟨place.lexeme.start, quote :: text, fun {ending} blank => ?_⟩
  have reend_eq : place.reend ending = place.withRest
      (place.rest.take place.blanks ++ ((quote :: (text ++ ending)) ++ [])) := by
    rw [reend, List.append_nil, ← List.cons_append, ← List.append_assoc, ← text_eq, ← dropLast_eq]
  obtain ⟨isLexeme, -⟩ := lexeme_withRest_of_spelling noRemark
    (isLongestPrefix_of_not_isBlank (fun _ => isBlank_of_mem_take_blanks) rfl) (spelled' blank)
  rw [← reend_eq] at isLexeme
  have isFault' : (place.reend ending).lexeme.reading = .fault .unterminatedString := by
    rw [isLexeme]
  rw [lexemes_of_more (more_of_fault isFault'), lexemes_next_of_unclosed isFault', isLexeme]
  rfl

/-- Any other lexeme stays, and the line is read on behind it. -/
theorem lexeme_reend (ended : isEnded place.rest = true)
    (blank : ∀ byte ∈ ending, isBlank byte = true) (more : place.lexeme.reading ≠ .endOfText)
    (noRemark : place.mode ≠ .remark)
    (closed : place.lexeme.reading ≠ .fault .unterminatedString) :
    (place.reend ending).lexeme = place.lexeme ∧
      (place.reend ending).next = place.next.reend ending := by
  have later : place.next.rest ≠ [] := by
    intro nothing
    have ended := isEnded_next ended more closed
    rw [nothing] at ended
    contradiction
  have dropLast_eq : place.rest.dropLast =
      place.rest.take place.blanks ++ (place.lexeme.text ++ place.next.rest.dropLast) := by
    conv_lhs => rw [place.rest_eq]
    rw [List.dropLast_append_of_ne_nil (List.append_ne_nil_of_right_ne_nil _ later),
      List.dropLast_append_of_ne_nil later]
  rw [reend, dropLast_eq, List.append_assoc, List.append_assoc]
  exact lexeme_withRest noRemark more (.ending later blank)

/-- With other blanks in place of its newline a line is read as before. -/
theorem forall₂_reended (ended : isEnded place.rest = true) (oneLine : place.IsOneLine)
    (blank : ∀ byte ∈ ending, isBlank byte = true) :
    List.Forall₂ (Reended ending) place.lexemes (place.reend ending).lexemes := by
  induction place using lexemes.induct with
  | case1 place isEnd =>
      obtain ⟨noRemark, blanks⟩ := isBlank_of_endOfText isEnd
      have noRemark' : (place.reend ending).mode ≠ .remark := noRemark
      have nothing : (place.reend ending).lexemes = [] := by
        apply lexemes_of_blank noRemark'
        intro byte member
        rcases List.mem_append.mp member with member | member
        · exact blanks byte (List.dropLast_subset _ member)
        · exact blank byte member
      rw [lexemes_of_endOfText isEnd, nothing]
      exact .nil
  | case2 place more ih =>
      by_cases isRemark : place.mode = .remark
      · have original := lexemes_reend_of_remark oneLine isRemark isBlank_of_mem_newline
        rw [reend_newline ended, List.takeWhile_cons_of_neg (by simp), List.append_nil] at original
        rw [original, lexemes_reend_of_remark oneLine isRemark blank]
        exact .cons .remark .nil
      by_cases isFault : place.lexeme.reading = .fault .unterminatedString
      · obtain ⟨start, text, lexemes_eq⟩ := lexemes_reend_of_unclosed ended oneLine isFault
        have original := lexemes_eq isBlank_of_mem_newline
        rw [reend_newline ended] at original
        rw [original, lexemes_eq blank]
        exact .cons .openString .nil
      · obtain ⟨isSame, next_eq⟩ := lexeme_reend ended blank more isRemark isFault
        have lexemes_eq : (place.reend ending).lexemes =
            place.lexeme :: (place.next.reend ending).lexemes := by
          rw [lexemes_eq_cons_iff, isSame, next_eq]
          exact ⟨more, rfl, rfl⟩
        rw [lexemes_of_more more, lexemes_eq]
        exact .cons (.same isFault) (ih (isEnded_next ended more isFault) oneLine.next)

end Place

/-- A line with other blanks in place of its newline, or without them, is read like
the line. -/
theorem forall₂_reended_lexemes {body ending : Bytes} (noNewline : newline ∉ body)
    (blank : ∀ byte ∈ ending, isBlank byte = true) :
    List.Forall₂ (Reended ending) (lexemes (body ++ [newline])) (lexemes (body ++ ending)) := by
  have ended : isEnded (Place.opening (body ++ [newline])).rest = true :=
    isEnded_iff.mpr List.getLast?_concat
  have dropLast_eq : (body ++ [newline]).dropLast = body := List.dropLast_concat
  have oneLine : (Place.opening (body ++ [newline])).IsOneLine := by
    rwa [← dropLast_eq] at noNewline
  have reended := Place.forall₂_reended ended oneLine blank
  have reend_eq : (Place.opening (body ++ [newline])).reend ending =
      Place.opening (body ++ ending) :=
    congrArg (fun text => Place.opening (text ++ ending)) dropLast_eq
  rwa [reend_eq] at reended

end MinBasic.Lexical
