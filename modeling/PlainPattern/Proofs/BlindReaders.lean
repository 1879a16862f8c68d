import PlainPattern.Proofs.Layout
import PlainPattern.Source.Element
import PlainPattern.Source.RepeatBounds

/-!
Contract: the readers of elements and of repeat bounds do not see how a text is laid out.

Owns: `Blind`, which says that a reader finds the same in another layout of a text, and the proof
that each reader is: what it takes stands within one line, and where it looks ahead, it looks for a
character that no layout adds.
-/

set_option autoImplicit false

namespace PlainPattern

open Text Lexeme

/-- What the reader finds in a text, it finds in every other layout of the text. -/
def Blind {Value : Type} (more : List Char) (reader : Reader Value) : Prop :=
  ∀ ⦃rest laid after : List Char⦄ ⦃value : Value⦄, Relaid more rest laid →
    reader rest = .ok (value, after) →
      ∃ laidAfter, reader laid = .ok (value, laidAfter) ∧ Relaid more after laidAfter

variable {more : List Char}

namespace Blind

variable {Value : Type}

theorem answer (value : Value) : Blind more fun rest => .ok (value, rest) := by
  intro rest laid after found relaid read
  cases read
  exact ⟨laid, rfl, relaid⟩

/-- A reader that finds nothing need not find it again. -/
theorem complain (complaint : Complaint) (place : List Char → List Char) :
    Blind more fun rest => (fault complaint (place rest) : Except Fault (Value × List Char)) := by
  intro rest laid after found relaid read
  cases read

/-- A choice that does not look at the text. -/
theorem choice {condition : Prop} [Decidable condition] {first second : Reader Value}
    (firstBlind : Blind more first) (secondBlind : Blind more second) :
    Blind more fun rest => if condition then first rest else second rest := by
  intro rest laid after found relaid read
  by_cases holds : condition
  · simp only [if_pos holds] at read ⊢
    exact firstBlind relaid read
  · simp only [if_neg holds] at read ⊢
    exact secondBlind relaid read

end Blind

namespace Lexeme

theorem expect_blind {expected : Char} {rest laid after : List Char} (inLine : expected ≠ '\n')
    (relaid : Relaid more rest laid) (read : expect expected rest = .ok after) :
    ∃ laidAfter, expect expected laid = .ok laidAfter ∧ Relaid more after laidAfter := by
  unfold expect at read
  split at read
  · cases read
  · rename_i found tail
    split at read
    · rename_i same
      cases read
      subst same
      obtain ⟨laidTail, rfl, behind⟩ := relaid.of_cons inLine
      exact ⟨laidTail, by simp [expect], behind⟩
    · cases read

theorem count_blind (ends : EndsLine more) : Blind more count := by
  intro rest laid after value relaid read
  obtain ⟨sameDigits, behind⟩ := relaid.takeWhile inside_isDigit ends
  unfold count at read ⊢
  simp only [sameDigits] at read ⊢
  split at read
  · cases read
  · rename_i digits
    split at read
    · cases read
    · rename_i small
      cases read
      exact ⟨_, by rw [if_neg digits, if_neg small], behind⟩

end Lexeme

namespace RepeatBounds

theorem upperBound_blind (ends : EndsLine more) (min : Nat) : Blind more (upperBound min) := by
  intro rest laid after value relaid read
  unfold upperBound at read ⊢
  split at read
  · rename_i forever
    cases read
    obtain ⟨laidAfter, found, behind⟩ := relaid.afterKeyword?_some ends forever
    exact ⟨laidAfter, by rw [found], behind⟩
  · rename_i noForever
    rw [relaid.afterKeyword?_none ends noForever]
    split at read
    · cases read
    · rename_i counted
      obtain ⟨laidAfter, laidCounted, behind⟩ := count_blind ends relaid counted
      simp only [laidCounted]
      split at read
      · cases read
      · rename_i upward
        cases read
        exact ⟨laidAfter, by rw [if_neg upward], behind⟩

theorem behindMinimum_blind (ends : EndsLine more) (min : Nat) :
    Blind more (behindMinimum min) := by
  intro rest laid after value relaid read
  have skipped := relaid.skipInlineBlanks ends
  unfold behindMinimum at read ⊢
  split at read
  · rename_i announced
    obtain ⟨laidAfter, found, behind⟩ := skipped.afterKeyword?_some ends announced
    rw [found]
    exact upperBound_blind ends min (behind.skipInlineBlanks ends) read
  · rename_i notAnnounced
    cases read
    rw [skipped.afterKeyword?_none ends notAnnounced]
    exact ⟨_, rfl, skipped⟩

theorem bounds_blind (ends : EndsLine more) : Blind more bounds := by
  intro rest laid after value relaid read
  have skipped := relaid.skipInlineBlanks ends
  unfold bounds at read ⊢
  split at read
  · rename_i forever
    cases read
    obtain ⟨laidAfter, found, behind⟩ := skipped.afterKeyword?_some ends forever
    exact ⟨laidAfter, by rw [found], behind⟩
  · rename_i noForever
    rw [skipped.afterKeyword?_none ends noForever]
    split at read
    · cases read
    · rename_i min afterMin counted
      obtain ⟨laidAfter, laidCounted, behind⟩ := count_blind ends skipped counted
      simp only [laidCounted]
      split at read
      · cases read
      · rename_i positive
        rw [if_neg positive]
        exact behindMinimum_blind ends min behind read

end RepeatBounds

namespace Element

theorem hexDigits_blind (digits value : Nat) : Blind more (hexDigits value digits) := by
  induction digits generalizing value with
  | zero =>
      intro rest laid after result relaid read
      cases read
      exact ⟨laid, rfl, relaid⟩
  | succ digits inductionHypothesis =>
      intro rest laid after result relaid read
      unfold hexDigits at read
      split at read
      · cases read
      · rename_i character tail
        split at read
        · rename_i digit isDigit
          have inLine : character ≠ '\n' := by
            rintro rfl
            cases isDigit
          obtain ⟨laidTail, rfl, behind⟩ := relaid.of_cons inLine
          obtain ⟨laidAfter, laidRead, further⟩ := inductionHypothesis _ behind read
          refine ⟨laidAfter, ?_, further⟩
          rw [hexDigits]
          simp only [isDigit, laidRead]
        · cases read

theorem codePoint_blind : Blind more codePoint := by
  intro rest laid after character relaid read
  unfold codePoint at read ⊢
  split at read
  · cases read
  · rename_i value afterDigits digitsRead
    obtain ⟨laidAfter, laidRead, behind⟩ := hexDigits_blind 4 0 relaid digitsRead
    simp only [laidRead]
    split at read
    · rename_i valid
      cases read
      exact ⟨laidAfter, by rw [if_pos valid], behind⟩
    · cases read

/-- A backslash never stands in front of the end of a line. -/
theorem escape_blind : Blind more escape := by
  intro rest laid after meant relaid read
  cases rest with
  | nil => cases read
  | cons character tail =>
      have inLine : character ≠ '\n' := by
        rintro rfl
        cases read
      obtain ⟨laidTail, rfl, behind⟩ := relaid.of_cons inLine
      have blind : Blind more fun tail => escape (character :: tail) :=
        .choice (.answer _) (.choice (.answer _) (.choice (.answer _) (.choice codePoint_blind
          (.choice (.answer _) (.complain _ _)))))
      exact blind behind read

theorem variableName_blind (ends : EndsLine more) : Blind more variableName := by
  intro rest laid after criterion relaid read
  have behindName := relaid.afterWord ends
  unfold variableName at read ⊢
  simp only [relaid.word_eq ends] at read ⊢
  split at read
  · cases read
  · rename_i named
    rw [if_neg named]
    split at read
    · rename_i closed
      cases read
      obtain ⟨laidAfter, laidClosed, behind⟩ := expect_blind (by decide) behindName closed
      exact ⟨laidAfter, by rw [laidClosed], behind⟩
    · cases read

/-- A literal ends on the line on which it begins. -/
theorem literalBody_blind (ends : EndsLine more) (text : List Char) :
    Blind more (literalBody text) := by
  intro rest laid after criterion relaid read
  fun_induction literalBody text rest generalizing laid with
  | case4 text tail nonempty notNewline =>
      cases read
      obtain ⟨laidTail, rfl, behind⟩ := relaid.of_cons notNewline
      refine ⟨laidTail, ?_, behind⟩
      rw [literalBody, if_neg notNewline, if_pos rfl, if_neg nonempty]
  | case5 text tail empty notNewline notClosing =>
      obtain ⟨laidTail, rfl, behind⟩ := relaid.of_cons notNewline
      rw [literalBody, if_neg notNewline, if_neg notClosing, if_pos rfl, if_pos empty]
      exact variableName_blind ends behind read
  | case7 text tail meant behindEscape escaped notNewline notClosing notDollar
      inductionHypothesis =>
      obtain ⟨laidTail, rfl, behind⟩ := relaid.of_cons notNewline
      obtain ⟨laidBehind, laidEscaped, further⟩ := escape_blind behind escaped
      obtain ⟨laidAfter, laidRead, last⟩ := inductionHypothesis further read
      refine ⟨laidAfter, ?_, last⟩
      rw [literalBody, if_neg notNewline, if_neg notClosing, if_neg notDollar, if_pos rfl]
      split
      · rename_i meantAgain laidAgain escapedAgain
        rw [laidEscaped] at escapedAgain
        cases escapedAgain
        exact laidRead
      · rename_i failed
        rw [laidEscaped] at failed
        cases failed
  | case9 text character tail notNewline notClosing notDollar notBackslash plain
      inductionHypothesis =>
      obtain ⟨laidTail, rfl, behind⟩ := relaid.of_cons notNewline
      obtain ⟨laidAfter, laidRead, last⟩ := inductionHypothesis behind read
      refine ⟨laidAfter, ?_, last⟩
      rw [literalBody, if_neg notNewline, if_neg notClosing, if_neg notDollar,
        if_neg notBackslash, if_pos plain, laidRead]
  | _ => cases read

theorem elementCharacter_blind (character : Char) : Blind more (elementCharacter character) :=
  .choice escape_blind (.answer _)

theorem rangeEnd_blind (ends : EndsLine more) : Blind more rangeEnd := by
  intro rest laid after last relaid read
  have skipped := relaid.skipInlineBlanks ends
  unfold rangeEnd at read ⊢
  split at read
  · cases read
  · rename_i character tail atCharacter
    split at read
    · rename_i isElement
      have inLine : character ≠ '\n' := by
        rintro rfl
        exact absurd isElement.2 (by decide)
      rw [atCharacter] at skipped
      obtain ⟨laidTail, laidAt, behind⟩ := skipped.of_cons inLine
      rw [laidAt]
      simp only [if_pos isElement]
      exact elementCharacter_blind character behind read
    · cases read

theorem characterOrRange_blind (ends : EndsLine more) (character : Char) :
    Blind more (characterOrRange character) := by
  intro rest laid after criterion relaid read
  unfold characterOrRange at read ⊢
  split at read
  · cases read
  · rename_i first afterFirst firstRead
    obtain ⟨laidFirst, laidRead, behind⟩ := elementCharacter_blind character relaid firstRead
    have skipped := behind.skipInlineBlanks ends
    simp only [laidRead]
    split at read
    · rename_i notAnnounced
      cases read
      rw [skipped.afterKeyword?_none ends notAnnounced]
      exact ⟨_, rfl, skipped⟩
    · rename_i announced found
      obtain ⟨laidAnnounced, laidFound, further⟩ := skipped.afterKeyword?_some ends found
      rw [laidFound]
      simp only
      split at read
      · rename_i last afterLast lastRead
        cases read
        obtain ⟨laidAfter, laidLast, atLast⟩ := rangeEnd_blind ends further lastRead
        exact ⟨laidAfter, by rw [laidLast], atLast⟩
      · cases read

/-- Whether a name begins is decided by two characters that stand on one line. -/
theorem element_blind (ends : EndsLine more) : Blind more element := by
  intro rest laid after criterion relaid read
  cases rest with
  | nil => cases read
  | cons character tail =>
      have inLine : character ≠ '\n' := by
        rintro rfl
        cases read
      have names := relaid.word_eq ends
      have behindName := relaid.afterWord ends
      obtain ⟨laidTail, rfl, behind⟩ := relaid.of_cons inLine
      have wordFollows := behind.head?_any inside_isWordCharacter ends
      unfold element at read ⊢
      simp only [wordFollows, names] at read ⊢
      by_cases ended : character = '\n' ∨ character = '#'
      · rw [if_pos ended] at read
        cases read
      · by_cases comma : character = ','
        · rw [if_neg ended, if_pos comma] at read
          cases read
        · by_cases opens : character = '('
          · rw [if_neg ended, if_neg comma, if_pos opens] at read ⊢
            exact literalBody_blind ends [] behind read
          · by_cases meet : isWordCharacter character ∧ tail.head?.any isWordCharacter
            · rw [if_neg ended, if_neg comma, if_neg opens, if_pos meet] at read ⊢
              cases read
              exact ⟨_, rfl, behindName⟩
            · rw [if_neg ended, if_neg comma, if_neg opens, if_neg meet] at read ⊢
              have blind : Blind more fun tail =>
                  if isElementCharacter character then characterOrRange character tail
                  else fault .unescapedElement (character :: tail) :=
                .choice (characterOrRange_blind ends character) (.complain _ _)
              exact blind behind read

end Element

end PlainPattern
