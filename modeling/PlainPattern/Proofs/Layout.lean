import PlainPattern.Source.Lexeme

/-!
Contract: a text that is laid out differently looks the same to the readers of words and blanks.

Owns: trails, which may stand at the end of a line, gaps, which may stand in front of one, and
`Relaid`, the relation of a text to another that has more of both, and perhaps further lines behind
its last one. What each reader of the smallest pieces does with the one, it does with the other, and
leaves texts that are related again.
-/

set_option autoImplicit false

namespace PlainPattern

open Text Lexeme

/-! ## Trails and gaps -/

/-- Blanks, and then perhaps a comment, up to the end of a line. -/
inductive LineTrail : List Char → Prop where
  | nothing : LineTrail []
  | blank {character : Char} {trail : List Char} (isInline : isInlineBlank character)
      (behind : LineTrail trail) : LineTrail (character :: trail)
  | comment {text : List Char} (inLine : '\n' ∉ text) : LineTrail ('#' :: text)

/-- Blanks and comments, each with the end of its line. -/
inductive LineGap : List Char → Prop where
  | nothing : LineGap []
  | blank {character : Char} {gap : List Char} (isBlank : isBlank character)
      (behind : LineGap gap) : LineGap (character :: gap)
  | comment {text gap : List Char} (inLine : '\n' ∉ text) (behind : LineGap gap) :
      LineGap ('#' :: (text ++ '\n' :: gap))

/-- Nothing, or the end of a line with something behind it. -/
def EndsLine (rest : List Char) : Prop :=
  ∀ character ∈ rest.head?, character = '\n'

/-- The second text is the first with a trail in front of every end of a line and at its end, with a
gap behind every end of a line, and with `more` behind it. -/
inductive Relaid (more : List Char) : List Char → List Char → Prop where
  | finish {trail : List Char} (isTrail : LineTrail trail) : Relaid more [] (trail ++ more)
  | newline {trail gap rest laid : List Char} (isTrail : LineTrail trail) (isGap : LineGap gap)
      (behind : Relaid more rest laid) :
      Relaid more ('\n' :: rest) (trail ++ '\n' :: (gap ++ laid))
  | character {character : Char} {rest laid : List Char} (inLine : character ≠ '\n')
      (behind : Relaid more rest laid) : Relaid more (character :: rest) (character :: laid)

/-- A class of characters without blanks and without the mark of a comment. -/
structure Inside (accepts : Char → Bool) : Prop where
  noBlank : ∀ character, isBlank character → accepts character = false
  noComment : accepts '#' = false

theorem inside_isWordCharacter : Inside isWordCharacter where
  noBlank := fun _ => not_isWordCharacter_of_isBlank
  noComment := by decide

theorem inside_isDigit : Inside Char.isDigit where
  noBlank := by
    intro character blank
    have noWord := not_isWordCharacter_of_isBlank blank
    cases digit : character.isDigit with
    | false => rfl
    | true => simp [isWordCharacter, Char.isAlphanum, digit] at noWord
  noComment := by decide

theorem inside_beq {mark : Char} (visible : isBlank mark = false) (other : mark ≠ '#') :
    Inside (fun character => character == mark) where
  noBlank := by
    intro character blank
    rw [beq_eq_false_iff_ne]
    rintro rfl
    rw [visible] at blank
    cases blank
  noComment := beq_eq_false_iff_ne.2 other.symm

theorem isBlank_of_isInlineBlank {character : Char} (isInline : isInlineBlank character) :
    isBlank character :=
  (Bool.and_eq_true_iff.1 isInline).1

theorem ne_newline_of_isInlineBlank {character : Char} (isInline : isInlineBlank character) :
    character ≠ '\n' := by
  rintro rfl
  exact absurd isInline (by decide)

theorem endsLine_newline (rest : List Char) : EndsLine ('\n' :: rest) := by
  rintro _ ⟨⟩
  rfl

theorem EndsLine.cases {rest : List Char} (ends : EndsLine rest) :
    rest = [] ∨ ∃ tail, rest = '\n' :: tail := by
  cases rest with
  | nil => exact Or.inl rfl
  | cons character tail => exact Or.inr ⟨tail, by rw [ends character rfl]⟩

namespace LineTrail

variable {trail ended : List Char}

/-- What a class of characters without blanks accepts does not begin with a trail. -/
theorem head_not_accepted {accepts : Char → Bool} (inside : Inside accepts)
    (isTrail : LineTrail trail) (ends : EndsLine ended) :
    ∀ character ∈ (trail ++ ended).head?, accepts character = false := by
  cases isTrail with
  | nothing =>
      intro character first
      rw [ends character first]
      exact inside.noBlank '\n' (by decide)
  | blank isInline _ =>
      rintro _ ⟨⟩
      exact inside.noBlank _ (isBlank_of_isInlineBlank isInline)
  | comment _ =>
      rintro _ ⟨⟩
      exact inside.noComment

theorem skipInlineBlanks_append (isTrail : LineTrail trail) (ends : EndsLine ended) :
    ∃ left, LineTrail left ∧ skipInlineBlanks (trail ++ ended) = left ++ ended := by
  induction isTrail with
  | nothing =>
      refine ⟨[], .nothing, ?_⟩
      rcases ends.cases with rfl | ⟨tail, rfl⟩ <;> rfl
  | blank isInline _ inductionHypothesis =>
      obtain ⟨left, isLeft, skipped⟩ := inductionHypothesis
      refine ⟨left, isLeft, ?_⟩
      rw [List.cons_append, skipInlineBlanks, List.dropWhile_cons_of_pos isInline]
      exact skipped
  | comment inLine => exact ⟨_, .comment inLine, rfl⟩

theorem newline_not_mem (isTrail : LineTrail trail) : '\n' ∉ trail := by
  induction isTrail with
  | nothing => simp
  | blank isInline _ inductionHypothesis =>
      simp [(ne_newline_of_isInlineBlank isInline).symm, inductionHypothesis]
  | comment inLine => simp [inLine]

end LineTrail

/-- The rest of a line is skipped up to its end. -/
theorem skipLine_append {line ended : List Char} (inLine : '\n' ∉ line) (ends : EndsLine ended) :
    skipLine (line ++ ended) = ended := by
  unfold skipLine
  rw [List.dropWhile_append_of_pos]
  · rcases ends.cases with rfl | ⟨tail, rfl⟩ <;> rfl
  · intro character member
    exact bne_iff_ne.2 fun same => inLine (same ▸ member)

/-! ## Readers of the smallest pieces -/

namespace Relaid

variable {more rest laid : List Char}

theorem refl (text : List Char) : Relaid [] text text := by
  induction text with
  | nil => exact .finish .nothing
  | cons character rest inductionHypothesis =>
      by_cases atNewline : character = '\n'
      · subst atNewline
        exact .newline .nothing .nothing inductionHypothesis
      · exact .character atNewline inductionHypothesis

/-- Only the end of a line is laid out. -/
theorem of_cons {character : Char} (inLine : character ≠ '\n')
    (relaid : Relaid more (character :: rest) laid) :
    ∃ tail, laid = character :: tail ∧ Relaid more rest tail := by
  cases relaid with
  | newline => exact absurd rfl inLine
  | character _ behind => exact ⟨_, rfl, behind⟩

theorem head?_any {accepts : Char → Bool} (inside : Inside accepts) (ends : EndsLine more)
    (relaid : Relaid more rest laid) : laid.head?.any accepts = rest.head?.any accepts := by
  have trailing {trail ended : List Char} (isTrail : LineTrail trail) (atEnd : EndsLine ended) :
      (trail ++ ended).head?.any accepts = false :=
    (Option.any_eq_false _ _).2 fun character first =>
      isTrail.head_not_accepted inside atEnd character first
  cases relaid with
  | finish isTrail => exact trailing isTrail ends
  | newline isTrail _ _ =>
      rw [trailing isTrail (endsLine_newline _)]
      exact (inside.noBlank '\n' (by decide)).symm
  | character _ _ => rfl

/-- A row of characters of one class ends at the same place. -/
theorem takeWhile {accepts : Char → Bool} (inside : Inside accepts) (ends : EndsLine more)
    (relaid : Relaid more rest laid) :
    laid.takeWhile accepts = rest.takeWhile accepts ∧
      Relaid more (rest.dropWhile accepts) (laid.dropWhile accepts) := by
  have trailing {trail ended : List Char} (isTrail : LineTrail trail) (atEnd : EndsLine ended) :
      (trail ++ ended).takeWhile accepts = [] ∧
        (trail ++ ended).dropWhile accepts = trail ++ ended := by
    have stops := isTrail.head_not_accepted inside atEnd
    cases text : trail ++ ended with
    | nil => exact ⟨rfl, rfl⟩
    | cons first tail =>
        have notAccepted := stops first (by rw [text]; rfl)
        simp [notAccepted]
  induction relaid with
  | finish isTrail =>
      rw [(trailing isTrail ends).1, (trailing isTrail ends).2]
      exact ⟨rfl, .finish isTrail⟩
  | newline isTrail isGap behind _ =>
      have newlineStops := inside.noBlank '\n' (by decide)
      rw [(trailing isTrail (endsLine_newline _)).1, (trailing isTrail (endsLine_newline _)).2,
        List.takeWhile_cons_of_neg (by simp [newlineStops]),
        List.dropWhile_cons_of_neg (by simp [newlineStops])]
      exact ⟨rfl, .newline isTrail isGap behind⟩
  | @character first rest laid inLine behind inductionHypothesis =>
      cases accepted : accepts first with
      | true => simpa [accepted] using inductionHypothesis
      | false => simpa [accepted] using Relaid.character inLine behind

theorem skipInlineBlanks (ends : EndsLine more) (relaid : Relaid more rest laid) :
    Relaid more (skipInlineBlanks rest) (skipInlineBlanks laid) := by
  induction relaid with
  | finish isTrail =>
      obtain ⟨left, isLeft, skipped⟩ := isTrail.skipInlineBlanks_append ends
      rw [skipped]
      exact .finish isLeft
  | newline isTrail isGap behind _ =>
      obtain ⟨left, isLeft, skipped⟩ := isTrail.skipInlineBlanks_append (endsLine_newline _)
      rw [skipped]
      exact .newline isLeft isGap behind
  | @character first rest laid inLine behind inductionHypothesis =>
      unfold Lexeme.skipInlineBlanks at inductionHypothesis ⊢
      cases isInline : isInlineBlank first with
      | true => simpa [isInline] using inductionHypothesis
      | false => simpa [isInline] using Relaid.character inLine behind

theorem skipLine (ends : EndsLine more) (relaid : Relaid more rest laid) :
    Relaid more (skipLine rest) (skipLine laid) := by
  induction relaid with
  | finish isTrail =>
      rw [skipLine_append isTrail.newline_not_mem ends]
      exact .finish .nothing
  | newline isTrail isGap behind _ =>
      rw [skipLine_append isTrail.newline_not_mem (endsLine_newline _)]
      exact .newline .nothing isGap behind
  | character inLine behind inductionHypothesis =>
      unfold Lexeme.skipLine at inductionHypothesis ⊢
      simpa [inLine] using inductionHypothesis

theorem word_eq (ends : EndsLine more) (relaid : Relaid more rest laid) : word laid = word rest :=
  congrArg String.ofList (relaid.takeWhile inside_isWordCharacter ends).1

theorem afterWord (ends : EndsLine more) (relaid : Relaid more rest laid) :
    Relaid more (afterWord rest) (afterWord laid) :=
  (relaid.takeWhile inside_isWordCharacter ends).2

theorem afterKeyword?_none {keyword : Keyword} (ends : EndsLine more)
    (relaid : Relaid more rest laid) (missing : afterKeyword? keyword rest = none) :
    afterKeyword? keyword laid = none := by
  unfold afterKeyword? at missing ⊢
  rw [relaid.word_eq ends]
  split at missing
  · cases missing
  · rename_i different
    rw [if_neg different]

theorem afterKeyword?_some {keyword : Keyword} {after : List Char} (ends : EndsLine more)
    (relaid : Relaid more rest laid) (found : afterKeyword? keyword rest = some after) :
    ∃ laidAfter, afterKeyword? keyword laid = some laidAfter ∧ Relaid more after laidAfter := by
  unfold afterKeyword? at found ⊢
  rw [relaid.word_eq ends]
  split at found
  · rename_i same
    cases found
    exact ⟨_, if_pos same, relaid.afterWord ends⟩
  · cases found

end Relaid

/-! ## Behind the end of a line -/

/-- Skips blanks, comments and the ends of lines; `inComment` says whether a comment has begun. -/
def skipGap : Bool → List Char → List Char
  | _, [] => []
  | true, character :: rest => if character = '\n' then skipGap false rest else skipGap true rest
  | false, character :: rest =>
      if isBlank character then skipGap false rest
      else if character = '#' then skipGap true rest
      else character :: rest

theorem skipGap_newline (inComment : Bool) (rest : List Char) :
    skipGap inComment ('\n' :: rest) = skipGap false rest := by
  cases inComment <;> rfl

/-- A comment goes on to the end of its line. -/
theorem skipGap_comment_append {line : List Char} (inLine : '\n' ∉ line) (rest : List Char) :
    skipGap true (line ++ rest) = skipGap true rest := by
  induction line with
  | nil => rfl
  | cons character line inductionHypothesis =>
      rw [List.mem_cons, not_or] at inLine
      rw [List.cons_append, skipGap, if_neg (Ne.symm inLine.1), inductionHypothesis inLine.2]

theorem skipGap_of_endsLine {ended : List Char} (ends : EndsLine ended) (inComment : Bool) :
    skipGap inComment ended = skipGap false ended := by
  rcases ends.cases with rfl | ⟨tail, rfl⟩
  · cases inComment <;> rfl
  · rw [skipGap_newline, skipGap_newline]

theorem LineTrail.skipGap_append {trail ended : List Char} (isTrail : LineTrail trail)
    (ends : EndsLine ended) (inComment : Bool) :
    skipGap inComment (trail ++ ended) = skipGap false ended := by
  cases inComment with
  | true => rw [skipGap_comment_append isTrail.newline_not_mem, skipGap_of_endsLine ends]
  | false =>
      induction isTrail with
      | nothing => rfl
      | blank isInline _ inductionHypothesis =>
          rw [List.cons_append, skipGap, if_pos (isBlank_of_isInlineBlank isInline)]
          exact inductionHypothesis
      | comment inLine =>
          rw [List.cons_append, skipGap, if_neg (by decide), if_pos rfl,
            skipGap_comment_append inLine, skipGap_of_endsLine ends]

theorem LineGap.skipGap_append {gap : List Char} (isGap : LineGap gap) (rest : List Char) :
    skipGap false (gap ++ rest) = skipGap false rest := by
  induction isGap with
  | nothing => rfl
  | blank isBlank _ inductionHypothesis =>
      rw [List.cons_append, skipGap, if_pos isBlank, inductionHypothesis]
  | comment inLine _ inductionHypothesis =>
      rw [List.cons_append, skipGap, if_neg (by decide), if_pos rfl, List.append_assoc,
        skipGap_comment_append inLine, List.cons_append, skipGap_newline, inductionHypothesis]

/-- Two texts at the beginning of a line. Either both go on with the same visible character, or the
first has nothing more to say and the second goes on with `more`. -/
inductive Opens (more rest laid : List Char) : Prop where
  | visible {character : Char} {tail laidTail : List Char}
      (isVisible : isBlank character = false) (noComment : character ≠ '#')
      (skipped : skipGap false rest = character :: tail)
      (laidSkipped : skipGap false laid = character :: laidTail)
      (behind : Relaid more tail laidTail) : Opens more rest laid
  | ended (skipped : skipGap false rest = [])
      (laidSkipped : skipGap false laid = skipGap false more) : Opens more rest laid

theorem Opens.congr {more rest other laid otherLaid : List Char} (opens : Opens more rest laid)
    (same : skipGap false other = skipGap false rest)
    (sameLaid : skipGap false otherLaid = skipGap false laid) : Opens more other otherLaid := by
  cases opens with
  | visible isVisible noComment skipped laidSkipped behind =>
      exact .visible isVisible noComment (same.trans skipped) (sameLaid.trans laidSkipped) behind
  | ended skipped laidSkipped => exact .ended (same.trans skipped) (sameLaid.trans laidSkipped)

/-- The induction is on the layout; inside a comment the same holds of what is behind its line. -/
theorem Relaid.opens_skipLine {more rest laid : List Char} (ends : EndsLine more)
    (relaid : Relaid more rest laid) (inComment : Bool) :
    (∃ character tail laidTail, isBlank character = false ∧ character ≠ '#' ∧
      skipGap inComment rest = character :: tail ∧
      skipGap inComment laid = character :: laidTail ∧ Relaid more tail laidTail) ∨
    (skipGap inComment rest = [] ∧ skipGap inComment laid = skipGap false more) := by
  induction relaid generalizing inComment with
  | finish isTrail =>
      refine Or.inr ⟨?_, isTrail.skipGap_append ends inComment⟩
      cases inComment <;> rfl
  | newline isTrail isGap _ inductionHypothesis =>
      rw [skipGap_newline, isTrail.skipGap_append (endsLine_newline _), skipGap_newline,
        isGap.skipGap_append]
      exact inductionHypothesis false
  | @character first rest laid inLine behind inductionHypothesis =>
      cases inComment with
      | true =>
          rw [skipGap, skipGap, if_neg inLine, if_neg inLine]
          exact inductionHypothesis true
      | false =>
          rw [skipGap, skipGap]
          split
          · exact inductionHypothesis false
          · rename_i visible
            split
            · exact inductionHypothesis true
            · rename_i noComment
              exact Or.inl ⟨first, rest, laid, by simpa using visible, noComment, rfl, rfl, behind⟩

theorem Relaid.opens {more rest laid : List Char} (ends : EndsLine more)
    (relaid : Relaid more rest laid) : Opens more rest laid := by
  rcases relaid.opens_skipLine ends false with
    ⟨character, tail, laidTail, visible, noComment, skipped, laidSkipped, behind⟩ |
    ⟨skipped, laidSkipped⟩
  · exact .visible visible noComment skipped laidSkipped behind
  · exact .ended skipped laidSkipped

end PlainPattern
