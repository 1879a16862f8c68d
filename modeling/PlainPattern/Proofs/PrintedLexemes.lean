import PlainPattern.Proofs.Printable
import PlainPattern.Proofs.Printer
import PlainPattern.Source.Element
import PlainPattern.Source.RepeatBounds

/-!
Contract: words, counts, characters and criteria are read as they were printed.

Owns: one lemma for each reader, which says that it takes exactly the printed piece off the front of
a text. A piece that ends in a word or a number needs something behind it that does not go on with
it (`EndsWord`); the printer sees to that with blanks, commas and newlines.
-/

set_option autoImplicit false

namespace PlainPattern

open Text Lexeme

/-- A class of characters tells two of them apart. -/
theorem ne_of_class (accepts : Char → Bool) {first second : Char} (isIn : accepts first)
    (isOut : accepts second = false) : first ≠ second := by
  rintro rfl
  rw [isOut] at isIn
  cases isIn

/-- A word that comes before this text ends there. -/
def EndsWord (rest : List Char) : Prop :=
  ∀ character ∈ rest.head?, isWordCharacter character = false

theorem endsWord_cons {character : Char} (other : isWordCharacter character = false)
    (rest : List Char) : EndsWord (character :: rest) := by
  rintro _ ⟨⟩
  exact other

namespace Lexeme

/-! ### Words and blanks -/

theorem takeWhile_append_of_ends {accepts : Char → Bool} {taken rest : List Char}
    (all : ∀ character ∈ taken, accepts character)
    (ends : ∀ character ∈ rest.head?, accepts character = false) :
    (taken ++ rest).takeWhile accepts = taken ∧ (taken ++ rest).dropWhile accepts = rest := by
  rw [List.takeWhile_append_of_pos all, List.dropWhile_append_of_pos all]
  cases rest with
  | nil => simp
  | cons character tail =>
      have stops := ends character rfl
      simp [stops]

theorem word_append {name : String} {rest : List Char} (isWord : IsWord name)
    (ends : EndsWord rest) : word (name.toList ++ rest) = name := by
  rw [word, (takeWhile_append_of_ends isWord.2 ends).1, String.ofList_toList]

theorem afterWord_append {name : String} {rest : List Char} (isWord : IsWord name)
    (ends : EndsWord rest) : afterWord (name.toList ++ rest) = rest :=
  (takeWhile_append_of_ends isWord.2 ends).2

theorem isWord_spelling (keyword : Keyword) : IsWord keyword.spelling := by
  have letters : keyword.spelling.toList.all isWordCharacter = true := by
    cases keyword <;> decide
  exact ⟨by cases keyword <;> decide, List.all_eq_true.1 letters⟩

theorem isWordCharacter_of_isDigit {character : Char} (isDigit : character.isDigit) :
    isWordCharacter character := by
  simp [isWordCharacter, Char.isAlphanum, isDigit]

theorem isWord_toString (number : Nat) : IsWord (toString number) := by
  refine ⟨?_, fun character member => ?_⟩
  · intro empty
    obtain ⟨first, rest, split, _⟩ := exists_digit_toString number
    rw [empty] at split
    cases split
  · rw [Nat.toString_eq_ofList_toDigits, String.toList_ofList] at member
    exact isWordCharacter_of_isDigit
      (Nat.isDigit_of_mem_toDigits (by decide) (by decide) member)

theorem endsWord_blank (rest : List Char) : EndsWord (' ' :: rest) :=
  endsWord_cons (by decide) rest

theorem endsWord_newline (rest : List Char) : EndsWord ('\n' :: rest) :=
  endsWord_cons (by decide) rest

theorem skipInlineBlanks_blank (rest : List Char) :
    skipInlineBlanks (' ' :: rest) = skipInlineBlanks rest := rfl

theorem skipInlineBlanks_of_visible {character : Char} (visible : isBlank character = false)
    (rest : List Char) : skipInlineBlanks (character :: rest) = character :: rest := by
  simp [skipInlineBlanks, isInlineBlank, visible]

theorem isBlank_of_isWordCharacter {character : Char} (isWord : isWordCharacter character) :
    isBlank character = false := by
  rw [Bool.eq_false_iff]
  intro blank
  rw [not_isWordCharacter_of_isBlank blank] at isWord
  cases isWord

theorem IsWord.exists_cons {name : String} (isWord : IsWord name) :
    ∃ first rest, name.toList = first :: rest ∧ isWordCharacter first := by
  cases split : name.toList with
  | nil => exact absurd (String.toList_eq_nil_iff.1 split) isWord.1
  | cons first rest =>
      have member : first ∈ name.toList := split ▸ List.mem_cons_self
      exact ⟨first, rest, rfl, isWord.2 first member⟩

/-- There is no blank in front of a word. -/
theorem skipInlineBlanks_word {name : String} (isWord : IsWord name) (rest : List Char) :
    skipInlineBlanks (name.toList ++ rest) = name.toList ++ rest := by
  obtain ⟨first, others, split, isFirst⟩ := IsWord.exists_cons isWord
  rw [split]
  exact skipInlineBlanks_of_visible (isBlank_of_isWordCharacter isFirst) _

theorem afterKeyword?_printed (keyword : Keyword) {rest : List Char} (ends : EndsWord rest) :
    afterKeyword? keyword (keyword.spelling.toList ++ rest) = some rest := by
  rw [afterKeyword?, word_append (isWord_spelling keyword) ends,
    if_pos (Keyword.ofWord?_spelling _),
    afterWord_append (isWord_spelling keyword) ends]

theorem ofWord?_eq_none {name : String} (unreserved : Keyword.reserved name = false) :
    Keyword.ofWord? name = none := by
  rwa [Keyword.reserved, Option.isSome_eq_false_iff, Option.isNone_iff_eq_none] at unreserved

theorem afterKeyword?_of_unreserved (keyword : Keyword) {name : String} {rest : List Char}
    (isWord : IsWord name) (unreserved : Keyword.reserved name = false) (ends : EndsWord rest) :
    afterKeyword? keyword (name.toList ++ rest) = none := by
  rw [afterKeyword?, word_append isWord ends, ofWord?_eq_none unreserved, if_neg (by simp)]

/-! ### Counts -/

theorem decimalValue_toString (number : Nat) : decimalValue (toString number).toList = number := by
  have sameStep : (fun value digit => value * 10 + (Char.toNat digit - '0'.toNat)) =
      fun value digit => 10 * value + (digit.toNat - '0'.toNat) := by
    funext value digit
    rw [Nat.mul_comm]
  rw [decimalValue, sameStep, Nat.toString_eq_ofList_toDigits, String.toList_ofList]
  exact Nat.ofDigitChars_ten_toDigits

theorem count_printed {number : Nat} {rest : List Char} (small : number ≤ maxCount)
    (ends : EndsWord rest) : count ((toString number).toList ++ rest) = .ok (number, rest) := by
  have digits : ∀ character ∈ (toString number).toList, character.isDigit := by
    rw [Nat.toString_eq_ofList_toDigits, String.toList_ofList]
    exact fun character member => Nat.isDigit_of_mem_toDigits (by decide) (by decide) member
  have noDigit : ∀ character ∈ rest.head?, character.isDigit = false := by
    intro character isHead
    rw [Bool.eq_false_iff]
    intro isDigit
    have noWord := ends character isHead
    rw [isWordCharacter_of_isDigit isDigit] at noWord
    cases noWord
  obtain ⟨taken, left⟩ := takeWhile_append_of_ends digits noDigit
  obtain ⟨first, others, split, _⟩ := exists_digit_toString number
  have notEmpty : (toString number).toList.isEmpty = false := by
    rw [split]
    rfl
  simp only [count, taken, left, notEmpty, decimalValue_toString, Nat.not_lt.2 small]
  rfl

end Lexeme

namespace RepeatBounds

theorem upperBound_printed {bounds : Bounds} (writable : bounds.Writable) {rest : List Char}
    (ends : EndsWord rest) :
    upperBound bounds.min ((Printer.maximum bounds.max).toList ++ rest) = .ok (bounds, rest) := by
  obtain ⟨min, max⟩ := bounds
  cases max with
  | none =>
      rw [upperBound, Printer.maximum, afterKeyword?_printed .forever ends]
  | some max =>
      obtain ⟨atLeast, small⟩ := writable.max_le max rfl
      rw [upperBound, Printer.maximum,
        afterKeyword?_of_unreserved .forever (isWord_toString max) (Keyword.reserved_toString max)
          ends,
        count_printed small ends]
      simp only [Nat.not_lt.2 atLeast, if_false]

theorem isWord_maximum (max : Option Nat) : IsWord (Printer.maximum max) := by
  cases max with
  | none => exact isWord_spelling .forever
  | some max => exact isWord_toString max

/-- The bounds behind the word for a repeat. -/
theorem bounds_printed {found : Bounds} (writable : found.Writable) {rest : List Char}
    (ends : EndsWord rest) :
    bounds (' ' :: ((toString found.min).toList ++ ' ' :: (Keyword.upTo.spelling.toList ++
      ' ' :: ((Printer.maximum found.max).toList ++ rest)))) = .ok (found, rest) := by
  have positive : found.min ≠ 0 := Nat.one_le_iff_ne_zero.1 writable.atLeastOnce
  rw [bounds, skipInlineBlanks_blank, skipInlineBlanks_word (isWord_toString _),
    afterKeyword?_of_unreserved .forever (isWord_toString _) (Keyword.reserved_toString _)
      (endsWord_blank _),
    count_printed writable.min_le (endsWord_blank _)]
  simp only [if_neg positive]
  rw [behindMinimum, skipInlineBlanks_blank, skipInlineBlanks_word (isWord_spelling .upTo),
    afterKeyword?_printed .upTo (endsWord_blank _)]
  simp only [skipInlineBlanks_blank, skipInlineBlanks_word (isWord_maximum _)]
  exact upperBound_printed writable ends

end RepeatBounds

namespace Element

/-! ### Escapes and literals -/

theorem escape_mark {character : Char} (isMark : isMark character) (rest : List Char) :
    escape (character :: rest) = .ok (character, rest) := by
  have marks := isMark
  simp only [Text.isMark, List.contains_iff_mem, List.mem_cons, List.not_mem_nil, or_false] at marks
  rcases marks with rfl | rfl | rfl | rfl | rfl | rfl | rfl | rfl | rfl | rfl <;> rfl

theorem hexValue?_digitChar : ∀ digit < 16, hexValue? (Nat.digitChar digit) = some digit := by
  decide

theorem hexDigits_digitChar {digit : Nat} (small : digit < 16) (value digits : Nat)
    (rest : List Char) : hexDigits value (digits + 1) (Nat.digitChar digit :: rest) =
      hexDigits (value * 16 + digit) digits rest := by
  rw [hexDigits, hexValue?_digitChar digit small]

theorem escape_codePoint {character : Char} (small : character.toNat < 65536) (rest : List Char) :
    escape ((Printer.codePoint character).tail ++ rest) = .ok (character, rest) := by
  have value : (((0 * 16 + character.toNat / 4096) * 16 + character.toNat / 256 % 16) * 16 +
      character.toNat / 16 % 16) * 16 + character.toNat % 16 = character.toNat := by omega
  change codePoint (_ :: _ :: _ :: _ :: rest) = _
  rw [codePoint, hexDigits_digitChar (by omega), hexDigits_digitChar (by omega),
    hexDigits_digitChar (by omega), hexDigits_digitChar (by omega), value, hexDigits]
  have valid : character.toNat.isValidChar := character.valid
  simp only [if_pos valid, Char.ofNat_toNat]

theorem literalBody_escaped {text tail after : List Char} {meant : Char}
    (escaped : escape tail = .ok (meant, after)) :
    literalBody text ('\\' :: tail) = literalBody (text ++ [meant]) after := by
  rw [literalBody, if_neg (by decide), if_neg (by decide), if_neg (by decide), if_pos rfl]
  split
  · rename_i found
    rw [escaped] at found
    cases found
    rfl
  · rename_i refused
    rw [escaped] at refused
    cases refused

theorem literalBody_plain {text tail : List Char} {character : Char} (inLine : character ≠ '\n')
    (plain : isMark character = false) :
    literalBody text (character :: tail) = literalBody (text ++ [character]) tail := by
  have literal : isLiteralCharacter character = true := by simp [isLiteralCharacter, plain]
  have noMark (mark : Char) (marks : isMark mark = true) : character ≠ mark :=
    (ne_of_class isMark marks plain).symm
  rw [literalBody, if_neg inLine, if_neg (noMark _ (by decide)), if_neg (noMark _ (by decide)),
    if_neg (noMark _ (by decide)), if_pos literal]

theorem literalBody_character (text rest : List Char) (character : Char) :
    literalBody text (Printer.literalCharacter character ++ rest) =
      literalBody (text ++ [character]) rest := by
  unfold Printer.literalCharacter
  split
  · rename_i isNewline
    subst isNewline
    exact literalBody_escaped rfl
  · rename_i inLine
    split
    · rename_i isMark
      exact literalBody_escaped (escape_mark isMark rest)
    · rename_i plain
      exact literalBody_plain inLine (Bool.eq_false_iff.2 plain)

/-- The induction is on the characters that are left to read. -/
theorem literalBody_printed (done characters rest : List Char)
    (nonempty : done ++ characters ≠ []) :
    literalBody done (characters.flatMap Printer.literalCharacter ++ ')' :: rest) =
      .ok (.literal (String.ofList (done ++ characters)), rest) := by
  induction characters generalizing done with
  | nil =>
      rw [List.append_nil] at nonempty ⊢
      rw [List.flatMap_nil, List.nil_append, literalBody, if_neg (by decide), if_pos rfl,
        if_neg (by simpa using nonempty)]
  | cons character others inductionHypothesis =>
      rw [List.flatMap_cons, List.append_assoc, literalBody_character,
        inductionHypothesis _ (by simp), List.append_assoc]
      rfl

theorem literal_printed {text : String} (nonempty : text ≠ "") (rest : List Char) :
    literal (text.toList.flatMap Printer.literalCharacter ++ ')' :: rest) =
      .ok (.literal text, rest) := by
  have read := literalBody_printed [] text.toList rest (by simpa using nonempty)
  rwa [List.nil_append, String.ofList_toList] at read

theorem variable_printed {name : String} (isWord : IsWord name) (rest : List Char) :
    literal ('$' :: (name.toList ++ ')' :: rest)) = .ok (.valueOf name, rest) := by
  have ends : EndsWord (')' :: rest) := endsWord_cons (by decide) rest
  have notEmpty : name.isEmpty = false := by simpa [Bool.eq_false_iff] using isWord.1
  rw [literal, literalBody, if_neg (by decide), if_neg (by decide), if_pos rfl,
    if_pos List.isEmpty_nil, variableName, word_append isWord ends, afterWord_append isWord ends]
  simp only [notEmpty, expect]
  rfl

/-! ### Ends of a range -/

/-- How the end of a range is printed, and that it is read back. -/
structure ReadsBack (character first : Char) (others : List Char) : Prop where
  opens : isElementCharacter first
  noComma : first ≠ ','
  noBar : first ≠ '|'
  alone : isWordCharacter first → others = []
  reads : ∀ rest, elementCharacter first (others ++ rest) = .ok (character, rest)

theorem bound_readsBack (character : Char) :
    ∃ first others, Printer.bound character = first :: others ∧
      ReadsBack character first others := by
  have escapes {others : List Char}
      (reads : ∀ rest, escape (others ++ rest) = .ok (character, rest)) :
      ReadsBack character '\\' others :=
    ⟨by decide, by decide, by decide, fun isWord => absurd isWord (by decide),
      fun rest => by rw [elementCharacter, if_pos rfl, reads]⟩
  unfold Printer.bound
  split
  · rename_i isMark
    exact ⟨_, _, rfl, escapes fun rest => escape_mark isMark rest⟩
  · rename_i plain
    split
    · rename_i special
      have small : character.toNat < 65536 := by
        rcases special with isBlank | rfl | rfl
        · exact Nat.lt_of_le_of_lt (toNat_le_of_isBlank isBlank) (by decide)
        · decide
        · decide
      exact ⟨_, _, rfl, escapes fun rest => escape_codePoint small rest⟩
    · rename_i ordinary
      simp only [not_or] at ordinary
      have notMark : isMark character = false := Bool.eq_false_iff.2 plain
      refine ⟨_, _, rfl, ⟨?_, ordinary.2.1, ordinary.2.2, fun _ => rfl, fun rest => ?_⟩⟩
      · simp [isElementCharacter, notMark, Bool.eq_false_iff.2 ordinary.1]
      · rw [elementCharacter, if_neg (ne_of_class isMark (by decide) notMark).symm]
        rfl

/-! ### Elements -/

theorem isBlank_of_isElementCharacter {character : Char} (opens : isElementCharacter character) :
    isBlank character = false := by
  simp only [isElementCharacter, Bool.and_eq_true, Bool.not_eq_true'] at opens
  exact opens.1

theorem rangeEnd_printed (high : Char) (rest : List Char) :
    rangeEnd (' ' :: (Printer.bound high ++ rest)) = .ok (high, rest) := by
  obtain ⟨first, others, printed, readsBack⟩ := bound_readsBack high
  rw [printed, rangeEnd, skipInlineBlanks_blank, List.cons_append,
    skipInlineBlanks_of_visible (isBlank_of_isElementCharacter readsBack.opens)]
  simp only [readsBack.noComma, readsBack.opens, ne_eq, not_false_eq_true, and_self, if_true]
  exact readsBack.reads rest

theorem range_printed {low high : Char} (ordered : low ≤ high) (rest : List Char) :
    element (Printer.element (.range low high) ++ rest) = .ok (.range low high, rest) := by
  obtain ⟨first, others, printed, readsBack⟩ := bound_readsBack low
  have shape : Printer.element (.range low high) ++ rest = first :: (others ++
      ' ' :: (Keyword.upTo.spelling.toList ++ ' ' :: (Printer.bound high ++ rest))) := by
    simp [Printer.element, Printer.keyword, printed]
  have single : ¬(isWordCharacter first = true ∧ (others ++ ' ' ::
      (Keyword.upTo.spelling.toList ++ ' ' :: (Printer.bound high ++ rest))).head?.any
        isWordCharacter = true) := by
    rintro ⟨isWord, meets⟩
    rw [readsBack.alone isWord] at meets
    cases meets
  have notMark (mark : Char) (isOut : isElementCharacter mark = false) : first ≠ mark :=
    ne_of_class isElementCharacter readsBack.opens isOut
  rw [shape, element, if_neg (by simp [notMark '\n' (by decide), notMark '#' (by decide)]),
    if_neg readsBack.noComma, if_neg (notMark '(' (by decide)), if_neg single,
    if_pos readsBack.opens, characterOrRange, readsBack.reads]
  simp only [skipInlineBlanks_blank, skipInlineBlanks_word (isWord_spelling .upTo),
    afterKeyword?_printed .upTo (endsWord_blank _), rangeEnd_printed, Criterion.between,
    if_pos ordered]

theorem symbol_printed {name : String} (isWord : IsWord name) (long : 2 ≤ name.length)
    {rest : List Char} (ends : EndsWord rest) :
    element (name.toList ++ rest) = .ok (.symbol name, rest) := by
  obtain ⟨first, second, others, split⟩ : ∃ first second others,
      name.toList = first :: second :: others := by
    rw [← String.length_toList] at long
    match name.toList, long with
    | first :: second :: others, _ => exact ⟨first, second, others, rfl⟩
  have taken := word_append isWord ends
  have left := afterWord_append isWord ends
  have firstIsWord := isWord.2 first (by rw [split]; simp)
  have secondIsWord := isWord.2 second (by rw [split]; simp)
  have notMark (mark : Char) (isOut : isWordCharacter mark = false) : first ≠ mark :=
    ne_of_class isWordCharacter firstIsWord isOut
  rw [split] at taken left ⊢
  rw [List.cons_append, List.cons_append] at taken left ⊢
  rw [element, if_neg (by simp [notMark '\n' (by decide), notMark '#' (by decide)]),
    if_neg (notMark ',' (by decide)), if_neg (notMark '(' (by decide)),
    if_pos ⟨firstIsWord, secondIsWord⟩, taken, left]

/-- An element is read as it was printed. What follows the name of a symbol must not go on with
it. -/
theorem element_printed {criterion : Criterion} (listable : criterion.Listable) {rest : List Char}
    (ends : EndsWord rest) :
    element (Printer.element criterion ++ rest) = .ok (criterion, rest) := by
  have opens (tail : List Char) : element ('(' :: tail) = literal tail := rfl
  cases criterion with
  | literal text =>
      have shape : Printer.element (.literal text) ++ rest =
          '(' :: (text.toList.flatMap Printer.literalCharacter ++ ')' :: rest) := by
        simp [Printer.element, Printer.literal]
      rw [shape, opens, literal_printed listable]
  | valueOf name =>
      have shape : Printer.element (.valueOf name) ++ rest =
          '(' :: '$' :: (name.toList ++ ')' :: rest) := by
        simp [Printer.element]
      rw [shape, opens, variable_printed listable]
  | range low high => exact range_printed listable rest
  | symbol name => exact symbol_printed listable.1 listable.2 ends
  | endpoint place => exact listable.elim

/-- No blank and no mark of the lines stands at the front of an element. -/
theorem exists_cons_element {criterion : Criterion} (listable : criterion.Listable) :
    ∃ first others, Printer.element criterion = first :: others ∧ isBlank first = false ∧
      first ≠ '@' ∧ first ≠ '|' ∧ first ≠ '#' := by
  cases criterion with
  | literal text => exact ⟨_, _, rfl, by decide⟩
  | valueOf name => exact ⟨_, _, rfl, by decide⟩
  | range low high =>
      obtain ⟨first, others, printed, readsBack⟩ := bound_readsBack low
      refine ⟨first, _, by rw [Printer.element, printed]; rfl,
        isBlank_of_isElementCharacter readsBack.opens,
        ne_of_class isElementCharacter readsBack.opens (by decide), readsBack.noBar,
        ne_of_class isElementCharacter readsBack.opens (by decide)⟩
  | symbol name =>
      obtain ⟨first, others, split, isFirst⟩ := IsWord.exists_cons listable.1
      exact ⟨first, others, split, isBlank_of_isWordCharacter isFirst,
        ne_of_class isWordCharacter isFirst (by decide),
        ne_of_class isWordCharacter isFirst (by decide),
        ne_of_class isWordCharacter isFirst (by decide)⟩
  | endpoint place => exact listable.elim

theorem exists_cons_elements {criteria : List Criterion} (listed : ListOfElements criteria) :
    ∃ first others, Printer.elements criteria = first :: others ∧ isBlank first = false ∧
      first ≠ '@' ∧ first ≠ '|' ∧ first ≠ '#' := by
  match criteria, listed with
  | [criterion], listed => exact exists_cons_element (listed.2 criterion List.mem_cons_self)
  | criterion :: next :: others, listed =>
      obtain ⟨first, more, split, opens⟩ :=
        exists_cons_element (listed.2 criterion List.mem_cons_self)
      exact ⟨first, _, by rw [Printer.elements, split]; rfl, opens⟩

theorem skipInlineBlanks_element {criterion : Criterion} (listable : criterion.Listable)
    (rest : List Char) :
    skipInlineBlanks (Printer.element criterion ++ rest) = Printer.element criterion ++ rest := by
  obtain ⟨first, others, printed, visible, _⟩ := exists_cons_element listable
  rw [printed]
  exact skipInlineBlanks_of_visible visible _

end Element

end PlainPattern
