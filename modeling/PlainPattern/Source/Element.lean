import PlainPattern.Schema.Node
import PlainPattern.Source.Lexeme

/-!
Contract: the criteria as they are written: literals in brackets and the elements of a charset.

Owns: escapes, bracketed literals and variables, single characters, ranges and names. Each reader
leaves a final stretch of the text it was given, and an element takes at least one character
(`element_shorter`), so a list of elements ends.
-/

set_option autoImplicit false

namespace PlainPattern

namespace Element

open Text Lexeme

/-- Reads this many hexadecimal digits behind the ones that make up `value`. -/
def hexDigits (value : Nat) : Nat → Reader Nat
  | 0, rest => .ok (value, rest)
  | digits + 1, rest =>
      match rest with
      | [] => fault .invalidHexDigit []
      | character :: tail =>
          match hexValue? character with
          | some digit => hexDigits (value * 16 + digit) digits tail
          | none => fault .invalidHexDigit (character :: tail)

/-- Four hexadecimal digits that name a character. -/
def codePoint : Reader Char := fun rest =>
  match hexDigits 0 4 rest with
  | .error fault => .error fault
  | .ok (value, after) =>
      if value.isValidChar then .ok (Char.ofNat value, after)
      else fault .invalidCodePoint after

/-- What follows a backslash: a letter for a control character, a code point, or a mark. -/
def escape : Reader Char := fun rest =>
  match rest with
  | [] => fault .inescapable []
  | character :: tail =>
      if character = 'n' then .ok ('\n', tail)
      else if character = 't' then .ok ('\t', tail)
      else if character = 'r' then .ok ('\r', tail)
      else if character = 'u' then codePoint tail
      else if isMark character then .ok (character, tail)
      else fault .inescapable (character :: tail)

theorem hexDigits_suffix {digits : Nat} :
    ∀ {value result : Nat} {rest after : List Char},
      hexDigits value digits rest = .ok (result, after) → after <:+ rest := by
  induction digits with
  | zero =>
      intro value result rest after read
      cases read
      exact List.suffix_refl rest
  | succ digits inductionHypothesis =>
      intro value result rest after read
      unfold hexDigits at read
      split at read
      · cases read
      · split at read
        · exact (inductionHypothesis read).trans (List.suffix_cons _ _)
        · cases read

theorem codePoint_suffix {character : Char} {rest after : List Char}
    (read : codePoint rest = .ok (character, after)) : after <:+ rest := by
  unfold codePoint at read
  split at read
  · cases read
  · rename_i digitsRead
    split at read
    · cases read
      exact hexDigits_suffix digitsRead
    · cases read

theorem escape_suffix {character : Char} {rest after : List Char}
    (read : escape rest = .ok (character, after)) : after <:+ rest := by
  unfold escape at read
  split at read
  · cases read
  · repeat' split at read
    all_goals first
      | (cases read; exact List.suffix_cons _ _)
      | exact (codePoint_suffix read).trans (List.suffix_cons _ _)
      | cases read

/-- The name of a variable, up to and with the closing bracket. -/
def variableName : Reader Criterion := fun rest =>
  let name := word rest
  if name.isEmpty then fault .variableWithoutName (afterWord rest)
  else
    match expect ')' (afterWord rest) with
    | .ok after => .ok (.valueOf name, after)
    | .error fault => .error fault

/-- The body of a literal, up to and with the closing bracket, behind the characters in `text`. A
variable takes the place of the whole text. -/
def literalBody (text : List Char) : Reader Criterion
  | [] => fault .unterminatedLiteral []
  | character :: tail =>
      if character = '\n' then fault .unterminatedLiteral (character :: tail)
      else if character = ')' then
        if text.isEmpty then fault .emptyLiteral tail
        else .ok (.literal (String.ofList text), tail)
      else if character = '$' then
        if text.isEmpty then variableName tail
        else fault .variableNotAlone (character :: tail)
      else if character = '\\' then
        match _escaped : escape tail with
        | .ok (meant, after) => literalBody (text ++ [meant]) after
        | .error fault => .error fault
      else if isLiteralCharacter character then literalBody (text ++ [character]) tail
      else fault .unescapedInLiteral (character :: tail)
termination_by rest => rest.length
decreasing_by
  · exact Nat.lt_succ_of_le (escape_suffix _escaped).length_le
  · exact Nat.lt_succ_self _

def literal : Reader Criterion :=
  literalBody []

/-- An element character that was read, with its escape if it is a backslash. -/
def elementCharacter (character : Char) : Reader Char := fun tail =>
  if character = '\\' then escape tail else .ok (character, tail)

/-- The last character of a range, behind the word that announces it. -/
def rangeEnd : Reader Char := fun rest =>
  match skipInlineBlanks rest with
  | [] => fault .missingRangeEnd []
  | character :: tail =>
      if character ≠ ',' ∧ isElementCharacter character then elementCharacter character tail
      else fault .missingRangeEnd (character :: tail)

/-- One character, or a range if the word for it follows. -/
def characterOrRange (character : Char) : Reader Criterion := fun tail =>
  match elementCharacter character tail with
  | .error fault => .error fault
  | .ok (first, after) =>
      match afterKeyword? .upTo (skipInlineBlanks after) with
      | none => .ok (.literal first.toString, skipInlineBlanks after)
      | some announced =>
          match rangeEnd announced with
          | .ok (last, after) => .ok (.between first last, after)
          | .error fault => .error fault

/-- One element of a charset. Two word characters in a row are a name; one alone stands for
itself. -/
def element : Reader Criterion := fun rest =>
  match rest with
  | [] => fault .missingElement []
  | character :: tail =>
      if character = '\n' ∨ character = '#' then fault .missingElement (character :: tail)
      else if character = ',' then fault .missingElementBetweenCommas (character :: tail)
      else if character = '(' then literal tail
      else if isWordCharacter character ∧ tail.head?.any isWordCharacter then
        .ok (.symbol (word (character :: tail)), afterWord (character :: tail))
      else if isElementCharacter character then characterOrRange character tail
      else fault .unescapedElement (character :: tail)

theorem variableName_suffix {criterion : Criterion} {rest after : List Char}
    (read : variableName rest = .ok (criterion, after)) : after <:+ rest := by
  unfold variableName at read
  simp only at read
  split at read
  · cases read
  · split at read
    · rename_i closed
      cases read
      exact (expect_suffix closed).trans (afterWord_suffix rest)
    · cases read

theorem literalBody_suffix (text rest : List Char) :
    ∀ {criterion : Criterion} {after : List Char},
      literalBody text rest = .ok (criterion, after) → after <:+ rest := by
  fun_induction literalBody text rest with
  | case4 =>
      intro criterion after read
      cases read
      exact List.suffix_cons _ _
  | case5 =>
      intro criterion after read
      exact (variableName_suffix read).trans (List.suffix_cons _ _)
  | case7 text tail meant behind escaped _ _ _ inductionHypothesis =>
      intro criterion after read
      exact ((inductionHypothesis read).trans (escape_suffix escaped)).trans (List.suffix_cons _ _)
  | case9 _ _ _ _ _ _ _ _ inductionHypothesis =>
      intro criterion after read
      exact (inductionHypothesis read).trans (List.suffix_cons _ _)
  | _ =>
      intro criterion after read
      cases read

theorem elementCharacter_suffix {character read : Char} {tail after : List Char}
    (taken : elementCharacter character tail = .ok (read, after)) : after <:+ tail := by
  unfold elementCharacter at taken
  split at taken
  · exact escape_suffix taken
  · cases taken
    exact List.suffix_refl tail

theorem rangeEnd_suffix {character : Char} {rest after : List Char}
    (read : rangeEnd rest = .ok (character, after)) : after <:+ rest := by
  unfold rangeEnd at read
  split at read
  · cases read
  · rename_i atCharacter
    split at read
    · exact ((elementCharacter_suffix read).trans (List.suffix_cons _ _)).trans
        (atCharacter ▸ skipInlineBlanks_suffix rest)
    · cases read

theorem characterOrRange_suffix {character : Char} {criterion : Criterion}
    {tail after : List Char} (read : characterOrRange character tail = .ok (criterion, after)) :
    after <:+ tail := by
  unfold characterOrRange at read
  split at read
  · cases read
  · rename_i firstRead
    have fromFirst := (skipInlineBlanks_suffix _).trans (elementCharacter_suffix firstRead)
    split at read
    · cases read
      exact fromFirst
    · rename_i announced
      split at read
      · rename_i lastRead
        cases read
        exact ((rangeEnd_suffix lastRead).trans (afterKeyword?_suffix announced)).trans fromFirst
      · cases read

private theorem element_suffix_tail {criterion : Criterion} {rest after : List Char}
    (read : element rest = .ok (criterion, after)) :
    ∃ character tail, rest = character :: tail ∧ after <:+ tail := by
  unfold element at read
  split at read
  · cases read
  · rename_i character tail
    refine ⟨character, tail, rfl, ?_⟩
    split at read
    · cases read
    · split at read
      · cases read
      · split at read
        · exact literalBody_suffix _ _ read
        · split at read
          · rename_i wordsMeet
            cases read
            rw [afterWord, List.dropWhile_cons_of_pos wordsMeet.1]
            exact List.dropWhile_suffix _
          · split at read
            · exact characterOrRange_suffix read
            · cases read

theorem element_suffix {criterion : Criterion} {rest after : List Char}
    (read : element rest = .ok (criterion, after)) : after <:+ rest := by
  obtain ⟨character, tail, rfl, inTail⟩ := element_suffix_tail read
  exact inTail.trans (List.suffix_cons _ _)

theorem element_shorter {criterion : Criterion} {rest after : List Char}
    (read : element rest = .ok (criterion, after)) : after.length < rest.length := by
  obtain ⟨character, tail, rfl, inTail⟩ := element_suffix_tail read
  exact Nat.lt_succ_of_le inTail.length_le

end Element

end PlainPattern
