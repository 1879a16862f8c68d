/-!
Contract: the sets of characters that schema text and matching are told apart by.

Owns: word characters, blanks, the characters that must be escaped, and the value of a hexadecimal
digit. All of these are sets of ASCII characters and are the same in every place that asks for
them; a character outside ASCII is never a word character, a blank or a mark.
-/

set_option autoImplicit false

namespace PlainPattern.Text

/-- Symbol names, variable names and capture names are made of these. -/
def isWordCharacter (character : Char) : Bool :=
  character.isAlphanum || character == '_'

/-- The space and everything below it, the newline included. -/
def isBlank (character : Char) : Bool :=
  decide (character ≤ ' ')

def isInlineBlank (character : Char) : Bool :=
  isBlank character && character != '\n'

/-- The marks of the schema language: inside a literal each of them has to be escaped. -/
def isMark (character : Char) : Bool :=
  ['[', ']', '{', '}', '(', ')', '#', '\\', '@', '$'].contains character

def isLiteralCharacter (character : Char) : Bool :=
  !isMark character

/-- Characters that may open an element of a charset: anything visible that is no mark, and the
backslash that opens an escape. -/
def isElementCharacter (character : Char) : Bool :=
  !isBlank character && (!isMark character || character == '\\')

def hexValue? (character : Char) : Option Nat :=
  if character.isDigit then some (character.toNat - '0'.toNat)
  else if 'a' ≤ character ∧ character ≤ 'f' then some (character.toNat - 'a'.toNat + 10)
  else if 'A' ≤ character ∧ character ≤ 'F' then some (character.toNat - 'A'.toNat + 10)
  else none

theorem toNat_bounds_of_isWordCharacter {character : Char} (word : isWordCharacter character) :
    48 ≤ character.toNat ∧ character.toNat ≤ 122 := by
  change (((decide (65 ≤ character.val ∧ character.val ≤ 90) ||
    (decide (97 ≤ character.val) && decide (character.val ≤ 122))) ||
    (decide (48 ≤ character.val) && decide (character.val ≤ 57))) || character == '_') = true
    at word
  simp only [Bool.or_eq_true, Bool.and_eq_true, decide_eq_true_eq, beq_iff_eq,
    UInt32.le_iff_toNat_le] at word
  change (((65 ≤ character.toNat ∧ character.toNat ≤ 90) ∨
    (97 ≤ character.toNat ∧ character.toNat ≤ 122)) ∨
    (48 ≤ character.toNat ∧ character.toNat ≤ 57)) ∨ character = '_' at word
  rcases word with ((upper | lower) | digit) | rfl
  · omega
  · omega
  · omega
  · decide

theorem toNat_le_of_isBlank {character : Char} (blank : isBlank character) :
    character.toNat ≤ 32 := by
  simpa [isBlank, Char.le_def, UInt32.le_iff_toNat_le] using blank

theorem not_isWordCharacter_of_isBlank {character : Char} (blank : isBlank character) :
    isWordCharacter character = false := by
  cases word : isWordCharacter character with
  | false => rfl
  | true =>
      have bounds := toNat_bounds_of_isWordCharacter word
      have small := toNat_le_of_isBlank blank
      omega

end PlainPattern.Text
