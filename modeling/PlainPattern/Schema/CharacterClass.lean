/-!
Contract: the character classes that every schema may name without defining them.

Owns: the four classes, their names and their members. A class is named by exactly its name: unlike
a reserved word it has no other letter case. `ofName?_eq_some_iff` pins the lookup to the names.
-/

set_option autoImplicit false

namespace PlainPattern

inductive CharacterClass where
  | anything
  | space
  | digit
  | whitespace
deriving DecidableEq, Repr

namespace CharacterClass

def name : CharacterClass → String
  | anything => "anything"
  | space => "space"
  | digit => "digit"
  | whitespace => "whitespace"

/-- The class of exactly this name. -/
def ofName? (name : String) : Option CharacterClass :=
  if name = "anything" then some anything
  else if name = "space" then some space
  else if name = "digit" then some digit
  else if name = "whitespace" then some whitespace
  else none

/-- `anything` is all but the newline, `space` the ASCII space alone, `digit` the ASCII digits and
`whitespace` every character up to the space. -/
def contains : CharacterClass → Char → Bool
  | anything, character => character != '\n'
  | space, character => character == ' '
  | digit, character => character.isDigit
  | whitespace, character => decide (character ≤ ' ')

theorem ofName?_eq_some_iff {word : String} {characterClass : CharacterClass} :
    ofName? word = some characterClass ↔ word = characterClass.name := by
  constructor
  · intro found
    unfold ofName? at found
    repeat' split at found
    all_goals first
      | contradiction
      | (obtain rfl := Option.some.inj found; assumption)
  · rintro rfl
    cases characterClass <;> decide

end CharacterClass

end PlainPattern
