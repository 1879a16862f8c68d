import PlainPattern.Text.Quoted

/-!
Contract: what can be wrong with schema text.

Owns: one constructor for each rule of the written language that a text can break, and the sentence
that says so. Where in the text it happened is kept beside the complaint, never in it.
-/

set_option autoImplicit false

namespace PlainPattern

inductive Complaint where
  | unexpectedCharacter
  /-- A certain character has to stand here. -/
  | mismatch (expected : Char) (found : Option Char)
  | symbolWithoutDefinition
  | misplacedSymbol
  | symbolTooShort
  | symbolBeginsWithDigit
  | symbolNotAllowed
  | unclosedPattern
  | unclosedBlock
  | strayBrace
  | tooManyConstructs
  | missingConstruct
  | blockAfterRule
  | modifierAfterRule
  | separatorForks
  | optionalNegation
  | repeatWithModifier
  | collectionBeforeRule
  | collectionWithoutName
  | reservedWord (word : String)
  | repeatFromZero
  | repeatBackwards
  | missingCount
  | countTooLarge
  | unterminatedLiteral
  | emptyLiteral
  | unescapedInLiteral
  | variableNotAlone
  | variableWithoutName
  | missingElement
  | missingElementBetweenCommas
  | missingRangeEnd
  | unescapedElement
  | inescapable
  | invalidHexDigit
  | invalidCodePoint
deriving DecidableEq, Repr

namespace Complaint

open Text

def message : Complaint → String
  | unexpectedCharacter => "Unexpected character"
  | mismatch expected (some found) =>
      "Expected " ++ quoted expected ++ ", found instead " ++ quoted found
  | mismatch expected none => "Expected " ++ quoted expected ++ ", found end of schema"
  | symbolWithoutDefinition => "Expected a pattern or charset after symbol definition"
  | misplacedSymbol => "Cannot define symbol here"
  | symbolTooShort => "Symbol name must be at least 2 characters long"
  | symbolBeginsWithDigit => "Symbol cannot begin with a number"
  | symbolNotAllowed => "Symbol name is not allowed (either reserved or previously defined)"
  | unclosedPattern => "Unclosed pattern, expected ||"
  | unclosedBlock => "Unclosed block, expected \x7d"
  | strayBrace => "Unexpected '\x7d' outside a block"
  | tooManyConstructs => "Invalid rule (too many symbols)"
  | missingConstruct => "Invalid rule"
  | blockAfterRule => "Cannot open block after rule on same line"
  | modifierAfterRule => "Modifiers must come before the rule they apply to"
  | separatorForks => "Cannot use after and or in conjunction"
  | optionalNegation => "Cannot use not and optionally in conjunction"
  | repeatWithModifier => "Cannot apply prefix to repeat rule"
  | collectionBeforeRule => "Collection must come after a rule"
  | collectionWithoutName => "Expected an identifier after as"
  | reservedWord word => "Reserved word '" ++ word ++ "' cannot be used as a rule"
  | repeatFromZero => "Start must be greater than 0"
  | repeatBackwards => "Start of range cannot be greater than end"
  | missingCount => "Invalid range"
  | countTooLarge => "Repeat count is too large"
  | unterminatedLiteral => "Unterminated literal, expected )"
  | emptyLiteral => "Must be at least one character inside literal brackets"
  | unescapedInLiteral => "Character must be escaped in literal"
  | variableNotAlone => "A variable must be alone inside literal brackets"
  | variableWithoutName => "Expected a variable name after $"
  | missingElement => "Expected a charset element"
  | missingElementBetweenCommas => "Expected a charset element between commas"
  | missingRangeEnd => "Expected a character to end the range"
  | unescapedElement => "Character must be escaped"
  | inescapable => "Tried to escape inescapable character"
  | invalidHexDigit => "Invalid unicode hex"
  | invalidCodePoint => "Invalid unicode code point"

end Complaint

/-- A complaint, and the text that was still unread when it arose. -/
structure Fault where
  complaint : Complaint
  rest : List Char
deriving DecidableEq, Repr

end PlainPattern
