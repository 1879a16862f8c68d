import PlainPattern.Schema.Keyword
import PlainPattern.Source.Complaint
import PlainPattern.Text.Character

/-!
Contract: the smallest pieces of schema text.

Owns: blanks, comments, words, line ends and counts. Each reader takes the unread text and leaves a
final stretch of it: the lemmas beside the readers say so, which is what keeps every fault inside
the text and every loop over it finite.
-/

set_option autoImplicit false

namespace PlainPattern

/-- A reader answers with a value and the text behind it, or with a fault. -/
abbrev Reader (Value : Type) := List Char → Except Fault (Value × List Char)

/-- Complains about the place in front of `rest`. -/
def fault {Value : Type} (complaint : Complaint) (rest : List Char) : Except Fault Value :=
  .error ⟨complaint, rest⟩

namespace Lexeme

open Text

def skipBlanks (rest : List Char) : List Char :=
  rest.dropWhile isBlank

def skipInlineBlanks (rest : List Char) : List Char :=
  rest.dropWhile isInlineBlank

/-- Skips the rest of the line, its newline excluded. -/
def skipLine (rest : List Char) : List Char :=
  rest.dropWhile fun character => character != '\n'

def skipComment (rest : List Char) : List Char :=
  if rest.head? = some '#' then skipLine rest else rest

/-- The longest word that begins here, which may be empty. -/
def word (rest : List Char) : String :=
  String.ofList (rest.takeWhile isWordCharacter)

def afterWord (rest : List Char) : List Char :=
  rest.dropWhile isWordCharacter

/-- The text behind a keyword, if exactly that keyword stands here. -/
def afterKeyword? (keyword : Keyword) (rest : List Char) : Option (List Char) :=
  if Keyword.ofWord? (word rest) = some keyword then some (afterWord rest) else none

def expect (expected : Char) (rest : List Char) : Except Fault (List Char) :=
  match rest with
  | [] => fault (.mismatch expected none) []
  | found :: tail =>
      if found = expected then .ok tail
      else fault (.mismatch expected (some found)) (found :: tail)

/-- Ends the line: only blanks and a comment may still stand on it. -/
def finishLine (rest : List Char) : Except Fault (List Char) :=
  match skipComment (skipInlineBlanks rest) with
  | [] => .ok []
  | '\n' :: tail => .ok tail
  | other => fault .unexpectedCharacter other

/-- The largest count that may be written. -/
def maxCount : Nat := 4294967295

def decimalValue (digits : List Char) : Nat :=
  digits.foldl (fun value digit => value * 10 + (digit.toNat - '0'.toNat)) 0

def count : Reader Nat := fun rest =>
  let digits := rest.takeWhile Char.isDigit
  let after := rest.dropWhile Char.isDigit
  if digits.isEmpty then fault .missingCount rest
  else if maxCount < decimalValue digits then fault .countTooLarge after
  else .ok (decimalValue digits, after)

theorem skipBlanks_suffix (rest : List Char) : skipBlanks rest <:+ rest :=
  List.dropWhile_suffix _

theorem skipInlineBlanks_suffix (rest : List Char) : skipInlineBlanks rest <:+ rest :=
  List.dropWhile_suffix _

theorem skipLine_suffix (rest : List Char) : skipLine rest <:+ rest :=
  List.dropWhile_suffix _

theorem skipComment_suffix (rest : List Char) : skipComment rest <:+ rest := by
  unfold skipComment
  split
  · exact skipLine_suffix rest
  · exact List.suffix_refl rest

theorem afterWord_suffix (rest : List Char) : afterWord rest <:+ rest :=
  List.dropWhile_suffix _

theorem afterKeyword?_suffix {keyword : Keyword} {rest after : List Char}
    (found : afterKeyword? keyword rest = some after) : after <:+ rest := by
  unfold afterKeyword? at found
  split at found
  · exact Option.some.inj found ▸ afterWord_suffix rest
  · cases found

theorem expect_suffix {expected : Char} {rest after : List Char}
    (read : expect expected rest = .ok after) : after <:+ rest := by
  unfold expect at read
  split at read
  · cases read
  · split at read
    · cases read
      exact List.suffix_cons _ _
    · cases read

theorem finishLine_suffix {rest after : List Char} (read : finishLine rest = .ok after) :
    after <:+ rest := by
  have skipped : skipComment (skipInlineBlanks rest) <:+ rest :=
    (skipComment_suffix _).trans (skipInlineBlanks_suffix rest)
  unfold finishLine at read
  split at read
  · cases read
    exact List.nil_suffix
  · rename_i tail atNewline
    cases read
    exact (List.suffix_cons _ _).trans (atNewline ▸ skipped)
  · cases read

theorem count_suffix {rest after : List Char} {value : Nat}
    (read : count rest = .ok (value, after)) : after <:+ rest := by
  unfold count at read
  simp only at read
  split at read
  · cases read
  · split at read
    · cases read
    · cases read
      exact List.dropWhile_suffix _

end Lexeme

end PlainPattern
