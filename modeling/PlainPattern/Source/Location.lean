import PlainPattern.Source.Complaint

/-!
Contract: where in a text a fault lies, and how it is shown.

Owns: locations, which count characters, and syntax errors, which show the whole line of the fault
with a caret under its column. A location is found by walking over the text that was read, one
character at a time; `ofFault` takes the read text to be what stands before the unread rest.
-/

set_option autoImplicit false

namespace PlainPattern

/-- A place between two characters. Offset and column count from zero, lines from one. -/
structure Location where
  offset : Nat := 0
  lineNumber : Nat := 1
  column : Nat := 0
deriving DecidableEq, Repr

namespace Location

/-- The place behind one more character; only the newline ends a line. -/
def advance (location : Location) (character : Char) : Location :=
  if character = '\n' then ⟨location.offset + 1, location.lineNumber + 1, 0⟩
  else ⟨location.offset + 1, location.lineNumber, location.column + 1⟩

/-- The place behind a text. -/
def behind (text : List Char) : Location :=
  text.foldl advance {}

end Location

structure SyntaxError where
  complaint : Complaint
  /-- The whole line on which the fault lies, without its newline. -/
  line : String
  location : Location
deriving DecidableEq, Repr

namespace SyntaxError

def ofFault (source : List Char) (fault : Fault) : SyntaxError :=
  let location := Location.behind (source.take (source.length - fault.rest.length))
  let line := (source.drop (location.offset - location.column)).takeWhile fun character =>
    character != '\n'
  ⟨fault.complaint, String.ofList line, location⟩

/-- The complaint, the line, a caret under the column, and the offset. -/
def message (error : SyntaxError) : String :=
  "Syntax error: " ++ error.complaint.message ++ "\n\n" ++ error.line ++ "\n" ++
    String.ofList (List.replicate error.location.column ' ') ++ "^\nAt character " ++
    toString error.location.offset

end SyntaxError

end PlainPattern
