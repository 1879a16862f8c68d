import PlainPattern.Text.GraphemeExtender
import PlainPattern.Text.Unprintable

/-!
Contract: how an error message shows a single character.

Owns: the quoted form. It stands between single quotes; the backslash, the single quote and the
four control characters with a letter of their own are escaped by a backslash, any other character
that cannot be read off the page is given by its code point, and all others stand for themselves.
-/

set_option autoImplicit false

namespace PlainPattern.Text

/-- The code point in lower-case hexadecimal digits, without leading zeros. -/
def hexDigits (character : Char) : String :=
  String.ofList (Nat.toDigits 16 character.toNat)

/-- What stands between the quotes. -/
def escaped (character : Char) : String :=
  match character with
  | '\x00' => "\\0"
  | '\t' => "\\t"
  | '\r' => "\\r"
  | '\n' => "\\n"
  | '\'' => "\\'"
  | '\\' => "\\\\"
  | other =>
      if isGraphemeExtender other || isUnprintable other then
        "\\u\x7b" ++ hexDigits other ++ "\x7d"
      else other.toString

def quoted (character : Char) : String :=
  "'" ++ escaped character ++ "'"

end PlainPattern.Text
