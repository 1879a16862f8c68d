/-!
Contract: the reserved words of the schema language.

Owns: the sixteen words, their spelling, and the lookup that recognises them in any letter case;
`ofWord?_spelling` says that it knows every word it should. A reserved word never names a symbol.
-/

set_option autoImplicit false

namespace PlainPattern

inductive Keyword where
  | after
  | anyOf
  | anything
  | collectAs
  | digit
  | endOfText
  | forever
  | noneOf
  | negated
  | optionally
  | orElse
  | space
  | startOfText
  | times
  | upTo
  | whitespace
deriving DecidableEq, Repr

namespace Keyword

/-- How the word is written in lower case. -/
def spelling : Keyword → String
  | after => "after"
  | anyOf => "any"
  | anything => "anything"
  | collectAs => "as"
  | digit => "digit"
  | endOfText => "end"
  | forever => "forever"
  | noneOf => "none"
  | negated => "not"
  | optionally => "optionally"
  | orElse => "or"
  | space => "space"
  | startOfText => "start"
  | times => "times"
  | upTo => "to"
  | whitespace => "whitespace"

/-- Every reserved word, in the order of their spelling. -/
def all : List Keyword :=
  [after, anyOf, anything, collectAs, digit, endOfText, forever, noneOf, negated, optionally,
    orElse, space, startOfText, times, upTo, whitespace]

/-- A word without its letter case. Only ASCII letters have one here. -/
def foldCase (word : String) : List Char :=
  word.toList.map Char.toLower

/-- The reserved word that `word` is, in any letter case. -/
def ofWord? (word : String) : Option Keyword :=
  all.find? fun keyword => decide (keyword.spelling.toList = foldCase word)

/-- No symbol may be named by a reserved word. -/
def reserved (word : String) : Bool :=
  (ofWord? word).isSome

theorem mem_all (keyword : Keyword) : keyword ∈ all := by
  cases keyword <;> decide

theorem ofWord?_spelling (keyword : Keyword) : ofWord? keyword.spelling = some keyword := by
  cases keyword <;> decide

end Keyword

end PlainPattern
