import Mathlib.Data.List.TakeWhile
import PlainPattern.Proofs.TreeRules
import PlainPattern.Source.Lexeme

/-!
Contract: which trees can be written down as schema text.

Owns: words and proper names, what may stand in a list of elements, the rules that every node of a
printable tree obeys, and `Schema.Printable`. They are stricter than the rules of legal trees: the
language has no way to write an empty literal, an endpoint in a list, a range from high to low, or
a count beyond the largest one.
-/

set_option autoImplicit false

namespace PlainPattern

open Text Lexeme

/-- One word character or more, and nothing else. -/
def IsWord (word : String) : Prop :=
  word ≠ "" ∧ ∀ character ∈ word.toList, isWordCharacter character

/-- A name that schema text can give to a symbol. -/
structure ProperName (name : String) : Prop where
  word : IsWord name
  long : 2 ≤ name.length
  begins : ∀ first ∈ name.toList.head?, first.isDigit = false
  unreserved : Keyword.reserved name = false

/-- What may stand in a list of elements. -/
def Criterion.Listable : Criterion → Prop
  | .literal text => text ≠ ""
  | .valueOf name => IsWord name
  | .range low high => low ≤ high
  | .symbol name => IsWord name ∧ 2 ≤ name.length
  | .endpoint _ => False

/-- A list that is not empty, and nothing but elements in it. -/
def ListOfElements (criteria : List Criterion) : Prop :=
  criteria ≠ [] ∧ ∀ criterion ∈ criteria, criterion.Listable

/-- An endpoint is a rule by itself, and has to match. Any other rule is a list of elements. -/
def Rule.Printable (rule : Rule) : Prop :=
  (∃ endpoint, rule = ⟨true, [.endpoint endpoint]⟩) ∨ ListOfElements rule.criteria

/-- Bounds that can be written as counts. -/
structure Bounds.Writable (bounds : Bounds) : Prop where
  atLeastOnce : 1 ≤ bounds.min
  min_le : bounds.min ≤ maxCount
  max_le : ∀ max, bounds.max = some max → bounds.min ≤ max ∧ max ≤ maxCount

/-- No node is both negated and optional, and a capture is named by a word. -/
structure Marks.Printable (marks : Marks) : Prop where
  optional : marks.negated = true → marks.optional = false
  collectAs : ∀ name, marks.collectAs = some name → IsWord name

def TreeRules.printable : TreeRules where
  rule := Rule.Printable
  reference := fun name => IsWord name ∧ Keyword.reserved name = false
  marks := Marks.Printable
  repeats := fun marks bounds => marks.negated = false ∧ bounds.Writable
  element := Criterion.Listable

/-- The keys are proper names, and the numbers below `unnamed`, which belong to patterns. Every
symbol is stored under its own name and obeys the rules; no charset leads back to itself. -/
structure Schema.Printable (schema : Schema) (unnamed : Nat) : Prop where
  numbered : ∀ number < unnamed, ∃ pattern,
    schema.get? (toString number) = some (.pattern pattern)
  keys : ∀ key symbol, schema.get? key = some symbol →
    ProperName key ∨ ∃ number < unnamed, key = toString number
  named : ∀ key symbol, schema.get? key = some symbol → symbol.name = key
  obeys : ∀ key symbol, schema.get? key = some symbol → symbol.Obeys .printable
  acyclic : CharsetsAcyclic schema.symbols

/-! ### Words and numbers -/

theorem isWord_word {rest : List Char} (nonempty : (word rest).isEmpty = false) :
    IsWord (word rest) := by
  refine ⟨?_, ?_⟩
  · rintro empty
    rw [empty] at nonempty
    cases nonempty
  · rw [word, String.toList_ofList]
    exact fun character member => List.mem_takeWhile_imp member

theorem ProperName.ne_toString {name : String} (proper : ProperName name) (number : Nat) :
    name ≠ toString number := by
  rintro rfl
  obtain ⟨first, rest, split, isDigit⟩ := exists_digit_toString number
  have noDigit := proper.begins first (by rw [split]; rfl)
  rw [isDigit] at noDigit
  cases noDigit

theorem toString_inj {first second : Nat} (same : toString first = toString second) :
    first = second := by
  rw [Nat.toString_eq_ofList_toDigits, Nat.toString_eq_ofList_toDigits] at same
  have sameDigits := String.ofList_injective same
  have value := congrArg (fun digits => Nat.ofDigitChars 10 digits 0) sameDigits
  simpa [Nat.ofDigitChars_ten_toDigits] using value

end PlainPattern
