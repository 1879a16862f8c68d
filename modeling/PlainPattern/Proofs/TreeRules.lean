import PlainPattern.Proofs.CharsetWalk
import PlainPattern.Schema.Keyword

/-!
Contract: what it means for every part of a tree to obey a set of rules.

Owns: `TreeRules`, which say what is allowed of a rule, a reference, the marks of a node, its
repetition and the elements of a charset; `Node.Obeys` and `Symbol.Obeys`, which ask for it
everywhere, in blocks and in separators; and `Schema.Legal`, the trees in which nothing contradicts
itself. Two things are the same under all rules: a block has a first child that is no alternative,
and a separator is no alternative either.
-/

set_option autoImplicit false

namespace PlainPattern

/-- What single parts of a tree have to look like. -/
structure TreeRules where
  rule : Rule → Prop
  reference : String → Prop
  marks : Marks → Prop
  /-- How often a node with these marks may be repeated. -/
  repeats : Marks → Bounds → Prop
  /-- An element of a charset. -/
  element : Criterion → Prop

/-- Children of which there is a first, and it is no alternative to anything. -/
def BeginFirmly (children : List Node) : Prop :=
  ∃ first rest, children = first :: rest ∧ first.forks = false

mutual

/-- The rules are obeyed by a node and by everything inside it. -/
def Node.Obeys (rules : TreeRules) : Node → Prop
  | .mk body marks repetition =>
      rules.marks marks ∧ body.Obeys rules ∧ repetition.Obeys rules marks

def Body.Obeys (rules : TreeRules) : Body → Prop
  | .block children => BeginFirmly children ∧ AllObey rules children
  | .rule rule => rules.rule rule
  | .reference name => rules.reference name

def Repetition.Obeys (rules : TreeRules) (marks : Marks) : Repetition → Prop
  | .once => True
  | .times bounds => rules.repeats marks bounds
  | .separated bounds separator =>
      rules.repeats marks bounds ∧ separator.forks = false ∧ separator.Obeys rules

def AllObey (rules : TreeRules) : List Node → Prop
  | [] => True
  | node :: rest => node.Obeys rules ∧ AllObey rules rest

end

theorem allObey_iff {rules : TreeRules} {nodes : List Node} :
    AllObey rules nodes ↔ ∀ node ∈ nodes, node.Obeys rules := by
  induction nodes with
  | nil => simp [AllObey]
  | cons node rest inductionHypothesis => simp [AllObey, inductionHypothesis]

theorem Node.obeys_iff {rules : TreeRules} {node : Node} :
    node.Obeys rules ↔ rules.marks node.marks ∧ node.body.Obeys rules ∧
      node.repetition.Obeys rules node.marks := by
  obtain ⟨body, marks, repetition⟩ := node
  rfl

def Symbol.name : Symbol → String
  | .pattern found => found.name
  | .charset found => found.name

/-- The rules are obeyed by all children of a pattern, or by all elements of a charset, of which
there is at least one. -/
def Symbol.Obeys (rules : TreeRules) : Symbol → Prop
  | .pattern found => BeginFirmly found.children ∧ AllObey rules found.children
  | .charset found => found.criteria ≠ [] ∧ ∀ criterion ∈ found.criteria, rules.element criterion

/-- Only what is not negated is repeated, at least once and at least as often as at most. -/
def TreeRules.legal : TreeRules where
  rule := fun _ => True
  reference := fun _ => True
  marks := fun _ => True
  repeats := fun marks bounds => marks.negated = false ∧ 1 ≤ bounds.min ∧
    ∀ max, bounds.max = some max → bounds.min ≤ max
  element := fun _ => True

/-- Every symbol is stored under its own name, which is no reserved word in any letter case; every
tree is legal; no charset is empty, and none leads back to itself. -/
structure Schema.Legal (schema : Schema) : Prop where
  named : ∀ key symbol, schema.get? key = some symbol → symbol.name = key
  unreserved : ∀ key symbol, schema.get? key = some symbol →
    ∀ keyword : Keyword, keyword.spelling.toList ≠ Keyword.foldCase key
  obeys : ∀ key symbol, schema.get? key = some symbol → symbol.Obeys .legal
  acyclic : CharsetsAcyclic schema.symbols

theorem Keyword.reserved_eq_false_iff {word : String} :
    Keyword.reserved word = false ↔
      ∀ keyword : Keyword, keyword.spelling.toList ≠ foldCase word := by
  rw [reserved, Option.isSome_eq_false_iff, Option.isNone_iff_eq_none, ofWord?, List.find?_eq_none]
  constructor
  · intro unknown keyword same
    exact unknown keyword (mem_all keyword) (decide_eq_true same)
  · intro different keyword _ same
    exact different keyword (of_decide_eq_true same)

theorem toLower_of_isDigit {character : Char} (digit : character.isDigit) :
    character.toLower = character := by
  have small : character.val ≤ 57 := by
    simp only [Char.isDigit, Bool.and_eq_true, decide_eq_true_eq] at digit
    exact digit.2
  have noCapital : ¬(character.val ≥ 'A'.val ∧ character.val ≤ 'Z'.val) := by
    rintro ⟨atLeast, _⟩
    exact absurd (UInt32.le_trans atLeast small) (by decide)
  exact dif_neg noCapital

/-- The digits of a number: there is a first one. -/
theorem exists_digit_toString (number : Nat) :
    ∃ first rest, (toString number).toList = first :: rest ∧ first.isDigit := by
  obtain ⟨first, rest, split⟩ := List.exists_cons_of_ne_nil
    (Nat.toDigits_ne_nil : Nat.toDigits 10 number ≠ [])
  refine ⟨first, rest, ?_, ?_⟩
  · rw [Nat.toString_eq_ofList_toDigits, String.toList_ofList, split]
  · exact Nat.isDigit_of_mem_toDigits (by decide) (by decide) (split ▸ List.mem_cons_self)

/-- The number of a pattern without a name is no reserved word. -/
theorem Keyword.reserved_toString (number : Nat) : Keyword.reserved (toString number) = false := by
  rw [reserved_eq_false_iff]
  intro keyword same
  have letters : (keyword.spelling.toList.all fun character => !character.isDigit) = true := by
    cases keyword <;> decide
  obtain ⟨first, rest, split, isDigit⟩ := exists_digit_toString number
  have folded : foldCase (toString number) = first.toLower :: rest.map Char.toLower := by
    rw [foldCase, split, List.map_cons]
  rw [folded, toLower_of_isDigit isDigit] at same
  have notDigit := List.all_eq_true.1 letters first (same ▸ List.mem_cons_self)
  rw [isDigit] at notDigit
  cases notDigit

end PlainPattern
