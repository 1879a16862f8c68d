/-!
Contract: the tree of a pattern.

Owns: criteria, matching rules, repeat bounds, the marks of a node, and the tree of nodes itself. A
node is what it matches (its body), the marks that change what its success means, and how often it
is repeated. Nothing here can be illegal by itself; which trees are legal is the business of the
draft that builds them.
-/

set_option autoImplicit false

namespace PlainPattern

inductive Endpoint where
  | start
  | finish
deriving DecidableEq, Repr

/-- The smallest thing that can be tried at a place in the text. -/
inductive Criterion where
  | literal (text : String)
  /-- The text captured, or supplied by the caller, under this name. -/
  | valueOf (name : String)
  /-- One character between these two, both included. -/
  | range (low high : Char)
  /-- One element of a character class or of a charset. -/
  | symbol (name : String)
  | endpoint (endpoint : Endpoint)
deriving DecidableEq, Repr

/-- A range between two characters given in either order. -/
def Criterion.between (first second : Char) : Criterion :=
  if first ≤ second then .range first second else .range second first

/-- A rule is inclusive (one of the criteria has to match) or exclusive (none may match). -/
structure Rule where
  inclusive : Bool
  criteria : List Criterion
deriving DecidableEq, Repr

/-- How often a node has to match; without a maximum there is no upper limit. -/
structure Bounds where
  min : Nat
  max : Option Nat
deriving DecidableEq, Repr

namespace Bounds

def satisfiedBy (bounds : Bounds) (count : Nat) : Bool :=
  decide (bounds.min ≤ count) && bounds.max.all fun max => decide (count ≤ max)

theorem satisfiedBy_iff (bounds : Bounds) (count : Nat) :
    bounds.satisfiedBy count = true ↔
      bounds.min ≤ count ∧ ∀ max, bounds.max = some max → count ≤ max := by
  cases bounds with
  | mk min max => cases max <;> simp [satisfiedBy]

end Bounds

/-- What is said about a node besides what it matches. -/
structure Marks where
  /-- An alternative to the sibling before it. -/
  forks : Bool := false
  /-- Its failure does not fail the block around it. -/
  optional : Bool := false
  /-- Consumes nothing, and succeeds only where it would not match. -/
  negated : Bool := false
  /-- The capture that collects what it consumes. -/
  collectAs : Option String := none
deriving DecidableEq, Repr

mutual

inductive Node where
  | mk (body : Body) (marks : Marks) (repetition : Repetition)

inductive Body where
  /-- Children that match one after another, as one unit. -/
  | block (children : List Node)
  | rule (rule : Rule)
  /-- Another pattern, found by its name when the text is matched. -/
  | reference (name : String)

inductive Repetition where
  | once
  | times (bounds : Bounds)
  /-- A separator is tried between two repetitions. -/
  | separated (bounds : Bounds) (separator : Node)

end

namespace Node

def body : Node → Body
  | .mk body _ _ => body

def marks : Node → Marks
  | .mk _ marks _ => marks

def repetition : Node → Repetition
  | .mk _ _ repetition => repetition

def forks (node : Node) : Bool :=
  node.marks.forks

def optional (node : Node) : Bool :=
  node.marks.optional

def negated (node : Node) : Bool :=
  node.marks.negated

def collectAs (node : Node) : Option String :=
  node.marks.collectAs

def withMarks (node : Node) (marks : Marks) : Node :=
  .mk node.body marks node.repetition

def withRepetition (node : Node) (repetition : Repetition) : Node :=
  .mk node.body node.marks repetition

end Node

mutual

/-- The number of nodes in a tree, itself, everything inside it and its separators. -/
def Node.nodeCount : Node → Nat
  | .mk body _ repetition => 1 + body.nodeCount + repetition.nodeCount

def Body.nodeCount : Body → Nat
  | .block children => nodeCountOf children
  | .rule _ => 0
  | .reference _ => 0

def Repetition.nodeCount : Repetition → Nat
  | .once => 0
  | .times _ => 0
  | .separated _ separator => separator.nodeCount

def nodeCountOf : List Node → Nat
  | [] => 0
  | node :: rest => node.nodeCount + nodeCountOf rest

end

end PlainPattern
