import PlainPattern.Schema.Node
import PlainPattern.Schema.Table

/-!
Contract: a compiled schema, which is a table of symbols.

Owns: patterns, charsets, symbols, the table that holds them, and the two lookups that fail with a
reason. A lookup of a pattern answers with a pattern exactly if the table holds one under that name
(`pattern_eq_ok_iff`), and likewise for charsets (`charset_eq_ok_iff`).
-/

set_option autoImplicit false

namespace PlainPattern

/-- A unit of matching; its children match one after another. -/
structure Pattern where
  name : String
  children : List Node

/-- Criteria under a name; the first that matches wins. -/
structure Charset where
  name : String
  criteria : List Criterion
deriving DecidableEq, Repr

inductive Symbol where
  | pattern (pattern : Pattern)
  | charset (charset : Charset)

/-- Why a name does not lead to a symbol of the wanted kind. -/
inductive LookupError where
  | unknown (name : String)
  | notAPattern (name : String)
  | notACharset (name : String)
deriving DecidableEq, Repr

def LookupError.message : LookupError → String
  | .unknown name => "Symbol '" ++ name ++ "' does not exist"
  | .notAPattern name => "Symbol '" ++ name ++ "' is not a pattern"
  | .notACharset name => "Symbol '" ++ name ++ "' is not a character set"

/-- All symbols of a schema by name. Patterns without a name of their own are numbered from `0`. -/
structure Schema where
  symbols : Table Symbol := ∅

namespace Schema

instance : EmptyCollection Schema := ⟨⟨∅⟩⟩

def get? (schema : Schema) (name : String) : Option Symbol :=
  schema.symbols.get? name

def names (schema : Schema) : List String :=
  schema.symbols.names

def size (schema : Schema) : Nat :=
  schema.symbols.size

def pattern (schema : Schema) (name : String) : Except LookupError Pattern :=
  match schema.get? name with
  | some (.pattern pattern) => .ok pattern
  | some (.charset _) => .error (.notAPattern name)
  | none => .error (.unknown name)

def charset (schema : Schema) (name : String) : Except LookupError Charset :=
  match schema.get? name with
  | some (.charset charset) => .ok charset
  | some (.pattern _) => .error (.notACharset name)
  | none => .error (.unknown name)

/-- The patterns of the schema, in the order of their names. -/
def patterns (schema : Schema) : List Pattern :=
  schema.symbols.entries.filterMap fun entry =>
    match entry.2 with
    | .pattern pattern => some pattern
    | .charset _ => none

def nodeCount (schema : Schema) : Nat :=
  nodeCountOf (schema.patterns.flatMap Pattern.children)

theorem pattern_eq_ok_iff {schema : Schema} {name : String} {pattern : Pattern} :
    schema.pattern name = .ok pattern ↔ schema.get? name = some (.pattern pattern) := by
  unfold Schema.pattern
  split <;> simp_all

theorem charset_eq_ok_iff {schema : Schema} {name : String} {charset : Charset} :
    schema.charset name = .ok charset ↔ schema.get? name = some (.charset charset) := by
  unfold Schema.charset
  split <;> simp_all

end Schema

end PlainPattern
