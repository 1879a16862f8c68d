import PlainPattern.Source.Reading

/-!
Contract: from schema text to a compiled schema.

Owns: `compile` and the two ways in which it fails. The edits that a text spells out are applied to
an empty draft. The first edit that is refused decides the outcome, then the fault that ended the
reading, and only then whether the draft can be sealed: faults and refusals are found in the order
of the text.
-/

set_option autoImplicit false

namespace PlainPattern

inductive CompileError where
  /-- The text breaks a rule of the written language. -/
  | malformed (error : SyntaxError)
  /-- The text is well formed, but the tree it describes is not. -/
  | refused (refusal : Refusal)
deriving DecidableEq, Repr

def CompileError.message : CompileError → String
  | .malformed error => error.message
  | .refused refusal => refusal.message

/-- Applies what was read of a source. -/
def Reading.schema (reading : Reading) (source : List Char) : Except CompileError Schema :=
  match Draft.applyAll {} reading.edits with
  | .error refusal => .error (.refused refusal)
  | .ok draft =>
      match reading.fault with
      | some fault => .error (.malformed (SyntaxError.ofFault source fault))
      | none =>
          match draft.finish with
          | .ok schema => .ok schema
          | .error refusal => .error (.refused refusal)

def compile (source : String) : Except CompileError Schema :=
  (Reading.ofText source.toList).schema source.toList

end PlainPattern
