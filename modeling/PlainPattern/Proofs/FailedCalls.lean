import PlainPattern.Proofs.Replacement

/-!
Contract: where a global call that ends in an error leaves the tracker.

Owns: `BreaksOff`, a row of calls up to the first that ends in an error, and the main result
`failed_calls_stop_behind_matches`. A single search that fails leaves the tracker where it was. A
replacement is a row of searches, and those that found something before the error have moved the
tracker already: it stays where it was exactly if the error comes before the first match.
-/

set_option autoImplicit false

namespace PlainPattern

/-- Calls of `find` on one text: these matches, and then an error. -/
inductive BreaksOff (schema : Schema) (text : Array Char) (options : Options) (error : MatchError) :
    Tracker → List Span → Tracker → Prop where
  | failed {tracker next : Tracker}
      (fails : tracker.find schema text options = (.error error, next)) :
      BreaksOff schema text options error tracker [] next
  | another {tracker middle next : Tracker} {span : Span} {later : List Span}
      (found : tracker.find schema text options = (.ok (some span), middle))
      (onward : BreaksOff schema text options error middle later next) :
      BreaksOff schema text options error tracker (span :: later) next

section Failure

variable {schema : Schema} {text : Array Char} {options : Options} {tracker next : Tracker}
  {error : MatchError} {spans : List Span}

/-! ## One search -/

namespace Tracker

/-- A global search that fails goes on next time where it began. -/
theorem eq_of_search_error
    (failed : tracker.search schema text options true = (.error error, next)) : next = tracker := by
  cases resolved : schema.entryPattern options.entry with
  | error missing =>
      simp only [search, resolved] at failed
      exact (congrArg Prod.snd failed).symm
  | ok pattern =>
      rw [search_eq tracker resolved] at failed
      split at failed
      · exact (congrArg Prod.snd failed).symm
      · cases failed
      · cases failed

theorem eq_of_find_error (isGlobal : options.global.getD false = true)
    (failed : tracker.find schema text options = (.error error, next)) : next = tracker := by
  rw [find, isGlobal] at failed
  exact eq_of_search_error failed

theorem find_error_of_test (failed : tracker.test schema text options = (.error error, next)) :
    tracker.find schema text options = (.error error, next) := by
  cases outcome : tracker.find schema text options with
  | mk answer behind =>
      cases answer with
      | ok found =>
          rw [test_of_find outcome] at failed
          cases failed
      | error _ =>
          rw [test_of_find_error outcome] at failed
          cases failed
          rfl

/-- A match that is found globally lies from the tracker on, and the tracker moves on behind its
start. -/
theorem moves_of_find {middle : Tracker} {span : Span} (isGlobal : options.global = some true)
    (found : tracker.find schema text options = (.ok (some span), middle)) :
    tracker.lastIndex ≤ span.start ∧ span.start < text.size ∧ middle = ⟨span.resumption⟩ ∧
      span.start < span.resumption := by
  obtain ⟨pattern, resolved⟩ := entryPattern_of_search found
  obtain ⟨⟨after, leading, matched, same⟩, goesOn⟩ := next_of_find resolved isGlobal found
  have forward : span.start ≤ span.stop := by
    rw [same]
    exact ((Scene.pattern_lawful _ pattern).bounds leading.inside matched).1
  exact ⟨leading.notBefore, leading.inside, goesOn, Span.start_lt_resumption forward⟩

end Tracker

/-! ## Rows of searches -/

/-- A search of a row is a global `find`; they read the same options otherwise. -/
theorem Tracker.search_of_find {outcome : Except MatchError (Option Span) × Tracker}
    (found : tracker.find schema text { options with global := some true } = outcome) :
    tracker.search schema text options true = outcome :=
  found

namespace BreaksOff

theorem length_le (isGlobal : options.global = some true)
    (breaksOff : BreaksOff schema text options error tracker spans next) :
    spans.length ≤ text.size - tracker.lastIndex := by
  induction breaksOff with
  | failed fails => exact Nat.zero_le _
  | another found _ inductionHypothesis =>
      obtain ⟨notBefore, inside, rfl, onward⟩ := Tracker.moves_of_find isGlobal found
      simp only [List.length_cons] at inductionHypothesis ⊢
      omega

/-- Behind the row the tracker stands at the resumption of the last match. -/
theorem lastIndex_eq (isGlobal : options.global = some true)
    (breaksOff : BreaksOff schema text options error tracker spans next) :
    next.lastIndex = (spans.getLast?.map Span.resumption).getD tracker.lastIndex := by
  induction breaksOff with
  | failed fails =>
      rw [Tracker.eq_of_find_error (by rw [isGlobal]; rfl) fails]
      rfl
  | @another tracker middle next span later found _ inductionHypothesis =>
      obtain ⟨_, _, rfl, _⟩ := Tracker.moves_of_find isGlobal found
      rw [inductionHypothesis, List.getLast?_cons]
      cases later.getLast? <;> rfl

/-- The tracker never goes back, and every match moves it. -/
theorem add_length_le (isGlobal : options.global = some true)
    (breaksOff : BreaksOff schema text options error tracker spans next) :
    tracker.lastIndex + spans.length ≤ next.lastIndex := by
  induction breaksOff with
  | failed fails =>
      rw [Tracker.eq_of_find_error (by rw [isGlobal]; rfl) fails]
      exact Nat.le_refl _
  | another found _ inductionHypothesis =>
      obtain ⟨notBefore, _, rfl, onward⟩ := Tracker.moves_of_find isGlobal found
      simp only [List.length_cons] at inductionHypothesis ⊢
      omega

theorem eq_tracker_iff (isGlobal : options.global = some true)
    (breaksOff : BreaksOff schema text options error tracker spans next) :
    next = tracker ↔ spans = [] := by
  constructor
  · rintro rfl
    have further := breaksOff.add_length_le isGlobal
    exact List.length_eq_zero_iff.1 (by omega)
  · rintro rfl
    cases breaksOff with
    | failed fails => exact Tracker.eq_of_find_error (by rw [isGlobal]; rfl) fails

/-- A row that breaks off does so by itself, however much longer it might have gone on. -/
theorem sweepTo_eq (breaksOff : BreaksOff schema text { options with global := some true } error
    tracker spans next) {limit : Nat} (enough : spans.length < limit) :
    Tracker.sweepTo schema text options limit tracker = ⟨spans, some error, next⟩ := by
  induction breaksOff generalizing limit with
  | failed fails =>
      obtain ⟨limit, rfl⟩ := Nat.exists_eq_succ_of_ne_zero (Nat.ne_of_gt enough)
      rw [Tracker.sweepTo, Tracker.search_of_find fails]
  | another found _ inductionHypothesis =>
      rw [List.length_cons] at enough
      obtain ⟨limit, rfl⟩ := Nat.exists_eq_succ_of_ne_zero (Nat.ne_of_gt (Nat.zero_lt_of_lt enough))
      rw [Tracker.sweepTo, Tracker.search_of_find found]
      simp only [inductionHypothesis (Nat.lt_of_succ_lt_succ enough)]

end BreaksOff

/-- A row of searches that fails has broken off behind the matches that it found. -/
theorem breaksOff_of_sweepTo {limit : Nat}
    (failed : (Tracker.sweepTo schema text options limit tracker).failure = some error) :
    BreaksOff schema text { options with global := some true } error tracker
      (Tracker.sweepTo schema text options limit tracker).spans
      (Tracker.sweepTo schema text options limit tracker).tracker := by
  induction limit generalizing tracker with
  | zero => cases failed
  | succ limit inductionHypothesis =>
      cases outcome : tracker.find schema text { options with global := some true } with
      | mk answer middle =>
          rw [Tracker.sweepTo, Tracker.search_of_find outcome] at failed ⊢
          cases answer with
          | error reason =>
              cases failed
              exact .failed outcome
          | ok found =>
              cases found with
              | none => cases failed
              | some span => exact .another outcome (inductionHypothesis failed)

theorem Tracker.replace_error_iff (isGlobal : options.global.getD true = true) (template : String) :
    tracker.replace schema text template options = (.error error, next) ↔
      ∃ spans, BreaksOff schema text { options with global := some true } error tracker spans
        next := by
  constructor
  · intro failed
    cases reason : (tracker.sweep schema text options).failure with
    | none =>
        simp only [replace, spansToReplace, isGlobal, if_true, reason] at failed
        cases failed
    | some other =>
        simp only [replace, spansToReplace, isGlobal, if_true, reason] at failed
        cases failed
        exact ⟨_, breaksOff_of_sweepTo reason⟩
  · rintro ⟨spans, breaksOff⟩
    have swept : tracker.sweep schema text options = ⟨spans, some error, next⟩ :=
      breaksOff.sweepTo_eq (Nat.lt_succ_of_le (breaksOff.length_le rfl))
    simp only [replace, spansToReplace, isGlobal, if_true, swept]

end Failure

/-- A global test or find that fails does not move the tracker. A global replacement fails exactly
if its searches break off, and then leaves the tracker behind the last match that they had found: it
has not moved exactly if they had found none. -/
theorem failed_calls_stop_behind_matches (tracker next : Tracker) (schema : Schema)
    (text : Array Char) (options : Options) (error : MatchError) :
    (options.global.getD false = true →
      (tracker.test schema text options = (.error error, next) → next = tracker) ∧
      (tracker.find schema text options = (.error error, next) → next = tracker)) ∧
    (options.global.getD true = true → ∀ template,
      (tracker.replace schema text template options = (.error error, next) ↔
        ∃ spans, BreaksOff schema text { options with global := some true } error tracker spans
          next)) ∧
    ∀ spans,
      BreaksOff schema text { options with global := some true } error tracker spans next →
        next.lastIndex = (spans.getLast?.map Span.resumption).getD tracker.lastIndex ∧
        (next = tracker ↔ spans = []) := by
  refine ⟨fun isGlobal => ⟨fun failed => ?_, Tracker.eq_of_find_error isGlobal⟩,
    fun isGlobal template => Tracker.replace_error_iff isGlobal template, fun spans breaksOff => ?_⟩
  · exact Tracker.eq_of_find_error isGlobal (Tracker.find_error_of_test failed)
  · exact ⟨breaksOff.lastIndex_eq rfl, breaksOff.eq_tracker_iff rfl⟩

/-- The letter `a`, or else the value of a variable. -/
def letterOrVariable : List Node :=
  [.exactly "a" {}, .mk (.rule ⟨true, [.valueOf "w"]⟩) { forks := true } .once]

/-- Behind a match of the letter the variable is asked for, and has no value: the replacement fails
with the tracker behind the letter, and a search from there fails without moving it. -/
theorem letter_is_passed_before_failure :
    let schema := Schema.ofPattern letterOrVariable
    BreaksOff schema #['a', 'b'] { global := some true } (.missingVariable "w") {} [⟨0, 1, ∅⟩] ⟨1⟩ ∧
      Tracker.replace {} schema #['a', 'b'] "-" {} = (.error (.missingVariable "w"), ⟨1⟩) ∧
      (⟨1⟩ : Tracker) ≠ {} ∧
      ∀ next error, Tracker.find ⟨1⟩ schema #['a', 'b'] { global := some true } =
        (.error error, next) → next = ⟨1⟩ := by
  intro schema
  have breaksOff : BreaksOff schema #['a', 'b'] { global := some true } (.missingVariable "w") {}
      [⟨0, 1, ∅⟩] ⟨1⟩ := .another rfl (.failed rfl)
  obtain ⟨_, replaced, leaves⟩ := failed_calls_stop_behind_matches {} ⟨1⟩ schema #['a', 'b'] {}
    (.missingVariable "w")
  refine ⟨breaksOff, (replaced rfl "-").2 ⟨_, breaksOff⟩, ?_, fun next error => ?_⟩
  · exact mt (leaves _ breaksOff).2.1 (List.cons_ne_nil _ _)
  · exact ((failed_calls_stop_behind_matches ⟨1⟩ next schema #['a', 'b'] { global := some true }
      error).1 rfl).2

/-- A replacement that fails behind a match has moved the tracker. -/
theorem failed_replacement_moves_tracker :
    let schema := Schema.ofPattern letterOrVariable
    ∃ error next, Tracker.replace {} schema #['a', 'b'] "-" { global := some true } =
        (.error error, next) ∧ next.lastIndex ≠ ({} : Tracker).lastIndex :=
  ⟨.missingVariable "w", ⟨1⟩, rfl, by decide⟩

end PlainPattern
