import PlainPattern.Proofs.Leftmost

/-!
Contract: finding globally, again and again, passes through all matches of a text and comes round.

Owns: `Enumerates`, a row of calls up to the first that finds nothing; `Exhausts`, what such a row
says about the attempts at the offsets of the text; and the main result `global_find_enumerates`.
The row ends because each match moves the tracker on, and its order comes from where each search
begins.
-/

set_option autoImplicit false

namespace PlainPattern

/-- Where a global search goes on: behind the match, and one further behind an empty one. -/
def Span.resumption (span : Span) : Nat :=
  if span.start = span.stop then span.stop + 1 else span.stop

/-- Calls of `find` on one text: these matches, and then none. -/
inductive Enumerates (schema : Schema) (text : Array Char) (options : Options) :
    Tracker → List Span → Tracker → Prop where
  | ended {tracker next : Tracker} (nothing : tracker.find schema text options = (.ok none, next)) :
      Enumerates schema text options tracker [] next
  | another {tracker middle next : Tracker} {span : Span} {later : List Span}
      (found : tracker.find schema text options = (.ok (some span), middle))
      (onward : Enumerates schema text options middle later next) :
      Enumerates schema text options tracker (span :: later) next

namespace Tracker

/-- The tracker after a number of calls of `find` on one text. -/
def afterFinds (schema : Schema) (text : Array Char) (options : Options) : Nat → Tracker → Tracker
  | 0, tracker => tracker
  | calls + 1, tracker => afterFinds schema text options calls (tracker.find schema text options).2

/-- However often `find` is called on one text, no call ends in an error. -/
def NeverErrs (tracker : Tracker) (schema : Schema) (text : Array Char) (options : Options) : Prop :=
  ∀ calls error,
    ((tracker.afterFinds schema text options calls).find schema text options).1 ≠ .error error

end Tracker

/-- Every span is a match, and no offset that would match is left out: none before the first, none
between the resumption behind a match and the next, and none behind the last. -/
def Exhausts (evaluator : Evaluator) (text : Array Char) : Nat → List Span → Prop
  | first, [] => FailsBetween evaluator first text.size
  | first, span :: later =>
      (∃ after, Leading evaluator text first span.start ∧
        evaluator (State.startingAt span.start) = .answer true after ∧
        span = ⟨span.start, after.position, after.captured⟩) ∧
      Exhausts evaluator text span.resumption later

/-! ## The order of the matches -/

section Order

variable {text : Array Char} {evaluator : Evaluator}

namespace Span

theorem stop_le_resumption (span : Span) : span.stop ≤ span.resumption := by
  unfold resumption
  split <;> omega

theorem start_lt_resumption {span : Span} (forward : span.start ≤ span.stop) :
    span.start < span.resumption := by
  unfold resumption
  split <;> omega

end Span

theorem bounds_of_exhausts (lawful : Evaluator.Lawful text evaluator) {first : Nat} {span : Span}
    {later : List Span} (exhausts : Exhausts evaluator text first (span :: later)) :
    first ≤ span.start ∧ span.start < text.size ∧ span.start ≤ span.stop := by
  obtain ⟨⟨after, leading, matched, same⟩, _⟩ := exhausts
  have forward := (lawful.bounds leading.inside matched).1
  rw [same]
  exact ⟨leading.notBefore, leading.inside, forward⟩

theorem length_le_of_exhausts (lawful : Evaluator.Lawful text evaluator) {first : Nat}
    {spans : List Span} (exhausts : Exhausts evaluator text first spans) :
    spans.length ≤ text.size - first := by
  induction spans generalizing first with
  | nil => exact Nat.zero_le _
  | cons span later inductionHypothesis =>
      obtain ⟨notBefore, inside, forward⟩ := bounds_of_exhausts lawful exhausts
      have onward := Span.start_lt_resumption forward
      have rest := inductionHypothesis exhausts.2
      rw [List.length_cons]
      omega

theorem first_le_of_exhausts (lawful : Evaluator.Lawful text evaluator) {first : Nat}
    {spans : List Span} (exhausts : Exhausts evaluator text first spans) :
    ∀ span ∈ spans, first ≤ span.start := by
  induction spans generalizing first with
  | nil => simp
  | cons head later inductionHypothesis =>
      obtain ⟨notBefore, _, forward⟩ := bounds_of_exhausts lawful exhausts
      intro span member
      rcases List.mem_cons.1 member with rfl | inLater
      · exact notBefore
      · have onward := Span.start_lt_resumption forward
        have behind := inductionHypothesis exhausts.2 span inLater
        omega

theorem pairwise_of_exhausts (lawful : Evaluator.Lawful text evaluator) {first : Nat}
    {spans : List Span} (exhausts : Exhausts evaluator text first spans) :
    spans.Pairwise fun earlier later =>
      earlier.start < later.start ∧ earlier.stop ≤ later.start := by
  induction spans generalizing first with
  | nil => exact List.Pairwise.nil
  | cons span later inductionHypothesis =>
      obtain ⟨_, _, forward⟩ := bounds_of_exhausts lawful exhausts
      refine List.pairwise_cons.2 ⟨fun other member => ?_, inductionHypothesis exhausts.2⟩
      have behind := first_le_of_exhausts lawful exhausts.2 other member
      exact ⟨Nat.lt_of_lt_of_le (Span.start_lt_resumption forward) behind,
        Nat.le_trans span.stop_le_resumption behind⟩

end Order

/-! ## Rows of calls -/

section Rows

variable {schema : Schema} {text : Array Char} {options : Options} {pattern : Pattern}

theorem Enumerates.unique {tracker next other : Tracker} {spans others : List Span}
    (enumerates : Enumerates schema text options tracker spans next)
    (again : Enumerates schema text options tracker others other) :
    others = spans ∧ other = next := by
  induction enumerates generalizing others with
  | ended nothing =>
      cases again with
      | ended nothingAgain =>
          rw [nothing] at nothingAgain
          cases nothingAgain
          exact ⟨rfl, rfl⟩
      | another found _ =>
          rw [nothing] at found
          cases found
  | another found _ inductionHypothesis =>
      cases again with
      | ended nothing =>
          rw [found] at nothing
          cases nothing
      | another foundAgain onwardAgain =>
          rw [found] at foundAgain
          cases foundAgain
          obtain ⟨sameLater, sameNext⟩ := inductionHypothesis onwardAgain
          exact ⟨by rw [sameLater], sameNext⟩

namespace Tracker

theorem NeverErrs.answers {tracker : Tracker} (neverErrs : tracker.NeverErrs schema text options) :
    ∃ found next, tracker.find schema text options = (.ok found, next) := by
  cases result : tracker.find schema text options with
  | mk outcome next =>
      cases outcome with
      | ok found => exact ⟨found, next, rfl⟩
      | error error => exact absurd (congrArg Prod.fst result) (neverErrs 0 error)

theorem NeverErrs.next {tracker next : Tracker} {found : Option Span}
    (neverErrs : tracker.NeverErrs schema text options)
    (answered : tracker.find schema text options = (.ok found, next)) :
    next.NeverErrs schema text options := by
  intro calls error
  have later := neverErrs (calls + 1) error
  rwa [afterFinds, answered] at later

/-- There are no errors if no attempt at an offset of the text ends in one. -/
theorem neverErrs_of_answers (resolved : schema.entryPattern options.entry = .ok pattern)
    (answers : ∀ start, start < text.size → ∃ matched after,
      Scene.pattern ⟨schema, text, options.supplied⟩ pattern (State.startingAt start) =
        .answer matched after) (tracker : Tracker) : tracker.NeverErrs schema text options := by
  intro calls error failed
  generalize tracker.afterFinds schema text options calls = reached at failed
  rw [find] at failed
  rcases leading_or_failing (Scene.pattern ⟨schema, text, options.supplied⟩ pattern) text
    (reached.beginning (options.global.getD false)) with
    ⟨start, leading, ⟨after, matched⟩ | ⟨error, after, undecided⟩⟩ | failing
  · rw [reached.search_of_match resolved leading matched] at failed
    cases failed
  · obtain ⟨matched, other, answered⟩ := answers start leading.inside
    rw [answered] at undecided
    cases undecided
  · rw [reached.search_of_failing resolved failing] at failed
    cases failed

section Global

variable (resolved : schema.entryPattern options.entry = .ok pattern)
  (isGlobal : options.global = some true)

include isGlobal

theorem find_eq_search (tracker : Tracker) :
    tracker.find schema text options = tracker.search schema text options true := by
  rw [find, isGlobal]
  rfl

include resolved

/-- A global call that finds nothing has seen all attempts fail, and starts afresh. -/
theorem failing_of_find {tracker next : Tracker}
    (nothing : tracker.find schema text options = (.ok none, next)) :
    FailsBetween (Scene.pattern ⟨schema, text, options.supplied⟩ pattern) tracker.lastIndex
      text.size ∧ next = {} := by
  rw [tracker.find_eq_search isGlobal] at nothing
  rcases leading_or_failing (Scene.pattern ⟨schema, text, options.supplied⟩ pattern) text
    tracker.lastIndex with ⟨start, leading, ⟨after, matched⟩ | ⟨error, after, undecided⟩⟩ | failing
  · rw [tracker.search_of_match resolved leading matched] at nothing
    cases nothing
  · rw [tracker.search_of_undecided resolved leading undecided] at nothing
    cases nothing
  · rw [tracker.search_of_failing resolved failing] at nothing
    cases nothing
    exact ⟨failing, rfl⟩

/-- A global call that finds a match goes on at its resumption. -/
theorem next_of_find {tracker next : Tracker} {span : Span}
    (found : tracker.find schema text options = (.ok (some span), next)) :
    (∃ after, Leading (Scene.pattern ⟨schema, text, options.supplied⟩ pattern) text
        tracker.lastIndex span.start ∧
      Scene.pattern ⟨schema, text, options.supplied⟩ pattern (State.startingAt span.start) =
        .answer true after ∧
      span = ⟨span.start, after.position, after.captured⟩) ∧
    next = ⟨span.resumption⟩ := by
  rw [tracker.find_eq_search isGlobal] at found
  obtain ⟨after, leading, matched, same⟩ := leading_of_search resolved found
  rw [tracker.search_of_match resolved leading matched] at found
  refine ⟨⟨after, leading, matched, same⟩, ?_⟩
  have goesOn := (congrArg Prod.snd found).symm
  have position : span.stop = after.position := congrArg Span.stop same
  rw [show next = _ from goesOn, Span.resumption, position]
  simp

end Global

end Tracker

theorem Enumerates.neverErrs {tracker next : Tracker} {spans : List Span}
    (enumerates : Enumerates schema text options tracker spans next)
    (neverErrs : tracker.NeverErrs schema text options) : next.NeverErrs schema text options := by
  induction enumerates with
  | ended nothing => exact neverErrs.next nothing
  | another found _ inductionHypothesis => exact inductionHypothesis (neverErrs.next found)

/-- A row of calls that does not end in an error ends with one that finds nothing. -/
theorem enumerates_of_neverErrs (resolved : schema.entryPattern options.entry = .ok pattern)
    (isGlobal : options.global = some true) {tracker : Tracker}
    (neverErrs : tracker.NeverErrs schema text options) :
    ∃ spans, Enumerates schema text options tracker spans {} ∧
      Exhausts (Scene.pattern ⟨schema, text, options.supplied⟩ pattern) text tracker.lastIndex
        spans := by
  obtain ⟨found, next, answered⟩ := neverErrs.answers
  cases found with
  | none =>
      obtain ⟨failing, rfl⟩ := Tracker.failing_of_find resolved isGlobal answered
      exact ⟨[], .ended answered, failing⟩
  | some span =>
      have laterErrs := neverErrs.next answered
      obtain ⟨⟨after, leading, matched, same⟩, rfl⟩ :=
        Tracker.next_of_find resolved isGlobal answered
      have forward : span.start ≤ span.stop := by
        rw [same]
        exact ((Scene.pattern_lawful _ pattern).bounds leading.inside matched).1
      -- An empty match moves the tracker on as well, so the text ahead gets shorter.
      have shorter : text.size - span.resumption < text.size - tracker.lastIndex := by
        have onward := Span.start_lt_resumption forward
        have notBefore := leading.notBefore
        have inside := leading.inside
        omega
      obtain ⟨later, enumerates, exhausts⟩ := enumerates_of_neverErrs resolved isGlobal laterErrs
      exact ⟨span :: later, .another answered enumerates, ⟨after, leading, matched, same⟩, exhausts⟩
termination_by text.size - tracker.lastIndex

end Rows

/-- Global calls of `find` on one text, none of which ends in an error, find finitely many matches
and then none. The matches stand in order, do not overlap and leave out no offset that would match.
The tracker is then as good as new, and the next round is that of a fresh one. -/
theorem global_find_enumerates (tracker : Tracker) (schema : Schema) (text : Array Char)
    (options : Options) (isGlobal : options.global = some true)
    (neverErrs : tracker.NeverErrs schema text options) :
    ∃ pattern spans next,
      schema.entryPattern options.entry = .ok pattern ∧
      Enumerates schema text options tracker spans next ∧
      (∀ others other, Enumerates schema text options tracker others other →
        others = spans ∧ other = next) ∧
      spans.length ≤ text.size - tracker.lastIndex ∧
      (spans.Pairwise fun earlier later =>
        earlier.start < later.start ∧ earlier.stop ≤ later.start) ∧
      Exhausts (Scene.pattern ⟨schema, text, options.supplied⟩ pattern) text tracker.lastIndex
        spans ∧
      next.lastIndex = 0 ∧
      ∃ again final, Enumerates schema text options next again final ∧
        Enumerates schema text options {} again final := by
  obtain ⟨found, middle, answered⟩ := neverErrs.answers
  obtain ⟨pattern, resolved⟩ := Tracker.entryPattern_of_search answered
  have lawful := Scene.pattern_lawful ⟨schema, text, options.supplied⟩ pattern
  obtain ⟨spans, enumerates, exhausts⟩ := enumerates_of_neverErrs resolved isGlobal neverErrs
  obtain ⟨again, fresh, _⟩ := enumerates_of_neverErrs resolved isGlobal
    (enumerates.neverErrs neverErrs)
  exact ⟨pattern, spans, {}, resolved, enumerates, fun _ _ => enumerates.unique,
    length_le_of_exhausts lawful exhausts, pairwise_of_exhausts lawful exhausts, exhausts, rfl,
    again, {}, fresh, fresh⟩

/-- Empty matches and others in a row: there are at most as many as characters. -/
theorem mixed_matches_enumerated :
    let children : List Node := [.exactly "x" { optional := true }]
    ∃ spans next, Enumerates (Schema.ofPattern children) #['a', 'x', 'b'] { global := some true } {}
      spans next ∧ spans.length ≤ 3 ∧ next.lastIndex = 0 := by
  intro children
  have neverErrs : Tracker.NeverErrs {} (Schema.ofPattern children) #['a', 'x', 'b']
      { global := some true } := by
    refine Tracker.neverErrs_of_answers (Schema.entryPattern_ofPattern children) ?_ {}
    intro start inside
    have small : start < 3 := inside
    obtain rfl | rfl | rfl : start = 0 ∨ start = 1 ∨ start = 2 := by omega
    all_goals exact ⟨true, _, rfl⟩
  obtain ⟨_, spans, next, _, enumerates, _, bounded, _, _, again, _⟩ :=
    global_find_enumerates {} (Schema.ofPattern children) #['a', 'x', 'b'] { global := some true }
      rfl neverErrs
  exact ⟨spans, next, enumerates, bounded, again⟩

end PlainPattern
