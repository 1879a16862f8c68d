import PlainPattern.Proofs.Captures

/-!
Contract: an exclusive rule is the complement of the inclusive rule over the same criteria.

Owns: `Outcome.complement`, which turns what an attempt comes to into what comes of excluding it;
`stepUnless_eq_complement`, the step from one list of evaluators to the other; and the main result
`any_and_none_are_complementary`. Both rules stop at the same criterion, because a criterion that
does not match leaves the state in which the next one is tried.

Does not own: the end of the text, where a rule of either kind asks for nothing but its shape.
-/

set_option autoImplicit false

namespace PlainPattern

/-- What comes of excluding an attempt from `entry`: one character is stepped over if the attempt
does not match, and nothing is consumed if it does. -/
def Outcome.complement (text : Array Char) (entry : State) : Outcome → Outcome
  | .answer true _ => .answer false entry
  | .answer false _ => .answer true (entry.advance text)
  | .undecided error after => .undecided error after

namespace Outcome

variable {text : Array Char} {entry after : State} {outcome : Outcome}

theorem complement_eq_undecided_iff {error : MatchError} :
    outcome.complement text entry = .undecided error after ↔
      outcome = .undecided error after := by
  match outcome with
  | .answer true state | .answer false state | .undecided error state => simp [complement]

theorem complement_eq_unmatched_iff :
    outcome.complement text entry = .answer false after ↔
      (∃ state, outcome = .answer true state) ∧ after = entry := by
  match outcome with
  | .answer true state | .answer false state | .undecided error state =>
      simp [complement, eq_comm]

theorem complement_eq_matched_iff :
    outcome.complement text entry = .answer true after ↔
      (∃ state, outcome = .answer false state) ∧ after = entry.advance text := by
  match outcome with
  | .answer true state | .answer false state | .undecided error state =>
      simp [complement, eq_comm]

end Outcome

namespace Evaluator

variable {text : Array Char}

/-- The induction is on the evaluators: as long as they fail, both sides are back where they
began. -/
theorem stepUnless_eq_complement {evaluators : List Evaluator}
    (each : ∀ evaluator ∈ evaluators, Lawful text evaluator) (entry : State) :
    stepUnless text evaluators entry = (firstOf evaluators entry).complement text entry := by
  induction evaluators with
  | nil => rfl
  | cons evaluator others inductionHypothesis =>
      obtain ⟨headLawful, othersLawful⟩ := List.forall_mem_cons.1 each
      rw [stepUnless, firstOf]
      cases outcome : evaluator entry with
      | undecided error after => rfl
      | answer matched after =>
          cases matched with
          | true =>
              have sameCollecting := (headLawful.matched outcome).collecting_eq
              exact congrArg (Outcome.answer false)
                (State.restore_checkpoint_of_collecting sameCollecting)
          | false =>
              rw [headLawful.unmatched outcome]
              exact inductionHypothesis othersLawful

end Evaluator

namespace Scene

variable {scene : Scene} {entry : State}

theorem rule_inclusive (inside : entry.atEnd scene.text = false) (criteria : List Criterion) :
    scene.rule ⟨true, criteria⟩ entry =
      Evaluator.firstOf (criteria.map scene.criterion) entry := by
  simp [Scene.rule, inside]

theorem rule_exclusive (inside : entry.atEnd scene.text = false) (criteria : List Criterion) :
    scene.rule ⟨false, criteria⟩ entry =
      (scene.rule ⟨true, criteria⟩ entry).complement scene.text entry := by
  rw [rule_inclusive inside, ← Evaluator.stepUnless_eq_complement (scene.criteria_lawful criteria)]
  simp [Scene.rule, inside]

end Scene

/-- Inside the text, excluding a list of criteria is undecided exactly where asking for one of them
is, by the same error; it fails exactly where asking for one of them succeeds; and where it succeeds
it has stepped over one character, which every name that was collecting has gained, and no other. -/
theorem any_and_none_are_complementary (scene : Scene) (criteria : List Criterion) (entry : State)
    (names : List String)
    (begun : entry.collecting = (names.foldl State.beginCapture {}).collecting)
    (inside : entry.position < scene.text.size) :
    let asked := scene.rule ⟨true, criteria⟩ entry
    let excluded := scene.rule ⟨false, criteria⟩ entry
    (∀ error, (∃ after, excluded = .undecided error after) ↔
      ∃ after, asked = .undecided error after) ∧
    ((∃ after, excluded = .answer false after) ↔ ∃ after, asked = .answer true after) ∧
    ((∃ after, excluded = .answer true after) ↔ ∃ after, asked = .answer false after) ∧
    ∀ after, excluded = .answer true after →
      after.position = entry.position + 1 ∧ after.collecting = entry.collecting ∧
      ∀ name, after.captured.get? name =
        if name ∈ entry.collecting then
          extended (entry.captured.get? name) [scene.text[entry.position]]
        else entry.captured.get? name := by
  intro asked excluded
  have notAtEnd : entry.atEnd scene.text = false := by simpa [State.atEnd] using inside
  have complement : excluded = asked.complement scene.text entry :=
    Scene.rule_exclusive notAtEnd criteria
  rw [complement]
  refine ⟨?_, ?_, ?_, ?_⟩
  · exact fun error => exists_congr fun after => Outcome.complement_eq_undecided_iff
  · simp only [Outcome.complement_eq_unmatched_iff, exists_and_left, exists_eq, and_true]
  · simp only [Outcome.complement_eq_matched_iff, exists_and_left, exists_eq, and_true]
  · intro after matched
    obtain ⟨_, rfl⟩ := Outcome.complement_eq_matched_iff.1 matched
    have current : entry.current? scene.text = some scene.text[entry.position] :=
      Array.getElem?_eq_getElem inside
    refine ⟨State.position_advance_of_inside current, entry.advance_collecting scene.text, ?_⟩
    exact State.get?_captured_advance current (State.nodup_of_begun begun)

/-- Two charsets, one of which names the other. -/
def nestedCharsets : Schema :=
  ⟨((∅ : Table Symbol).insert "half" (.charset ⟨"half", [.range 'a' 'c', .symbol "few"]⟩)).insert
    "few" (.charset ⟨"few", [.literal "dot", .symbol "digit"]⟩)⟩

/-- A literal that breaks off behind its third character, a variable and a charset inside another
one are excluded: one character is consumed, and collected. Where the inner charset matches, nothing
is. -/
theorem long_literals_are_excluded :
    let criteria : List Criterion := [.literal "dogs", .valueOf "word", .symbol "half"]
    let scene : Scene := ⟨nestedCharsets, #['d', 'o', 'g', '7'], Bindings.ofPairs [("word", "do!")]⟩
    let entry : State := { collecting := ["outer"] }
    let behind : State := { position := 3, collecting := ["outer"] }
    entry.collecting = (["outer"].foldl State.beginCapture {}).collecting ∧
      entry.position < scene.text.size ∧ behind.position < scene.text.size ∧
      (∃ after, scene.rule ⟨true, criteria⟩ entry = .answer false after) ∧
      (∃ after, scene.rule ⟨false, criteria⟩ entry = .answer true after ∧ after.position = 1 ∧
        after.captured.get? "outer" = some "d") ∧
      ∃ after, scene.rule ⟨false, criteria⟩ behind = .answer false after := by
  intro criteria scene entry behind
  have begun : entry.collecting = (["outer"].foldl State.beginCapture {}).collecting := rfl
  have atFirst : entry.position < scene.text.size := by decide
  have atLast : behind.position < scene.text.size := by decide
  have here := any_and_none_are_complementary scene criteria entry ["outer"] begun atFirst
  have there := any_and_none_are_complementary scene criteria behind ["outer"] begun atLast
  obtain ⟨after, consumed⟩ : ∃ after, scene.rule ⟨false, criteria⟩ entry = .answer true after :=
    ⟨_, rfl⟩
  obtain ⟨moved, _, gained⟩ := here.2.2.2 after consumed
  exact ⟨begun, atFirst, atLast, here.2.2.1.1 ⟨after, consumed⟩,
    ⟨after, consumed, moved, gained "outer"⟩, there.2.1.2 ⟨_, rfl⟩⟩

end PlainPattern
