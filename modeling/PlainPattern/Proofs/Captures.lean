import PlainPattern.Proofs.Leftmost

/-!
Contract: what a match captures agrees with what it consumes.

Owns: `Agreement`, everything that holds between the states before and after a match, and the main
result `consumption_agrees_with_captures`: every evaluator that matches is in agreement, and so
every captured value of a match that is found is a part of its text.
-/

set_option autoImplicit false

namespace PlainPattern

/-- How the state behind a match agrees with the state before it. -/
structure Agreement (text : Array Char) (entry after : State) : Prop extends
    Gains text entry after where
  forward : entry.position ≤ after.position
  bounded : after.position ≤ max entry.position text.size
  noEmptyEntry : ∀ name, after.captured.get? name = some "" → entry.captured.get? name = some ""
  unmoved : after.position = entry.position → after.captured = entry.captured

/-- The names that collect are distinct if each of them began to collect in its turn. -/
theorem State.nodup_of_begun {entry : State} {names : List String}
    (begun : entry.collecting = (names.foldl State.beginCapture {}).collecting) :
    entry.collecting.Nodup := by
  have each : ∀ state : State, state.collecting.Nodup →
      (names.foldl State.beginCapture state).collecting.Nodup := by
    clear begun
    induction names with
    | nil => exact fun state distinct => distinct
    | cons name rest inductionHypothesis =>
        exact fun state distinct =>
          inductionHypothesis (state.beginCapture name) (state.nodup_beginCapture distinct name)
  rw [begun]
  exact each {} List.nodup_nil

theorem Consumes.agreement {text : Array Char} {entry after : State}
    (consumes : Consumes text entry after) (distinct : entry.collecting.Nodup) :
    Agreement text entry after := by
  have gains := consumes.gains distinct
  refine ⟨gains, consumes.position_le, consumes.position_le_max, ?_, gains.captured_eq⟩
  intro name empty
  obtain ⟨added, _, value⟩ := gains.part name
  exact eq_empty_of_extended_eq_empty (value.symm.trans empty)

/-- What a match captures from nothing is a part of the text that it consumes. -/
theorem Gains.value_of_fresh {text : Array Char} {start : Nat} {after : State} {name value : String}
    (gains : Gains text (State.startingAt start) after)
    (captured : after.captured.get? name = some value) :
    value ≠ "" ∧ value.toList.Sublist (stretch text start after.position) := by
  obtain ⟨added, sublist, gained⟩ := gains.part name
  rw [captured] at gained
  obtain ⟨notEmpty, same⟩ := of_extended_none_eq_some gained.symm
  exact ⟨notEmpty, same ▸ sublist⟩

/-- An evaluation that matches moves the cursor forward within the text. Names that were collecting
gain all of the text it passes, other names some of its characters, and none of them an empty value;
where the cursor stays, the captures stay as well. So no value in a match that is found is empty,
and each is a part of the text of the match. -/
theorem consumption_agrees_with_captures :
    (∀ (scene : Scene) (depth : Nat) (construct : Construct) (entry after : State)
      (names : List String), entry.collecting = (names.foldl State.beginCapture {}).collecting →
      scene.evaluatorTo depth construct entry = .answer true after →
        Agreement scene.text entry after) ∧
    (∀ (tracker next : Tracker) (schema : Schema) (text : Array Char) (options : Options)
      (span : Span), tracker.find schema text options = (.ok (some span), next) →
      ∀ name value, span.captured.get? name = some value →
        value ≠ "" ∧ value.toList.Sublist (span.text text).toList) := by
  constructor
  · intro scene depth construct entry after names begun matched
    have consumes := (scene.evaluatorTo_lawful depth construct).matched matched
    exact consumes.agreement (State.nodup_of_begun begun)
  · intro tracker next schema text options span found name value captured
    obtain ⟨pattern, resolved⟩ := Tracker.entryPattern_of_search found
    obtain ⟨after, _, matched, same⟩ := Tracker.leading_of_search resolved found
    have gains := ((Scene.pattern_lawful _ pattern).matched matched).gains List.nodup_nil
    rw [same] at captured
    rw [span.toList_text, show span.stop = after.position by rw [same]]
    exact gains.value_of_fresh captured

/-- What a capture inside another one collects is collected by both. -/
theorem nested_captures_agree :
    let block := Construct.block
      [.exactly "a" { collectAs := some "first" }, .exactly "b" { collectAs := some "outer" }]
    let captured : Bindings := Bindings.ofPairs [("first", "a"), ("outer", "ab")]
    (Scene.ofText "ab").evaluatorTo 0 block ⟨0, ∅, ["outer"]⟩ =
        .answer true ⟨2, captured, ["outer"]⟩ ∧
      Agreement (Scene.ofText "ab").text ⟨0, ∅, ["outer"]⟩ ⟨2, captured, ["outer"]⟩ := by
  intro block captured
  have matched : (Scene.ofText "ab").evaluatorTo 0 block ⟨0, ∅, ["outer"]⟩ =
      .answer true ⟨2, captured, ["outer"]⟩ := rfl
  exact ⟨matched, consumption_agrees_with_captures.1 _ 0 block _ _ ["outer"] rfl matched⟩

end PlainPattern
