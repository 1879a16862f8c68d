import PlainPattern.Proofs.Leftmost
import PlainPattern.Proofs.MirroredScenes

/-!
Contract: captures whose values are never asked for do not change a search.

Owns: the view in which names are hidden and no place is moved, searches in a schema without the
hidden captures (`search_withoutCaptures`), and the main result `unread_captures_are_passive`. Each
attempt of a search begins in a state that looks the same through the view; so the two searches stop
at the same attempt.
-/

set_option autoImplicit false

namespace PlainPattern

/-- Names are hidden, and every place is seen where it is. -/
def View.hiding (hidden : String → Bool) : View :=
  ⟨0, hidden⟩

def Span.without (hidden : String → Bool) (span : Span) : Span :=
  { span with captured := span.captured.without hidden }

section Hiding

variable {schema : Schema} {hidden : String → Bool}

namespace View

theorem hiding_shows (hidden : String → Bool) (text : Array Char) :
    (View.hiding hidden).Shows text text where
  characters := by simp [View.hiding]
  size := rfl

theorem state_hiding_startingAt (hidden : String → Bool) (offset : Nat) :
    (View.hiding hidden).state (State.startingAt offset) = State.startingAt offset := by
  simp only [View.state, View.hiding, State.startingAt, Nat.zero_add]
  rfl

theorem position_state_hiding (hidden : String → Bool) (state : State) :
    ((View.hiding hidden).state state).position = state.position :=
  Nat.zero_add _

end View

/-! ## Searches -/

theorem firstMatch_mirrors {evaluator image : Evaluator}
    (mirrors : Evaluator.Mirrors (View.hiding hidden) evaluator image) (state : State)
    (offsets : List Nat) :
    firstMatch image state offsets =
      (firstMatch evaluator state offsets).map (Option.map (Span.without hidden)) := by
  induction offsets generalizing state with
  | nil => rfl
  | cons offset later inductionHypothesis =>
      have here := mirrors (State.startingAt offset)
      rw [View.state_hiding_startingAt] at here
      rw [firstMatch, firstMatch, State.reset_eq_startingAt, here]
      cases evaluator (State.startingAt offset) with
      | undecided error after => rfl
      | answer matched after =>
          cases matched with
          | true =>
              simp only [Outcome.mapState, View.position_state_hiding]
              rfl
          | false =>
              simp only [Outcome.mapState]
              rw [inductionHypothesis, firstMatch_state evaluator _ after]

namespace Schema

theorem entryPattern_withoutCaptures (entry : Option String) :
    (schema.withoutCaptures hidden).entryPattern entry =
      (schema.entryPattern entry).map (Pattern.withoutCaptures hidden) := by
  unfold Schema.entryPattern
  split
  · rw [pattern_withoutCaptures]
    cases schema.pattern _ <;> rfl
  · rw [pattern_withoutCaptures]
    cases schema.pattern defaultEntry <;> rfl

/-- The pattern that a search tries stands in the schema. -/
theorem exists_name_of_entryPattern {entry : Option String} {pattern : Pattern}
    (resolved : schema.entryPattern entry = .ok pattern) :
    ∃ name, schema.pattern name = .ok pattern := by
  unfold Schema.entryPattern at resolved
  split at resolved
  · split at resolved
    · cases resolved
      exact ⟨_, ‹_›⟩
    · cases resolved
  · split at resolved
    · cases resolved
      exact ⟨_, ‹_›⟩
    · cases resolved

end Schema

namespace Tracker

variable (unread : ∀ name, .valueOf name ∈ schema.criteria → hidden name = false)
  (text : Array Char) (options : Options) (tracker : Tracker)

include unread

/-- A search without the hidden captures ends where the search with them ends, in the same way. -/
theorem search_withoutCaptures (global : Bool) :
    tracker.search (schema.withoutCaptures hidden) text options global =
      (tracker.search schema text options global).map
        (Except.map (Option.map (Span.without hidden))) id := by
  cases resolved : schema.entryPattern options.entry with
  | error error =>
      have unresolved : (schema.withoutCaptures hidden).entryPattern options.entry =
          .error error := by
        rw [Schema.entryPattern_withoutCaptures, resolved]
        rfl
      simp only [search, resolved, unresolved]
      rfl
  | ok pattern =>
      have strippedResolved : (schema.withoutCaptures hidden).entryPattern options.entry =
          .ok (pattern.withoutCaptures hidden) := by
        rw [Schema.entryPattern_withoutCaptures, resolved]
        rfl
      obtain ⟨name, looked⟩ := Schema.exists_name_of_entryPattern resolved
      let scene : Scene := ⟨schema, text, options.supplied⟩
      have shows : (View.hiding hidden).Shows scene.text text := View.hiding_shows hidden text
      have clear : ∀ criterion ∈ scene.schema.criteria, (View.hiding hidden).Clear criterion :=
        View.clear_of unread fun _ => rfl
      have mirrors : Evaluator.Mirrors (View.hiding hidden) (scene.pattern pattern)
          (Scene.pattern ⟨schema.withoutCaptures hidden, text, options.supplied⟩
            (pattern.withoutCaptures hidden)) :=
        Scene.pattern_mirrors shows clear looked
      rw [tracker.search_eq strippedResolved, tracker.search_eq resolved,
        firstMatch_mirrors mirrors]
      rcases firstMatch (scene.pattern pattern) {}
        (offsetsFrom (tracker.beginning global) text) with error | _ | span
      all_goals rfl

theorem find_withoutCaptures :
    tracker.find (schema.withoutCaptures hidden) text options =
      (tracker.find schema text options).map (Except.map (Option.map (Span.without hidden))) id :=
  tracker.search_withoutCaptures unread text options _

theorem test_withoutCaptures :
    tracker.test (schema.withoutCaptures hidden) text options = tracker.test schema text options := by
  rw [test, test, tracker.find_withoutCaptures unread]
  rcases tracker.find schema text options with ⟨error | _ | span, next⟩
  all_goals rfl

end Tracker

end Hiding

/-- If no variable asks for a name that is hidden, whatever set of names that is, a schema in which
nothing collects under these names any more gives the same answers to a test, and finds the same
matches with the same errors; the trackers go on at the same place, and the captures differ in the
hidden names alone. -/
theorem unread_captures_are_passive (schema : Schema) (hidden : String → Bool)
    (unread : ∀ name, .valueOf name ∈ schema.criteria → hidden name = false) (text : Array Char)
    (options : Options) (tracker : Tracker) :
    let stripped := schema.withoutCaptures hidden
    let asked := tracker.find schema text options
    let answered := tracker.find stripped text options
    tracker.test stripped text options = tracker.test schema text options ∧
      answered.2 = asked.2 ∧
      (∀ error, answered.1 = .error error ↔ asked.1 = .error error) ∧
      (answered.1 = .ok none ↔ asked.1 = .ok none) ∧
      ∀ span, asked.1 = .ok (some span) → ∃ other, answered.1 = .ok (some other) ∧
        other.start = span.start ∧ other.stop = span.stop ∧
        ∀ name, other.captured.get? name =
          if hidden name then none else span.captured.get? name := by
  intro stripped asked answered
  have same : answered = asked.map (Except.map (Option.map (Span.without hidden))) id :=
    tracker.find_withoutCaptures unread text options
  refine ⟨tracker.test_withoutCaptures unread text options, ?_⟩
  rw [same]
  obtain ⟨outcome, next⟩ := asked
  refine ⟨rfl, ?_, ?_, ?_⟩
  · intro error
    cases outcome <;> simp [Except.map]
  · rcases outcome with error | _ | span <;> simp [Except.map]
  · rintro span rfl
    exact ⟨span.without hidden, rfl, rfl, rfl, fun name => Bindings.get?_without _ name⟩

/-- A capture inside another one, a row with a captured separator, and the value of the outer
capture once more. -/
def wordTwice : List Node :=
  [.mk (.block [.exactly "a" {}, .exactly "b" { collectAs := some "inner" }])
      { collectAs := some "outer" } .once,
    .mk (.rule ⟨true, [.literal "c"]⟩) {}
      (.separated ⟨1, none⟩ (.exactly "," { collectAs := some "gap" })),
    .mk (.rule ⟨true, [.valueOf "outer"]⟩) {} .once]

/-- Without the inner capture and that of the separator the match is the same, although the block
around the one of them is captured and its value is asked for. -/
theorem inner_capture_is_passive :
    let schema := Schema.ofPattern wordTwice
    let hidden : String → Bool := fun name => name == "inner" || name == "gap"
    let text : Array Char := #['x', 'a', 'b', 'c', ',', 'c', 'a', 'b']
    let captured : Bindings := Bindings.ofPairs [("outer", "ab"), ("inner", "b"), ("gap", ",")]
    (∀ name, .valueOf name ∈ schema.criteria → hidden name = false) ∧
      Tracker.find {} schema text {} = (.ok (some ⟨1, 8, captured⟩), ⟨8⟩) ∧
      ∃ other, (Tracker.find {} (schema.withoutCaptures hidden) text {}).1 = .ok (some other) ∧
        other.start = 1 ∧ other.stop = 8 ∧ other.captured.get? "outer" = some "ab" ∧
        other.captured.get? "inner" = none ∧ other.captured.get? "gap" = none := by
  intro schema hidden text captured
  have unread : ∀ name, .valueOf name ∈ schema.criteria → hidden name = false := by
    have criteria : schema.criteria = [.literal "a", .literal "b", .literal "c", .literal ",",
      .valueOf "outer"] := rfl
    intro name member
    obtain rfl : name = "outer" := by simpa [criteria] using member
    rfl
  have found : Tracker.find {} schema text {} = (.ok (some ⟨1, 8, captured⟩), ⟨8⟩) := by
    decide +kernel
  have passive := unread_captures_are_passive schema hidden unread text {} {}
  obtain ⟨other, answered, start, stop, values⟩ :=
    passive.2.2.2.2 ⟨1, 8, captured⟩ (by rw [found])
  exact ⟨unread, found, other, answered, start, stop, values "outer", values "inner", values "gap"⟩

end PlainPattern
