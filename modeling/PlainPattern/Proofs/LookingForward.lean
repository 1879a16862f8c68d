import PlainPattern.Proofs.Leftmost
import PlainPattern.Proofs.MirroredScenes

/-!
Contract: a match does not look at the text behind its cursor.

Owns: the view in which all places are moved and nothing is hidden, what it shows of the end of a
text, and the main result `matching_looks_forward`. The start of the text is the only thing that a
criterion can ask about a place itself; without it, what stands before the cursor may be cut off.
-/

set_option autoImplicit false

namespace PlainPattern

/-- Every place is seen further along by the offset, and no name is hidden. -/
def View.ahead (offset : Nat) : View :=
  ⟨offset, fun _ => false⟩

namespace View

theorem ahead_shows (text : Array Char) (offset : Nat) :
    (View.ahead offset).Shows (text.drop offset) text where
  characters := by
    intro place
    rw [Array.getElem?_extract, Nat.min_self]
    split
    · rfl
    · rename_i behind
      exact Array.getElem?_eq_none (show text.size ≤ offset + place by omega)
  size := by
    rw [Array.size_extract, Nat.min_self]
    rfl

theorem state_ahead (offset : Nat) :
    (View.ahead offset).state =
      fun state => { state with position := offset + state.position } := by
  funext state
  simp [View.state, View.ahead, Bindings.without_of_visible]

end View

theorem Scene.through_ahead (scene : Scene) (offset : Nat) (text : Array Char) :
    scene.through (View.ahead offset) text = { scene with text := text } := by
  rw [Scene.through, View.ahead, Schema.withoutCaptures_of_visible]

/-- In a schema that nowhere asks for the start of the text, a pattern comes to the same answer or
error from a cursor in a text as from the start of what stands behind that cursor, with the same
captures, whatever was captured and is collecting before; the cursors after it lie apart by what was
cut off. -/
theorem matching_looks_forward (schema : Schema) (noStart : .endpoint .start ∉ schema.criteria)
    {name : String} {pattern : Pattern} (found : schema.get? name = some (.pattern pattern))
    (text : Array Char) (offset : Nat) (captured supplied : Bindings) (collecting : List String) :
    let whole : Scene := ⟨schema, text, supplied⟩
    let rest : Scene := ⟨schema, text.drop offset, supplied⟩
    whole.pattern pattern ⟨offset, captured, collecting⟩ =
      (rest.pattern pattern ⟨0, captured, collecting⟩).mapState fun after =>
        { after with position := offset + after.position } := by
  intro whole rest
  have shows : (View.ahead offset).Shows rest.text text := View.ahead_shows text offset
  have clear : ∀ criterion ∈ rest.schema.criteria, (View.ahead offset).Clear criterion :=
    View.clear_of (fun _ _ => rfl) fun starts => absurd starts noStart
  have mirrors := Scene.pattern_mirrors shows clear (Schema.pattern_eq_ok_iff.2 found)
    ⟨0, captured, collecting⟩
  rw [Scene.through_ahead, View.state_ahead, View.ahead,
    Pattern.withoutCaptures_of_visible] at mirrors
  exact mirrors

/-- Pairs of letters with commas between them, up to the end of the text; the pairs are captured. -/
def pairsToTheEnd : List Node :=
  [.mk (.rule ⟨true, [.literal "ab"]⟩) { collectAs := some "pair" }
      (.separated ⟨2, none⟩ (.exactly "," {})),
    .mk (.rule ⟨true, [.endpoint .finish]⟩) {} .once]

/-- What is cut off is missing from the cursor and from nothing else: the capture that was there
before and the one that is still collecting go on alike. -/
theorem pairs_are_found_behind_a_cut :
    let schema := Schema.ofPattern pairsToTheEnd
    let pattern : Pattern := ⟨defaultEntry, pairsToTheEnd⟩
    let whole : Scene := ⟨schema, #['x', ',', 'a', 'b', ',', 'a', 'b'], ∅⟩
    let rest : Scene := ⟨schema, #['a', 'b', ',', 'a', 'b'], ∅⟩
    let before : Bindings := Bindings.ofPairs [("pair", "x")]
    let captured : Bindings := Bindings.ofPairs [("pair", "xabab"), ("outer", "ab,ab")]
    .endpoint .start ∉ schema.criteria ∧ schema.get? defaultEntry = some (.pattern pattern) ∧
      rest.pattern pattern ⟨0, before, ["outer"]⟩ = .answer true ⟨5, captured, ["outer"]⟩ ∧
      whole.pattern pattern ⟨2, before, ["outer"]⟩ = .answer true ⟨7, captured, ["outer"]⟩ := by
  intro schema pattern whole rest before captured
  have noStart : .endpoint .start ∉ schema.criteria := by decide
  have found : schema.get? defaultEntry = some (.pattern pattern) := rfl
  have behind : rest.pattern pattern ⟨0, before, ["outer"]⟩ =
      .answer true ⟨5, captured, ["outer"]⟩ := by
    decide +kernel
  have forward : whole.pattern pattern ⟨2, before, ["outer"]⟩ =
      (rest.pattern pattern ⟨0, before, ["outer"]⟩).mapState fun after =>
        { after with position := 2 + after.position } :=
    matching_looks_forward schema noStart found whole.text 2 before ∅ ["outer"]
  rw [behind] at forward
  exact ⟨noStart, found, behind, forward⟩

end PlainPattern
