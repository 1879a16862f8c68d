import PlainPattern.Proofs.Occurrences
import PlainPattern.Proofs.Views

/-!
Contract: a scene and the scene that a view shows of it.

Owns: what a criterion must not ask for to be clear of a view (`View.Clear`), the scene that is
shown (`Scene.through`), and that each evaluator of a scene is mirrored by the evaluator of what is
shown: those of charsets and patterns by induction on the depth to which names are followed, those
of nodes by induction on the tree. `pattern_mirrors` is what searches and single attempts rest on.

Does not own: what mirroring means, or that the combinators keep it. That is `Proofs.Views`.
-/

set_option autoImplicit false

namespace PlainPattern

open Evaluator

/-- The criterion asks for nothing that the view changes: for no value that it hides, and for the
start of the text only where the view does not move it. -/
def View.Clear (view : View) : Criterion → Prop
  | .valueOf name => view.hidden name = false
  | .endpoint .start => view.offset = 0
  | .literal _ | .range _ _ | .symbol _ | .endpoint .finish => True

theorem View.clear_of {view : View} {criteria : List Criterion}
    (unread : ∀ name, .valueOf name ∈ criteria → view.hidden name = false)
    (unmoved : .endpoint .start ∈ criteria → view.offset = 0) :
    ∀ criterion ∈ criteria, view.Clear criterion := by
  intro criterion member
  match criterion with
  | .valueOf name => exact unread name member
  | .endpoint .start => exact unmoved member
  | .literal _ | .range _ _ | .symbol _ | .endpoint .finish => trivial

/-- The scene as the view shows it: in another text, and without the captures that are hidden. -/
def Scene.through (scene : Scene) (view : View) (image : Array Char) : Scene where
  schema := scene.schema.withoutCaptures view.hidden
  text := image
  supplied := scene.supplied

namespace Scene

variable {scene : Scene} {view : View} {image : Array Char}
  (shows : view.Shows scene.text image)

/-! ## Criteria -/

include shows

theorem criterionWith_mirrors {charset other : String → Evaluator}
    (charsets : ∀ name, Mirrors view (charset name) (other name)) {criterion : Criterion}
    (clear : view.Clear criterion) :
    Mirrors view (scene.criterionWith charset criterion)
      ((scene.through view image).criterionWith other criterion) := by
  intro entry
  cases criterion with
  | literal text => exact exactly_mirrors shows text.toList entry
  | range low high => exact oneCharacter_mirrors shows _ entry
  | valueOf name =>
      have value : (view.state entry).value? (scene.through view image).supplied name =
          entry.value? scene.supplied name := View.value?_state clear entry scene.supplied
      simp only [criterionWith, value]
      split
      · exact exactly_mirrors shows _ entry
      · rfl
  | symbol name =>
      simp only [criterionWith]
      split
      · exact oneCharacter_mirrors shows _ entry
      · exact charsets name entry
  | endpoint endpoint =>
      cases endpoint with
      | start =>
          have unmoved : view.offset = 0 := clear
          have position : (view.state entry).position = entry.position := by
            simp [View.state, unmoved]
          simp only [criterionWith, position]
          rfl
      | finish =>
          exact congrArg (Outcome.answer · (view.state entry)) (shows.atEnd_state entry)

theorem criteriaWith_mirror {charset other : String → Evaluator}
    (charsets : ∀ name, Mirrors view (charset name) (other name)) {criteria : List Criterion}
    (clear : ∀ criterion ∈ criteria, view.Clear criterion) :
    List.Forall₂ (Mirrors view) (criteria.map (scene.criterionWith charset))
      (criteria.map ((scene.through view image).criterionWith other)) := by
  rw [List.forall₂_map_left_iff, List.forall₂_map_right_iff, List.forall₂_same]
  exact fun criterion member => criterionWith_mirrors shows charsets (clear criterion member)

variable (clear : ∀ criterion ∈ scene.schema.criteria, view.Clear criterion)

include clear

theorem charsetTo_mirrors (depth : Nat) (name : String) :
    Mirrors view (scene.charsetTo depth name)
      ((scene.through view image).charsetTo depth name) := by
  have looked : ∀ name, (scene.through view image).schema.charset name =
      scene.schema.charset name := Schema.charset_withoutCaptures
  induction depth generalizing name with
  | zero =>
      intro entry
      rw [charsetTo, charsetTo, looked]
      cases scene.schema.charset name <;> rfl
  | succ depth inductionHypothesis =>
      intro entry
      rw [charsetTo, charsetTo, looked]
      cases found : scene.schema.charset name with
      | error error => rfl
      | ok charset =>
          have inside : ∀ criterion ∈ charset.criteria, view.Clear criterion :=
            fun criterion member => clear criterion
              (Schema.mem_criteria_of_charset (Schema.charset_eq_ok_iff.1 found) member)
          exact firstOf_mirrors (criteriaWith_mirror shows inductionHypothesis inside) entry

theorem charset_mirrors (name : String) :
    Mirrors view (scene.charset name) ((scene.through view image).charset name) := by
  have size : (scene.through view image).schema.size = scene.schema.size :=
    Schema.size_withoutCaptures
  rw [Scene.charset, Scene.charset, size]
  exact charsetTo_mirrors shows clear scene.schema.size name

/-! ## Rules and nodes -/

theorem rule_mirrors {rule : Rule} (inside : ∀ criterion ∈ rule.criteria, view.Clear criterion) :
    Mirrors view (scene.rule rule) ((scene.through view image).rule rule) := by
  have each := criteriaWith_mirror shows (charset_mirrors shows clear) inside
  have atEnd : ∀ entry, (view.state entry).atEnd (scene.through view image).text =
      entry.atEnd scene.text := shows.atEnd_state
  intro entry
  unfold Scene.rule
  rw [atEnd]
  split
  · rfl
  · split
    · exact firstOf_mirrors each entry
    · exact stepUnless_mirrors shows each entry

end Scene

/-- A scene and what is shown of it, with evaluators of the patterns that are referred to by name:
the lawful ones of the scene are mirrored by the other ones. -/
structure Scene.Mirrored (scene : Scene) (view : View) (image : Array Char)
    (pattern other : String → Evaluator) : Prop where
  shows : view.Shows scene.text image
  clear : ∀ criterion ∈ scene.schema.criteria, view.Clear criterion
  lawful : ∀ name, Lawful scene.text (pattern name)
  mirrors : ∀ name, Mirrors view (pattern name) (other name)

namespace Scene

variable {scene : Scene} {view : View} {image : Array Char}

section Nodes

variable {pattern other : String → Evaluator}

/-! The induction on the tree: one step for each kind of node, body and repetition. What a node does
once is lawful, and so the name that it begins to collect is the one that stops. -/

mutual

theorem nodeWith_mirrors (mirrored : scene.Mirrored view image pattern other) : ∀ node : Node,
    (∀ rule ∈ node.rules, ∀ criterion ∈ rule.criteria, view.Clear criterion) →
    Mirrors view (scene.nodeWith pattern node)
      ((scene.through view image).nodeWith other (node.withoutCaptures view.hidden))
  | .mk body marks repetition, inside => by
      obtain ⟨inBody, inRepetition⟩ := List.forall_mem_append.1 inside
      have once := collectingAs_mirrors (scene.bodyWith_lawful mirrored.lawful body)
        (bodyWith_mirrors mirrored body inBody) marks.collectAs
      have whole := repetitionWith_mirrors mirrored once repetition inRepetition
      intro entry
      simp only [Node.withoutCaptures, nodeWith, Marks.withoutCapture]
      split
      · exact absent_mirrors whole entry
      · exact whole entry

theorem bodyWith_mirrors (mirrored : scene.Mirrored view image pattern other) : ∀ body : Body,
    (∀ rule ∈ body.rules, ∀ criterion ∈ rule.criteria, view.Clear criterion) →
    Mirrors view (scene.bodyWith pattern body)
      ((scene.through view image).bodyWith other (body.withoutCaptures view.hidden))
  | .block children, inside => block_mirrors (branchesWith_mirror mirrored children inside)
  | .rule rule, inside =>
      rule_mirrors mirrored.shows mirrored.clear (inside rule (List.mem_singleton_self rule))
  | .reference name, _ => mirrored.mirrors name

theorem repetitionWith_mirrors (mirrored : scene.Mirrored view image pattern other)
    {item otherItem : Evaluator} (items : Mirrors view item otherItem) : ∀ repetition : Repetition,
    (∀ rule ∈ repetition.rules, ∀ criterion ∈ rule.criteria, view.Clear criterion) →
    Mirrors view (scene.repetitionWith pattern item repetition)
      ((scene.through view image).repetitionWith other otherItem
        (repetition.withoutCaptures view.hidden))
  | .once, _ => items
  | .times _, _ => repeated_mirrors mirrored.shows items .none
  | .separated _ separator, inside => by
      have optional : (separator.withoutCaptures view.hidden).optional = separator.optional := by
        cases separator
        rfl
      simp only [repetitionWith, Repetition.withoutCaptures, optional]
      exact repeated_mirrors mirrored.shows items
        (.some separator.optional (nodeWith_mirrors mirrored separator inside))

theorem branchesWith_mirror (mirrored : scene.Mirrored view image pattern other) :
    ∀ nodes : List Node,
    (∀ rule ∈ rulesOf nodes, ∀ criterion ∈ rule.criteria, view.Clear criterion) →
    List.Forall₂ (Branch.Mirrors view) (scene.branchesWith pattern nodes)
      ((scene.through view image).branchesWith other (nodesWithoutCaptures view.hidden nodes))
  | [], _ => .nil
  | node :: rest, inside => by
      obtain ⟨inNode, inRest⟩ := List.forall_mem_append.1 inside
      refine .cons ⟨?_, ?_, nodeWith_mirrors mirrored node inNode⟩
        (branchesWith_mirror mirrored rest inRest)
      · cases node
        rfl
      · cases node
        rfl

end

/-! ## Patterns -/

theorem patternWith_mirrors (mirrored : scene.Mirrored view image pattern other) {name : String}
    {found : Pattern} (looked : scene.schema.pattern name = .ok found) :
    Mirrors view (scene.patternWith pattern found)
      ((scene.through view image).patternWith other (found.withoutCaptures view.hidden)) := by
  refine block_mirrors (branchesWith_mirror mirrored found.children ?_)
  exact fun rule inside criterion member => mirrored.clear criterion
    (Schema.mem_criteria_of_rule (Schema.pattern_eq_ok_iff.1 looked) inside member)

end Nodes

section Patterns

variable (shows : view.Shows scene.text image)
  (clear : ∀ criterion ∈ scene.schema.criteria, view.Clear criterion)

include shows

/-- The same depth is allowed on both sides, since as many places are left in the text. -/
theorem referenceDepth_through (entry : State) :
    (scene.through view image).referenceDepth (view.state entry) = scene.referenceDepth entry := by
  have patterns : (scene.through view image).schema.patterns.length =
      scene.schema.patterns.length := by
    simp [through, Schema.patterns_withoutCaptures]
  have nodes : (scene.through view image).schema.nodeCount = scene.schema.nodeCount :=
    Schema.nodeCount_withoutCaptures
  have remaining : (view.state entry).remaining (scene.through view image).text =
      entry.remaining scene.text := shows.remaining_state entry
  rw [referenceDepth, referenceDepth, patterns, nodes, remaining]

include clear

theorem patternTo_mirrors (depth : Nat) (name : String) :
    Mirrors view (scene.patternTo depth name)
      ((scene.through view image).patternTo depth name) := by
  have looked : ∀ name, (scene.through view image).schema.pattern name =
      (scene.schema.pattern name).map (Pattern.withoutCaptures view.hidden) :=
    Schema.pattern_withoutCaptures
  induction depth generalizing name with
  | zero =>
      intro entry
      rw [patternTo, patternTo, looked]
      cases scene.schema.pattern name <;> rfl
  | succ depth inductionHypothesis =>
      intro entry
      rw [patternTo, patternTo, looked]
      cases found : scene.schema.pattern name with
      | error error => rfl
      | ok pattern =>
          have lawful := scene.patternTo_lawful depth
          exact patternWith_mirrors ⟨shows, clear, lawful, inductionHypothesis⟩ found entry

theorem pattern_mirrors {name : String} {found : Pattern}
    (looked : scene.schema.pattern name = .ok found) :
    Mirrors view (scene.pattern found)
      ((scene.through view image).pattern (found.withoutCaptures view.hidden)) := by
  intro entry
  rw [Scene.pattern, Scene.pattern, referenceDepth_through shows]
  have mirrors := patternTo_mirrors shows clear (scene.referenceDepth entry)
  exact patternWith_mirrors ⟨shows, clear, scene.patternTo_lawful _, mirrors⟩ looked entry

end Patterns

end Scene

end PlainPattern
