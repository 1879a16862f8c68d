import PlainPattern.Proofs.OrderedChoice
import PlainPattern.Proofs.Placeholders
import PlainPattern.Proofs.Replacement

/-!
Contract: where every match captures the whole of itself, replacing it by that capture changes
nothing.

Owns: patterns that consist of one collected node (`CollectedWhole`), what their matches capture
(`captured_whole`), and the text that is written anew when every span is replaced by what stands in
it (`assembled_of_kept`). Names that collect again inside the node add nothing of their own, so the
capture of the outermost one is the text of the match, character for character.
-/

set_option autoImplicit false

namespace PlainPattern

/-- The pattern is a single node, which is matched once as it is and collected under this word. -/
structure CollectedWhole (pattern : Pattern) (node : Node) (name : String) : Prop where
  children_eq : pattern.children = [node]
  notNegated : node.negated = false
  once : node.repetition = .once
  collectAs_eq : node.collectAs = some name
  word : IsWord name

/-! ## Matches that capture the whole of themselves -/

/-- A cursor that has moved forward within the text has left characters behind. -/
theorem stretch_ne_nil {text : Array Char} {first last : Nat} (forward : first ≤ last)
    (bounded : last ≤ max first text.size) (moved : last ≠ first) :
    stretch text first last ≠ [] := by
  have inside : first < text.size := by omega
  rw [← stretch_append (Nat.le_succ first) (by omega : first + 1 ≤ last),
    stretch_succ (Array.getElem?_eq_getElem inside)]
  simp

namespace Evaluator

variable {text : Array Char} {entry after : State}

/-- A block of one child that consumes something has matched that child. -/
theorem matched_of_block_singleton {child : Branch} (lawful : Lawful text child.evaluator)
    (moved : after.position ≠ entry.position) (matched : block [child] entry = .answer true after) :
    child.evaluator entry = .answer true after := by
  cases forks : child.forks with
  | true =>
      -- A fork at the front is passed over, and nothing is consumed.
      rw [block, children_of_passed forks] at matched
      cases matched
      exact absurd rfl moved
  | false =>
      rw [block, children_of_tried (by rw [forks]; rfl)] at matched
      cases outcome : child.evaluator entry with
      | undecided error other =>
          rw [outcome] at matched
          cases matched
      | answer filled other =>
          rw [outcome] at matched
          simp only at matched
          cases filled with
          | true =>
              cases matched
              rfl
          | false =>
              -- An optional child that does not match consumes nothing either.
              have back := lawful.unmatched outcome
              cases optional : child.optional with
              | true =>
                  rw [optional] at matched
                  cases matched
                  exact absurd (congrArg State.position back) moved
              | false =>
                  rw [optional] at matched
                  cases matched

/-- What is collected from the start of a match on is all that it consumes. -/
theorem captured_of_collectingAs {evaluator : Evaluator} {name : String} {start : Nat}
    (lawful : Lawful text evaluator) (moved : after.position ≠ start)
    (matched : collectingAs (some name) evaluator (State.startingAt start) = .answer true after) :
    after.captured.get? name = some (String.ofList (stretch text start after.position)) := by
  have fresh : name ∉ (State.startingAt start).collecting := List.not_mem_nil
  rw [collectingAs_of_fresh fresh] at matched
  cases outcome : evaluator ((State.startingAt start).beginCapture name) with
  | undecided error inner =>
      rw [outcome] at matched
      cases matched
  | answer filled inner =>
      rw [outcome] at matched
      cases matched
      have consumes := lawful.matched outcome
      rw [State.beginCapture_of_fresh fresh] at consumes
      have gains := consumes.gains (List.nodup_cons.2 ⟨fresh, List.nodup_nil⟩)
      have notEmpty : stretch text start inner.position ≠ [] :=
        stretch_ne_nil consumes.position_le consumes.position_le_max moved
      calc inner.captured.get? name
          = extended none (stretch text start inner.position) :=
            gains.whole name List.mem_cons_self
        _ = some (String.ofList (stretch text start inner.position)) := by
            rw [extended_of_ne_nil none notEmpty]
            simp

end Evaluator

namespace Scene

variable {scene : Scene} {pattern : Pattern} {node : Node} {name : String}

theorem nodeWith_of_collected (collected : CollectedWhole pattern node name)
    (patterns : String → Evaluator) :
    scene.nodeWith patterns node =
      Evaluator.collectingAs (some name) (scene.bodyWith patterns node.body) := by
  rw [nodeWith_eq, collected.notNegated, repetitionsOf, collected.collectAs_eq, collected.once]
  rfl

/-- A match of a collected node captures the whole of its text. -/
theorem captured_whole (collected : CollectedWhole pattern node name) {start : Nat} {after : State}
    (matched : scene.pattern pattern (State.startingAt start) = .answer true after)
    (moved : after.position ≠ start) :
    after.captured.get? name = some (String.ofList (stretch scene.text start after.position)) := by
  rw [Scene.pattern, patternWith, collected.children_eq, branchesWith, branchesWith] at matched
  generalize scene.referenceDepth (State.startingAt start) = depth at matched
  have patterns := scene.patternTo_lawful depth
  have child := Evaluator.matched_of_block_singleton (scene.nodeWith_lawful patterns node) moved
    matched
  simp only at child
  rw [nodeWith_of_collected collected] at child
  exact Evaluator.captured_of_collectingAs (scene.bodyWith_lawful patterns node.body) moved child

end Scene

/-! ## Spans that are replaced by what stands in them -/

section Kept

variable {text : Array Char} {template : List Char} {schema : Schema} {options : Options}
  {pattern : Pattern}

/-- A text that is written anew with every span as it was is the old one. -/
theorem assembled_of_kept {first : Nat} {spans : List Span}
    (ordered : Ordered text.size first spans) (kept : ∀ span ∈ spans,
      Template.expand span.captured template = stretch text span.start span.stop) :
    assembled text template first spans = stretch text first text.size := by
  induction spans generalizing first with
  | nil => rfl
  | cons span later inductionHypothesis =>
      obtain ⟨notBefore, forward, laterOrdered⟩ := ordered
      obtain ⟨spanKept, laterKept⟩ := List.forall_mem_cons.1 kept
      have inside := laterOrdered.first_le_size
      rw [assembled, spanKept, inductionHypothesis laterOrdered laterKept,
        stretch_append notBefore forward, stretch_append (by omega) inside]

/-- What a replacement takes are matches of the pattern, each found in a fresh state. -/
theorem matched_of_takes {tracker next : Tracker} {spans : List Span}
    (resolved : schema.entryPattern options.entry = .ok pattern)
    (takes : tracker.Takes schema text options spans next) :
    ∀ span ∈ spans, ∃ after,
      Scene.pattern ⟨schema, text, options.supplied⟩ pattern (State.startingAt span.start) =
        .answer true after ∧ span = ⟨span.start, after.position, after.captured⟩ := by
  unfold Tracker.Takes at takes
  split at takes
  · induction takes with
    | ended nothing => simp
    | another found _ inductionHypothesis =>
        obtain ⟨after, _, matched, same⟩ := Tracker.leading_of_search (by exact resolved) found
        exact List.forall_mem_cons.2 ⟨⟨after, matched, same⟩, inductionHypothesis⟩
  · obtain ⟨found, answered, rfl⟩ := takes
    cases found with
    | none => simp
    | some span =>
        obtain ⟨after, _, matched, same⟩ := Tracker.leading_of_search (by exact resolved) answered
        simpa using ⟨after, matched, same⟩

end Kept

/-- Where a match is collected as a whole, and is never empty, it may be replaced by what it has
captured: the text is the same afterwards, for all matches as for the first alone. -/
theorem replacement_by_own_capture_changes_nothing (schema : Schema) (text : Array Char)
    (options : Options) {pattern : Pattern} {node : Node} {name : String}
    (resolved : schema.entryPattern options.entry = .ok pattern)
    (collected : CollectedWhole pattern node name)
    (neverErrs : Tracker.NeverErrs {} schema text
      { options with global := some (options.global.getD true) })
    (nonempty : ∀ spans next, Tracker.Takes {} schema text options spans next →
      ∀ span ∈ spans, span.start ≠ span.stop) :
    schema.replace text (Template.placeholder name) options = .ok (String.ofList text.toList) := by
  obtain ⟨spans, next, takes, replaced, ordered⟩ := Tracker.takes_of_neverErrs neverErrs
  have kept : ∀ span ∈ spans,
      Template.expand span.captured (Template.placeholder name).toList =
        stretch text span.start span.stop := by
    intro span member
    obtain ⟨after, matched, same⟩ := matched_of_takes resolved takes span member
    have stop : span.stop = after.position := congrArg Span.stop same
    have moved : after.position ≠ span.start := stop ▸ (nonempty spans next takes span member).symm
    have value := Scene.captured_whole collected matched moved
    have names : Template.Names span.captured name
        (String.ofList (stretch text span.start after.position)) := by
      refine ⟨collected.word, ?_⟩
      rw [same]
      exact value
    have expanded := Template.expand_placeholder names []
    rw [List.append_nil, Template.expand_nil, List.append_nil, String.toList_ofList] at expanded
    rw [expanded, stop]
  have written : spliceAll text.toList (Template.placeholder name).toList spans = text.toList := by
    rw [spliceAll_eq ordered, assembled_of_kept ordered kept, stretch_size]
    simp
  rw [Schema.replace, Tracker.replace, replaced]
  simp only [written]

/-- Two letters that are collected together, the first of them under the same name once more. -/
def doublyCollected : Node :=
  .mk (.block [.exactly "a" { collectAs := some "w" }, .exactly "b" {}])
    { collectAs := some "w" } .once

/-- A name that collects again inside its own node, and matches that meet: the text stays. -/
theorem touching_matches_are_put_back :
    CollectedWhole ⟨defaultEntry, [doublyCollected]⟩ doublyCollected "w" ∧
      (Schema.ofPattern [doublyCollected]).replace #['x', 'a', 'b', 'a', 'b']
        (Template.placeholder "w") {} = .ok "xabab" := by
  have collected : CollectedWhole ⟨defaultEntry, [doublyCollected]⟩ doublyCollected "w" :=
    ⟨rfl, rfl, rfl, rfl, by decide, List.all_eq_true.1 rfl⟩
  have resolved := Schema.entryPattern_ofPattern [doublyCollected]
  have neverErrs : Tracker.NeverErrs {} (Schema.ofPattern [doublyCollected])
      #['x', 'a', 'b', 'a', 'b'] { global := some true } := by
    refine Tracker.neverErrs_of_answers resolved ?_ {}
    intro start inside
    have small : start < 5 := inside
    obtain rfl | rfl | rfl | rfl | rfl :
        start = 0 ∨ start = 1 ∨ start = 2 ∨ start = 3 ∨ start = 4 := by omega
    all_goals exact ⟨_, _, rfl⟩
  have taken : Tracker.Takes {} (Schema.ofPattern [doublyCollected]) #['x', 'a', 'b', 'a', 'b'] {}
      [⟨1, 3, Bindings.ofPairs [("w", "ab")]⟩, ⟨3, 5, Bindings.ofPairs [("w", "ab")]⟩] {} :=
    .another rfl (.another rfl (.ended rfl))
  refine ⟨collected, ?_⟩
  refine replacement_by_own_capture_changes_nothing _ #['x', 'a', 'b', 'a', 'b'] {} resolved
    collected neverErrs ?_
  intro spans next again
  obtain ⟨rfl, rfl⟩ := taken.unique again
  simp

end PlainPattern
