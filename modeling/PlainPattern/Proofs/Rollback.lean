import PlainPattern.Matching.Scene
import PlainPattern.Proofs.Consumption

/-!
Contract: an attempt that does not match leaves the state it found.

Owns: `Lawful`, the law of every attempt: a match consumes, a failure gives back the state as it
was, and an undecided attempt at least closes the captures it opened. Each combinator keeps the law,
so by induction on the tree every evaluator of a scene has it, at every depth to which names are
followed. `failure_rolls_back` is the law in terms of cursor, captures and collecting names.
-/

set_option autoImplicit false

namespace PlainPattern

/-- What an attempt from `entry` may come to. -/
def Outcome.LawfulFrom (text : Array Char) (entry : State) : Outcome → Prop
  | .answer true after => Consumes text entry after
  | .answer false after => after = entry
  | .undecided _ after => after.collecting = entry.collecting

namespace State

theorem restore_checkpoint_of_collecting {entry after : State}
    (sameCollecting : after.collecting = entry.collecting) :
    after.restore entry.checkpoint = entry := by
  rw [restore, sameCollecting]
  rfl

end State

namespace Evaluator

def Lawful (text : Array Char) (evaluator : Evaluator) : Prop :=
  ∀ entry, (evaluator entry).LawfulFrom text entry

namespace Lawful

variable {text : Array Char} {evaluator : Evaluator} {entry after : State}

theorem matched (lawful : Lawful text evaluator) (outcome : evaluator entry = .answer true after) :
    Consumes text entry after := by
  have law := lawful entry
  rwa [outcome] at law

theorem unmatched (lawful : Lawful text evaluator)
    (outcome : evaluator entry = .answer false after) : after = entry := by
  have law := lawful entry
  rwa [outcome] at law

theorem undecided {error : MatchError} (lawful : Lawful text evaluator)
    (outcome : evaluator entry = .undecided error after) : after.collecting = entry.collecting := by
  have law := lawful entry
  rwa [outcome] at law

/-- Whether it matches or not, an answer is reached by consuming. -/
theorem answered {matched : Bool} (lawful : Lawful text evaluator)
    (outcome : evaluator entry = .answer matched after) : Consumes text entry after := by
  cases matched with
  | true => exact lawful.matched outcome
  | false =>
      rw [lawful.unmatched outcome]
      exact .nothing entry

/-- However an attempt ends, the same names collect after it. -/
theorem collecting_eq (lawful : Lawful text evaluator) (entry : State) :
    (evaluator entry).after.collecting = entry.collecting := by
  cases outcome : evaluator entry with
  | answer matched after => exact (lawful.answered outcome).collecting_eq
  | undecided error after => exact lawful.undecided outcome

end Lawful

/-! ## Combinators -/

section Combinators

variable {text : Array Char}

theorem consumes_of_consume? {expected : List Char} {entry after : State}
    (found : consume? text expected entry = some after) : Consumes text entry after := by
  induction expected generalizing entry with
  | nil =>
      cases found
      exact .nothing after
  | cons character rest inductionHypothesis =>
      unfold consume? at found
      split at found
      · exact .andThen (.character entry) (inductionHypothesis found)
      · cases found

theorem exactly_lawful (expected : List Char) : Lawful text (exactly text expected) := by
  intro entry
  unfold exactly
  split
  · rename_i found
    exact consumes_of_consume? found
  · rfl

theorem oneCharacter_lawful (test : Char → Bool) : Lawful text (oneCharacter text test) := by
  intro entry
  unfold oneCharacter
  split
  · split
    · exact .character entry
    · rfl
  · rfl

theorem firstOf_lawful {evaluators : List Evaluator}
    (each : ∀ evaluator ∈ evaluators, Lawful text evaluator) :
    Lawful text (firstOf evaluators) := by
  intro entry
  induction evaluators with
  | nil => rfl
  | cons evaluator others inductionHypothesis =>
      have headLawful := each evaluator (by simp)
      unfold firstOf
      split
      · rename_i outcome
        exact headLawful.matched outcome
      · rename_i outcome
        rw [headLawful.unmatched outcome]
        exact inductionHypothesis fun other member => each other (by simp [member])
      · rename_i outcome
        exact headLawful.undecided outcome

theorem stepUnless_lawful {evaluators : List Evaluator}
    (each : ∀ evaluator ∈ evaluators, Lawful text evaluator) :
    Lawful text (stepUnless text evaluators) := by
  intro entry
  induction evaluators with
  | nil => exact .character entry
  | cons evaluator others inductionHypothesis =>
      have headLawful := each evaluator (by simp)
      unfold stepUnless
      split
      · rename_i outcome
        exact State.restore_checkpoint_of_collecting (headLawful.matched outcome).collecting_eq
      · rename_i outcome
        rw [headLawful.unmatched outcome, State.restore_checkpoint]
        exact inductionHypothesis fun other member => each other (by simp [member])
      · rename_i outcome
        exact headLawful.undecided outcome

/-- Where the absence of something matches, it consumes nothing. -/
theorem eq_of_absent {evaluator : Evaluator} (lawful : Lawful text evaluator) {entry after : State}
    {matched : Bool} (outcome : absent evaluator entry = .answer matched after) :
    after = entry := by
  unfold absent at outcome
  split at outcome
  · rename_i inner
    cases outcome
    exact State.restore_checkpoint_of_collecting (lawful.answered inner).collecting_eq
  · cases outcome

theorem absent_lawful {evaluator : Evaluator} (lawful : Lawful text evaluator) :
    Lawful text (absent evaluator) := by
  intro entry
  cases outcome : absent evaluator entry with
  | answer matched after =>
      have same := eq_of_absent lawful outcome
      subst same
      cases matched with
      | true => exact .nothing after
      | false => rfl
  | undecided error after =>
      unfold absent at outcome
      split at outcome
      · cases outcome
      · rename_i inner
        cases outcome
        exact lawful.undecided inner

theorem collectingAs_of_collecting {evaluator : Evaluator} {entry : State} {name : String}
    (collecting : name ∈ entry.collecting) :
    collectingAs (some name) evaluator entry = evaluator entry :=
  if_pos collecting

theorem collectingAs_of_fresh {evaluator : Evaluator} {entry : State} {name : String}
    (fresh : name ∉ entry.collecting) :
    collectingAs (some name) evaluator entry =
      (evaluator (entry.beginCapture name)).mapState State.endCapture :=
  if_neg fresh

theorem collectingAs_lawful {evaluator : Evaluator} (name : Option String)
    (lawful : Lawful text evaluator) : Lawful text (collectingAs name evaluator) := by
  intro entry
  cases name with
  | none => exact lawful entry
  | some name =>
      by_cases collecting : name ∈ entry.collecting
      · rw [collectingAs_of_collecting collecting]
        exact lawful entry
      · rw [collectingAs_of_fresh collecting]
        have begun := State.beginCapture_of_fresh collecting
        cases outcome : evaluator (entry.beginCapture name) with
        | answer matched after =>
            cases matched with
            | true => exact .collected collecting (lawful.matched outcome)
            | false =>
                show after.endCapture = entry
                rw [lawful.unmatched outcome, begun]
                rfl
        | undecided error after =>
            show after.collecting.tail = entry.collecting
            rw [lawful.undecided outcome, begun]
            rfl

/-! ### Blocks -/

/-- `start` is the state in which the block began; `state` has come from there. -/
theorem children_lawful {start : State} {branches : List Branch}
    (each : ∀ branch ∈ branches, Lawful text branch.evaluator) (filled : Bool) (state : State)
    (reached : Consumes text start state) :
    (children start.checkpoint filled branches state).LawfulFrom text start := by
  have given : state.restore start.checkpoint = start :=
    State.restore_checkpoint_of_collecting reached.collecting_eq
  fun_induction children start.checkpoint filled branches state with
  | case1 state => exact reached
  | case2 state => exact given
  -- A fork of a child that has matched is passed over.
  | case3 child rest state forks inductionHypothesis =>
      exact inductionHypothesis (fun branch member => each branch (by simp [member])) reached given
  -- A child has failed and no fork follows it.
  | case4 child rest state _ => exact given
  | case5 filled child rest state matched after outcome _ _ inductionHypothesis =>
      have onward := reached.andThen ((each child (by simp)).answered outcome)
      exact inductionHypothesis (fun branch member => each branch (by simp [member])) onward
        (State.restore_checkpoint_of_collecting onward.collecting_eq)
  | case6 filled child rest state error after outcome _ _ =>
      exact ((each child (by simp)).undecided outcome).trans reached.collecting_eq

theorem block_lawful {branches : List Branch}
    (each : ∀ branch ∈ branches, Lawful text branch.evaluator) : Lawful text (block branches) :=
  fun entry => children_lawful each true entry (.nothing entry)

/-! ### Repeats -/

/-- What may stand behind an item of a repeat. -/
def Gap.LawfulFrom (text : Array Char) (entry : State) : Gap → Prop
  | .onward after => Consumes text entry after
  | .ended after => after = entry
  | .undecided _ after => after.collecting = entry.collecting

theorem gap_lawful {separator : Option Separator}
    (lawful : ∀ found ∈ separator, Lawful text found.evaluator) (state : State) :
    (gap separator state).LawfulFrom text state := by
  cases separator with
  | none => exact .nothing state
  | some separator =>
      have separatorLawful := lawful separator rfl
      simp only [gap]
      split
      · rename_i outcome
        exact separatorLawful.matched outcome
      · rename_i outcome
        rw [separatorLawful.unmatched outcome, State.restore_checkpoint]
        split
        · exact .nothing state
        · rfl
      · rename_i outcome
        exact separatorLawful.undecided outcome

theorem conclude_lawful {start state : State} (bounds : Bounds) (count : Nat)
    (reached : Consumes text start state) :
    (conclude bounds start.checkpoint count state).LawfulFrom text start := by
  unfold conclude
  split
  · exact reached
  · exact State.restore_checkpoint_of_collecting reached.collecting_eq

/-- `start` is the state in which the repeat began, `state` has come from there, and so has the
state behind the last item, to which a repeat goes back if the separator is followed by none. -/
theorem repeatFrom_lawful {bounds : Bounds} {separator : Option Separator} {item : Evaluator}
    {start : State} (itemLawful : Lawful text item)
    (separatorLawful : ∀ found ∈ separator, Lawful text found.evaluator) (count : Nat)
    (beforeGap : Option Checkpoint) (state : State) (reached : Consumes text start state)
    (reachedBefore : ∀ before ∈ beforeGap, ∃ back : State,
      back.checkpoint = before ∧ Consumes text start back) :
    (repeatFrom text bounds separator item start.checkpoint count beforeGap state).LawfulFrom
      text start := by
  fun_induction repeatFrom text bounds separator item start.checkpoint count beforeGap state with
  | case1 count beforeGap state error after outcome =>
      exact (itemLawful.undecided outcome).trans reached.collecting_eq
  -- No further item, and no separator before it that would have to be given back.
  | case2 count state after outcome =>
      rw [itemLawful.unmatched outcome]
      exact conclude_lawful bounds count reached
  -- No item behind a separator: the separator is given back.
  | case3 count state after outcome before =>
      obtain ⟨back, rfl, backReached⟩ := reachedBefore before rfl
      have sameCollecting : state.collecting = back.collecting :=
        reached.collecting_eq.trans backReached.collecting_eq.symm
      rw [itemLawful.unmatched outcome, State.restore_checkpoint_of_collecting sameCollecting]
      exact conclude_lawful bounds count backReached
  | case4 count beforeGap state matched outcome _ =>
      exact reached.andThen (itemLawful.matched outcome)
  | case5 count beforeGap state matched outcome _ error after behind =>
      have law := gap_lawful separatorLawful matched
      rw [behind] at law
      exact law.trans (reached.andThen (itemLawful.matched outcome)).collecting_eq
  | case6 count beforeGap state matched outcome _ after behind =>
      have law := gap_lawful separatorLawful matched
      rw [behind] at law
      rw [show after = matched from law]
      exact conclude_lawful bounds (count + 1) (reached.andThen (itemLawful.matched outcome))
  | case7 count beforeGap state matched outcome _ after behind _ inductionHypothesis =>
      have law := gap_lawful separatorLawful matched
      rw [behind] at law
      have matchedReached := reached.andThen (itemLawful.matched outcome)
      refine inductionHypothesis (matchedReached.andThen law) ?_
      intro before member
      obtain ⟨_, _, rfl⟩ := Option.map_eq_some_iff.1 member
      exact ⟨matched, rfl, matchedReached⟩
  | case8 count beforeGap state matched outcome _ after behind _ =>
      have law := gap_lawful separatorLawful matched
      rw [behind] at law
      exact conclude_lawful bounds _ ((reached.andThen (itemLawful.matched outcome)).andThen law)

theorem repeated_lawful {bounds : Bounds} {separator : Option Separator} {item : Evaluator}
    (itemLawful : Lawful text item)
    (separatorLawful : ∀ found ∈ separator, Lawful text found.evaluator) :
    Lawful text (repeated text bounds separator item) :=
  fun entry => repeatFrom_lawful itemLawful separatorLawful 0 none entry (.nothing entry) (by simp)

end Combinators

end Evaluator

/-! ## The evaluators of a scene -/

namespace Scene

open Evaluator

variable (scene : Scene)

theorem criterionWith_lawful {charset : String → Evaluator}
    (lawful : ∀ name, Lawful scene.text (charset name)) (criterion : Criterion) :
    Lawful scene.text (scene.criterionWith charset criterion) := by
  intro entry
  cases criterion with
  | literal text => exact exactly_lawful text.toList entry
  | valueOf name =>
      simp only [criterionWith]
      split
      · exact exactly_lawful _ entry
      · rfl
  | range low high => exact oneCharacter_lawful _ entry
  | symbol name =>
      simp only [criterionWith]
      split
      · exact oneCharacter_lawful _ entry
      · exact lawful name entry
  | endpoint endpoint =>
      cases endpoint with
      | start =>
          show Outcome.LawfulFrom scene.text entry (.answer (entry.position == 0) entry)
          cases entry.position == 0 with
          | true => exact .nothing entry
          | false => rfl
      | finish =>
          show Outcome.LawfulFrom scene.text entry (.answer (entry.atEnd scene.text) entry)
          cases entry.atEnd scene.text with
          | true => exact .nothing entry
          | false => rfl

theorem criteriaWith_lawful {charset : String → Evaluator}
    (lawful : ∀ name, Lawful scene.text (charset name)) (criteria : List Criterion) :
    ∀ evaluator ∈ criteria.map (scene.criterionWith charset), Lawful scene.text evaluator := by
  intro evaluator member
  obtain ⟨criterion, _, rfl⟩ := List.mem_map.1 member
  exact scene.criterionWith_lawful lawful criterion

theorem charsetWith_lawful {charset : String → Evaluator}
    (lawful : ∀ name, Lawful scene.text (charset name)) (found : Charset) :
    Lawful scene.text (scene.charsetWith charset found) :=
  firstOf_lawful (scene.criteriaWith_lawful lawful found.criteria)

theorem charsetTo_lawful (depth : Nat) (name : String) :
    Lawful scene.text (scene.charsetTo depth name) := by
  induction depth generalizing name with
  | zero =>
      intro entry
      unfold charsetTo
      split <;> rfl
  | succ depth inductionHypothesis =>
      intro entry
      unfold charsetTo
      split
      · rfl
      · exact scene.charsetWith_lawful inductionHypothesis _ entry

theorem criteria_lawful (criteria : List Criterion) :
    ∀ evaluator ∈ criteria.map scene.criterion, Lawful scene.text evaluator :=
  scene.criteriaWith_lawful (scene.charsetTo_lawful scene.schema.size) criteria

theorem rule_lawful (rule : Rule) : Lawful scene.text (scene.rule rule) := by
  have each := scene.criteria_lawful rule.criteria
  intro entry
  unfold Scene.rule
  split
  · cases decide (rule.criteria = [.endpoint .finish]) with
    | true => exact .nothing entry
    | false => rfl
  · split
    · exact firstOf_lawful each entry
    · exact stepUnless_lawful each entry

section Nodes

variable {pattern : String → Evaluator}

/-! The induction on the tree: one step for each kind of node, body and repetition. -/

mutual

theorem nodeWith_lawful (lawful : ∀ name, Lawful scene.text (pattern name)) :
    ∀ node : Node, Lawful scene.text (scene.nodeWith pattern node)
  | .mk body marks repetition => by
      have once := collectingAs_lawful marks.collectAs (bodyWith_lawful lawful body)
      have whole := repetitionWith_lawful lawful once repetition
      intro entry
      simp only [nodeWith]
      split
      · exact absent_lawful whole entry
      · exact whole entry

theorem bodyWith_lawful (lawful : ∀ name, Lawful scene.text (pattern name)) :
    ∀ body : Body, Lawful scene.text (scene.bodyWith pattern body)
  | .block children => block_lawful (branchesWith_lawful lawful children)
  | .rule rule => scene.rule_lawful rule
  | .reference name => lawful name

theorem repetitionWith_lawful (lawful : ∀ name, Lawful scene.text (pattern name))
    {item : Evaluator} (itemLawful : Lawful scene.text item) :
    ∀ repetition : Repetition,
      Lawful scene.text (scene.repetitionWith pattern item repetition)
  | .once => itemLawful
  | .times bounds => repeated_lawful itemLawful (by simp)
  | .separated bounds separator => by
      refine repeated_lawful itemLawful fun found member => ?_
      obtain rfl := Option.mem_some.1 member
      exact nodeWith_lawful lawful separator

theorem branchesWith_lawful (lawful : ∀ name, Lawful scene.text (pattern name)) :
    ∀ (nodes : List Node), ∀ branch ∈ scene.branchesWith pattern nodes,
      Lawful scene.text branch.evaluator
  | [], _, member => by simp [branchesWith] at member
  | node :: rest, branch, member => by
      rcases List.mem_cons.1 member with rfl | inRest
      · exact nodeWith_lawful lawful node
      · exact branchesWith_lawful lawful rest branch inRest

end

theorem patternWith_lawful (lawful : ∀ name, Lawful scene.text (pattern name)) (found : Pattern) :
    Lawful scene.text (scene.patternWith pattern found) :=
  block_lawful (scene.branchesWith_lawful lawful found.children)

end Nodes

theorem patternTo_lawful (depth : Nat) (name : String) :
    Lawful scene.text (scene.patternTo depth name) := by
  induction depth generalizing name with
  | zero =>
      intro entry
      unfold patternTo
      split <;> rfl
  | succ depth inductionHypothesis =>
      intro entry
      unfold patternTo
      split
      · rfl
      · exact scene.patternWith_lawful inductionHypothesis _ entry

/-- The repetitions of a node, without regard to its negation. -/
def repetitionsOf (pattern : String → Evaluator) (node : Node) : Evaluator :=
  scene.repetitionWith pattern
    (collectingAs node.collectAs (scene.bodyWith pattern node.body)) node.repetition

theorem nodeWith_eq (pattern : String → Evaluator) (node : Node) :
    scene.nodeWith pattern node =
      if node.negated then absent (scene.repetitionsOf pattern node)
      else scene.repetitionsOf pattern node := by
  obtain ⟨body, marks, repetition⟩ := node
  funext entry
  rw [nodeWith, Node.negated, Node.marks]
  split <;> rfl

end Scene

/-! ## Every evaluator -/

/-- What can be evaluated at a place in a text. -/
inductive Construct where
  | criterion (criterion : Criterion)
  | charset (charset : Charset)
  | rule (rule : Rule)
  | node (node : Node)
  /-- The repetitions of a node, without regard to its negation. -/
  | repetitions (node : Node)
  | block (children : List Node)
  | pattern (pattern : Pattern)

namespace Scene

/-- The evaluator of a construct, where names may be followed to this depth. The evaluators of the
scene itself are those of the depth that it allows at the state in question. -/
def evaluatorTo (scene : Scene) (depth : Nat) : Construct → Evaluator
  | .criterion criterion => scene.criterionWith (scene.charsetTo depth) criterion
  | .charset charset => scene.charsetWith (scene.charsetTo depth) charset
  | .rule rule => scene.rule rule
  | .node node => scene.nodeWith (scene.patternTo depth) node
  | .repetitions node => scene.repetitionsOf (scene.patternTo depth) node
  | .block children => Evaluator.block (scene.branchesWith (scene.patternTo depth) children)
  | .pattern pattern => scene.patternWith (scene.patternTo depth) pattern

theorem evaluatorTo_lawful (scene : Scene) (depth : Nat) (construct : Construct) :
    Evaluator.Lawful scene.text (scene.evaluatorTo depth construct) := by
  have patterns := scene.patternTo_lawful depth
  cases construct with
  | criterion criterion => exact scene.criterionWith_lawful (scene.charsetTo_lawful depth) criterion
  | charset charset => exact scene.charsetWith_lawful (scene.charsetTo_lawful depth) charset
  | rule rule => exact scene.rule_lawful rule
  | node node => exact scene.nodeWith_lawful patterns node
  | repetitions node =>
      exact scene.repetitionWith_lawful patterns
        (Evaluator.collectingAs_lawful node.collectAs (scene.bodyWith_lawful patterns node.body))
        node.repetition
  | block children => exact Evaluator.block_lawful (scene.branchesWith_lawful patterns children)
  | pattern pattern => exact scene.patternWith_lawful patterns pattern

theorem pattern_lawful (scene : Scene) (pattern : Pattern) :
    Evaluator.Lawful scene.text (scene.pattern pattern) :=
  fun entry => scene.evaluatorTo_lawful (scene.referenceDepth entry) (.pattern pattern) entry

end Scene

/-- What does not match leaves the cursor and the captures as they were, and so does a negated node
even if it matches. However an evaluation ends, the same names collect after it as before. -/
theorem failure_rolls_back (scene : Scene) (depth : Nat) (construct : Construct) (entry : State) :
    (∀ after, scene.evaluatorTo depth construct entry = .answer false after →
      after.position = entry.position ∧ after.captured = entry.captured) ∧
    (∀ node after, construct = .node node → node.negated = true →
      scene.evaluatorTo depth construct entry = .answer true after →
        after.position = entry.position ∧ after.captured = entry.captured) ∧
    (scene.evaluatorTo depth construct entry).after.collecting = entry.collecting := by
  have lawful := scene.evaluatorTo_lawful depth construct
  refine ⟨?_, ?_, lawful.collecting_eq entry⟩
  · intro after unmatched
    rw [lawful.unmatched unmatched]
    exact ⟨rfl, rfl⟩
  · rintro node after rfl negated matched
    have repetitions := scene.evaluatorTo_lawful depth (.repetitions node)
    rw [Scene.evaluatorTo, Scene.nodeWith_eq, if_pos negated] at matched
    rw [Evaluator.eq_of_absent repetitions matched]
    exact ⟨rfl, rfl⟩

/-- A text without symbols and variables. -/
def Scene.ofText (text : String) : Scene :=
  ⟨∅, text.toList.toArray, ∅⟩

/-- A node that matches exactly a text. -/
def Node.exactly (text : String) (marks : Marks) : Node :=
  .mk (.rule ⟨true, [.literal text]⟩) marks .once

/-- A block that has consumed and captured something before it fails gives all of it back, also
where its failure is what is asked for. A name that collects for a node goes no further, even where
the node comes to no answer. -/
theorem failed_block_rolls_back :
    let scene := Scene.ofText "ac"
    let children := [Node.exactly "a" { collectAs := some "first" }, Node.exactly "b" {}]
    let absent : Node := .mk (.block children) { negated := true } .once
    let missing : Node := .mk (.rule ⟨true, [.valueOf "w"]⟩) { collectAs := some "first" } .once
    let collecting : State := { collecting := ["whole"] }
    (∃ after, scene.evaluatorTo 0 (.block children) {} = .answer false after ∧
      after.position = 0 ∧ after.captured = ∅) ∧
    (∃ after, scene.evaluatorTo 0 (.node absent) {} = .answer true after ∧
      after.position = 0 ∧ after.captured = ∅) ∧
    ∃ after, scene.evaluatorTo 0 (.node missing) collecting =
        .undecided (.missingVariable "w") after ∧
      after.collecting = ["whole"] := by
  intro scene children absent missing collecting
  have failed : scene.evaluatorTo 0 (.block children) {} = .answer false {} := rfl
  have matched : scene.evaluatorTo 0 (.node absent) {} = .answer true {} := rfl
  have undecided : scene.evaluatorTo 0 (.node missing) collecting =
      .undecided (.missingVariable "w") collecting := rfl
  have ofBlock := failure_rolls_back scene 0 (.block children) {}
  have ofAbsent := failure_rolls_back scene 0 (.node absent) {}
  have ofMissing := failure_rolls_back scene 0 (.node missing) collecting
  rw [undecided] at ofMissing
  exact ⟨⟨{}, failed, ofBlock.1 {} failed⟩,
    ⟨{}, matched, ofAbsent.2.1 absent {} rfl rfl matched⟩,
    ⟨collecting, undecided, ofMissing.2.2⟩⟩

end PlainPattern
