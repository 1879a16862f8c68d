import Mathlib.Data.List.SplitBy
import Mathlib.Data.List.TakeWhile
import PlainPattern.Proofs.Rollback

/-!
Contract: a block fills its places one after another, and for each place there is an ordered choice.

Owns: the places of a block (`places`), each of them a child that does not fork with the forks
behind it; the choice between the candidates for one place (`Evaluator.choice`), and the row of
choices that a block comes to (`Evaluator.choices`). A block goes through its children with a single
flag; the step lemma `children_place` says what that comes to for one place, and `children_flatten`
what it comes to for all of them. `block_is_row_of_choices` is the main result, together with what
follows for the forks behind an optional child: none of them is ever tried.
-/

set_option autoImplicit false

namespace PlainPattern

/-! ## Choices -/

namespace Evaluator

/-- Tries the candidates for a place in turn, each from the same state. The first that matches has
the place, and an optional one that does not match leaves it empty; those behind are not tried. -/
def choice : List Branch → Evaluator
  | [], entry => .answer false entry
  | candidate :: others, entry =>
      match candidate.evaluator entry with
      | .answer true after => .answer true after
      | .answer false _ =>
          if candidate.optional then .answer true entry else choice others entry
      | .undecided error after => .undecided error after

/-- Makes one choice after another, each from the state that the ones before have left. One that
finds nothing ends the row, which goes back to where it began. -/
def choicesFrom (start : State) : List (List Branch) → Evaluator
  | [], state => .answer true state
  | place :: later, state =>
      match choice place state with
      | .answer true after => choicesFrom start later after
      | .answer false _ => .answer false start
      | .undecided error after => .undecided error after

def choices (places : List (List Branch)) : Evaluator := fun entry =>
  choicesFrom entry places entry

/-- Candidates for one place: the first is no alternative to anything, and all others are. -/
def IsPlace (place : List Branch) : Prop :=
  ∃ first others, place = first :: others ∧ first.forks = false ∧
    ∀ other ∈ others, other.forks = true

section Choices

variable {text : Array Char} {start state : State} {entry : Checkpoint} {filled : Bool}
  {child : Branch} {forks others rest place : List Branch}

theorem choice_lawful (each : ∀ candidate ∈ place, Lawful text candidate.evaluator) :
    Lawful text (choice place) := by
  intro entry
  induction place with
  | nil => rfl
  | cons candidate others inductionHypothesis =>
      obtain ⟨headLawful, othersLawful⟩ := List.forall_mem_cons.1 each
      unfold choice
      split
      · rename_i outcome
        exact headLawful.matched outcome
      · split
        · exact .nothing entry
        · exact inductionHypothesis othersLawful
      · rename_i outcome
        exact headLawful.undecided outcome

/-! ### Through the children of a block -/

/-- A child is tried if it forks where the place before it is open, or does not fork where that
place is filled. -/
theorem children_of_tried (tried : child.forks = !filled) :
    children entry filled (child :: rest) state =
      match child.evaluator state with
      | .answer matched after => children entry (matched || child.optional) rest after
      | .undecided error after => .undecided error after := by
  cases outcome : child.evaluator state with
  | undecided error after => cases filled <;> simp [children, tried, outcome]
  | answer matched after => cases filled <;> simp [children, tried, outcome]

theorem children_of_passed (forks : child.forks = true) :
    children entry true (child :: rest) state = children entry true rest state := by
  simp only [children, forks]

theorem children_of_failed (firm : child.forks = false) :
    children entry false (child :: rest) state = .answer false (state.restore entry) := by
  simp only [children, firm]

/-- Where a place is filled, its forks are passed over. -/
theorem children_of_filled (forking : ∀ fork ∈ forks, fork.forks = true) :
    children entry true (forks ++ rest) state = children entry true rest state := by
  induction forks with
  | nil => rfl
  | cons fork others inductionHypothesis =>
      obtain ⟨isFork, othersFork⟩ := List.forall_mem_cons.1 forking
      rw [List.cons_append, children_of_passed isFork]
      exact inductionHypothesis othersFork

/-- A place that stays open fails the block. -/
theorem children_of_open (noFork : ∀ next ∈ rest.head?, next.forks = false) :
    children entry false rest state = .answer false (state.restore entry) := by
  cases rest with
  | nil => rfl
  | cons next later => exact children_of_failed (noFork next rfl)

/-- The alternatives to a child that has left its place open. -/
theorem children_alternatives (each : ∀ other ∈ others, Lawful text other.evaluator)
    (forking : ∀ other ∈ others, other.forks = true)
    (noFork : ∀ next ∈ rest.head?, next.forks = false) :
    children entry false (others ++ rest) state =
      match choice others state with
      | .answer true after => children entry true rest after
      | .answer false _ => .answer false (state.restore entry)
      | .undecided error after => .undecided error after := by
  induction others with
  | nil => exact children_of_open noFork
  | cons other later inductionHypothesis =>
      obtain ⟨otherLawful, laterLawful⟩ := List.forall_mem_cons.1 each
      obtain ⟨forks, laterFork⟩ := List.forall_mem_cons.1 forking
      rw [List.cons_append, children_of_tried forks, choice]
      cases outcome : other.evaluator state with
      | undecided error after => rfl
      | answer matched after =>
          cases matched with
          | true => exact children_of_filled laterFork
          | false =>
              rw [otherLawful.unmatched outcome]
              cases other.optional with
              | true => exact children_of_filled laterFork
              | false => exact inductionHypothesis laterLawful laterFork

/-- One place of a block: its choice decides whether the block goes on behind it. -/
theorem children_place (isPlace : IsPlace place)
    (each : ∀ candidate ∈ place, Lawful text candidate.evaluator)
    (noFork : ∀ next ∈ rest.head?, next.forks = false) :
    children entry true (place ++ rest) state =
      match choice place state with
      | .answer true after => children entry true rest after
      | .answer false _ => .answer false (state.restore entry)
      | .undecided error after => .undecided error after := by
  obtain ⟨first, others, rfl, firm, forking⟩ := isPlace
  obtain ⟨firstLawful, othersLawful⟩ := List.forall_mem_cons.1 each
  rw [List.cons_append, children_of_tried firm, choice]
  cases outcome : first.evaluator state with
  | undecided error after => rfl
  | answer matched after =>
      cases matched with
      | true => exact children_of_filled forking
      | false =>
          rw [firstLawful.unmatched outcome]
          cases first.optional with
          | true => exact children_of_filled forking
          | false => exact children_alternatives othersLawful forking noFork

theorem head?_flatten_of_isPlace {places : List (List Branch)}
    (each : ∀ place ∈ places, IsPlace place) :
    ∀ next ∈ places.flatten.head?, next.forks = false := by
  cases places with
  | nil => simp
  | cons place later =>
      obtain ⟨first, others, rfl, firm, _⟩ := each place List.mem_cons_self
      simpa using firm

/-- The induction is on the places; `state` has come from the beginning of the block, so that a
place that stays open leads back there. -/
theorem children_flatten {places : List (List Branch)}
    (arePlaces : ∀ place ∈ places, IsPlace place)
    (each : ∀ place ∈ places, ∀ candidate ∈ place, Lawful text candidate.evaluator)
    (reached : Consumes text start state) :
    children start.checkpoint true places.flatten state = choicesFrom start places state := by
  induction places generalizing state with
  | nil => rfl
  | cons place later inductionHypothesis =>
      obtain ⟨isPlace, laterPlaces⟩ := List.forall_mem_cons.1 arePlaces
      obtain ⟨placeLawful, laterLawful⟩ := List.forall_mem_cons.1 each
      rw [List.flatten_cons, choicesFrom,
        children_place isPlace placeLawful (head?_flatten_of_isPlace laterPlaces)]
      cases outcome : choice place state with
      | undecided error after => rfl
      | answer matched after =>
          cases matched with
          | true =>
              have onward := reached.andThen ((choice_lawful placeLawful).matched outcome)
              exact inductionHypothesis laterPlaces laterLawful onward
          | false =>
              have back := State.restore_checkpoint_of_collecting reached.collecting_eq
              exact congrArg (Outcome.answer false) back

theorem block_flatten {places : List (List Branch)} (arePlaces : ∀ place ∈ places, IsPlace place)
    (each : ∀ place ∈ places, ∀ candidate ∈ place, Lawful text candidate.evaluator) :
    block places.flatten = choices places := by
  funext entry
  exact children_flatten arePlaces each (.nothing entry)

/-! ### Forks that are never tried -/

/-- What stands behind a child may be exchanged for what is like it. Behind an optional child it
need only be so where the place is filled. -/
theorem children_cons_congr {first second : List Branch}
    (alike : ∀ filled state, (child.optional = true → filled = true) →
      children entry filled first state = children entry filled second state) :
    children entry filled (child :: first) state =
      children entry filled (child :: second) state := by
  by_cases tried : child.forks = !filled
  · rw [children_of_tried tried, children_of_tried tried]
    cases child.evaluator state with
    | undecided error after => rfl
    | answer matched after =>
        refine alike _ after fun optional => ?_
        rw [optional, Bool.or_true]
  · cases filled with
    | false =>
        have firm : child.forks = false := by simpa using tried
        rw [children_of_failed firm, children_of_failed firm]
    | true =>
        have isFork : child.forks = true := by simpa using tried
        rw [children_of_passed isFork, children_of_passed isFork]
        exact alike true state fun _ => rfl

theorem children_append_congr (before : List Branch) {first second : List Branch}
    (alike : ∀ filled state,
      children entry filled first state = children entry filled second state) :
    children entry filled (before ++ first) state =
      children entry filled (before ++ second) state := by
  induction before generalizing filled state with
  | nil => exact alike filled state
  | cons child later inductionHypothesis =>
      exact children_cons_congr fun _ _ _ => inductionHypothesis

/-- None of the forks behind an optional child is tried. -/
theorem children_of_optional (optional : child.optional = true)
    (forking : ∀ fork ∈ forks, fork.forks = true) :
    children entry filled (child :: (forks ++ rest)) state =
      children entry filled (child :: rest) state := by
  refine children_cons_congr fun filled state isFilled => ?_
  rw [isFilled optional]
  exact children_of_filled forking

/-- Of the forks behind an optional child any may be left out. -/
theorem block_of_optional (before : List Branch) {kept after : List Branch}
    (optional : child.optional = true) (forking : ∀ fork ∈ forks, fork.forks = true)
    (fewer : kept.Sublist forks) :
    block (before ++ child :: (kept ++ after)) = block (before ++ child :: (forks ++ after)) := by
  funext entry
  refine children_append_congr before fun filled state => ?_
  rw [children_of_optional optional forking,
    children_of_optional optional fun fork member => forking fork (fewer.subset member)]

end Choices

end Evaluator

/-! ## Places -/

/-- The places of a block: each begins with a child that is no alternative, and goes on with the
alternatives to it. -/
def places (children : List Node) : List (List Node) :=
  children.splitBy fun _ next => next.forks

theorem head?_dropWhile_forks (children : List Node) :
    ∀ next ∈ (children.dropWhile Node.forks).head?, next.forks = false := by
  intro next isNext
  have notFork := List.head?_dropWhile_not Node.forks children
  rwa [Option.mem_def.1 isNext] at notFork

theorem places_cons (first : Node) (rest : List Node) :
    places (first :: rest) =
      (first :: rest.takeWhile Node.forks) :: places (rest.dropWhile Node.forks) := by
  have linked : (first :: rest.takeWhile Node.forks).IsChain fun _ next => next.forks := by
    refine (List.pairwise_cons.2 ⟨fun next => List.mem_takeWhile_imp, ?_⟩).isChain
    exact List.pairwise_of_forall_mem_list fun _ _ next => List.mem_takeWhile_imp
  have split : first :: rest =
      (first :: rest.takeWhile Node.forks) ++ rest.dropWhile Node.forks := by
    rw [List.cons_append, List.takeWhile_append_dropWhile]
  unfold places
  conv_lhs => rw [split]
  rw [List.splitBy_append fun _ _ next isNext => head?_dropWhile_forks rest next isNext,
    List.splitBy_of_isChain (List.cons_ne_nil _ _) linked]
  rfl

/-- In a block that begins firmly, each place has one child that does not fork, the first. -/
theorem isPlace_of_mem_places {children place : List Node}
    (firm : ∀ first ∈ children.head?, first.forks = false) (member : place ∈ places children) :
    ∃ first others, place = first :: others ∧ first.forks = false ∧
      ∀ other ∈ others, other.forks = true := by
  match children with
  | [] => cases member
  | first :: rest =>
      rw [places_cons] at member
      rcases List.mem_cons.1 member with rfl | behind
      · exact ⟨first, _, rfl, firm first rfl, fun other => List.mem_takeWhile_imp⟩
      · exact isPlace_of_mem_places (head?_dropWhile_forks rest) behind
termination_by children.length
decreasing_by
  exact Nat.lt_succ_of_le (List.length_dropWhile_le Node.forks rest)

namespace Scene

open Evaluator

/-- The part that a node plays as a child of a block. -/
def branchWith (scene : Scene) (pattern : String → Evaluator) (node : Node) : Branch :=
  ⟨node.forks, node.optional, scene.nodeWith pattern node⟩

theorem branchesWith_eq_map (scene : Scene) (pattern : String → Evaluator) (nodes : List Node) :
    scene.branchesWith pattern nodes = nodes.map (scene.branchWith pattern) := by
  induction nodes with
  | nil => rfl
  | cons node rest inductionHypothesis =>
      rw [branchesWith, inductionHypothesis]
      rfl

variable {scene : Scene} {pattern : String → Evaluator} {children : List Node}

theorem isPlace_branchesWith {place : List Node}
    (firm : ∀ first ∈ children.head?, first.forks = false) (member : place ∈ places children) :
    IsPlace (scene.branchesWith pattern place) := by
  obtain ⟨first, others, rfl, noFork, forking⟩ := isPlace_of_mem_places firm member
  rw [branchesWith_eq_map, List.map_cons]
  refine ⟨_, _, rfl, noFork, fun branch isOther => ?_⟩
  obtain ⟨other, among, rfl⟩ := List.mem_map.1 isOther
  exact forking other among

theorem block_eq_choices (lawful : ∀ name, Lawful scene.text (pattern name))
    (firm : ∀ first ∈ children.head?, first.forks = false) :
    Evaluator.block (scene.branchesWith pattern children) =
      choices ((places children).map (scene.branchesWith pattern)) := by
  have inPlaces : scene.branchesWith pattern children =
      ((places children).map (scene.branchesWith pattern)).flatten := by
    rw [funext (scene.branchesWith_eq_map pattern), ← List.map_flatten]
    exact congrArg _ (List.flatten_splitBy _ children).symm
  have arePlaces : ∀ place ∈ (places children).map (scene.branchesWith pattern), IsPlace place := by
    intro place member
    obtain ⟨nodes, isPlace, rfl⟩ := List.mem_map.1 member
    exact isPlace_branchesWith firm isPlace
  have eachLawful : ∀ place ∈ (places children).map (scene.branchesWith pattern),
      ∀ candidate ∈ place, Lawful scene.text candidate.evaluator := by
    intro place member
    obtain ⟨nodes, _, rfl⟩ := List.mem_map.1 member
    exact scene.branchesWith_lawful lawful nodes
  rw [inPlaces]
  exact block_flatten arePlaces eachLawful

theorem block_of_optional_node (before : List Node) {child : Node} {forks kept after : List Node}
    (optional : child.optional = true) (forking : ∀ fork ∈ forks, fork.forks = true)
    (fewer : kept.Sublist forks) :
    Evaluator.block (scene.branchesWith pattern (before ++ child :: (kept ++ after))) =
      Evaluator.block (scene.branchesWith pattern (before ++ child :: (forks ++ after))) := by
  simp only [branchesWith_eq_map, List.map_append, List.map_cons]
  refine block_of_optional _ optional (fun branch isFork => ?_) (fewer.map _)
  obtain ⟨fork, member, rfl⟩ := List.mem_map.1 isFork
  exact forking fork member

end Scene

/-- A block whose first child does not fork splits into places: a child that does not fork, with the
forks behind it. The block comes to what the choices for its places come to, made one after another:
the candidates for a place are tried in turn, each from the state that the places before have left,
up to the first that matches or is optional; a place for which none does fails the block, which then
is back where it began, and nothing behind is tried. So behind an optional child its forks, all or
some of them, can be left out. -/
theorem block_is_row_of_choices (scene : Scene) (depth : Nat) (children : List Node)
    (firm : ∀ first ∈ children.head?, first.forks = false) :
    ((places children).flatten = children ∧
      ∀ place ∈ places children, ∃ first others, place = first :: others ∧ first.forks = false ∧
        ∀ other ∈ others, other.forks = true) ∧
    (∀ entry, scene.evaluatorTo depth (.block children) entry =
      Evaluator.choices ((places children).map (scene.branchesWith (scene.patternTo depth)))
        entry) ∧
    ∀ before child forks kept after, children = before ++ child :: (forks ++ after) →
      child.optional = true → (∀ fork ∈ forks, fork.forks = true) → kept.Sublist forks →
      ∀ entry, scene.evaluatorTo depth (.block (before ++ child :: (kept ++ after))) entry =
        scene.evaluatorTo depth (.block children) entry := by
  refine ⟨⟨List.flatten_splitBy _ children, fun place => isPlace_of_mem_places firm⟩, ?_, ?_⟩
  · exact congrFun (Scene.block_eq_choices (scene.patternTo_lawful depth) firm)
  · rintro before child forks kept after rfl optional forking fewer
    exact congrFun (Scene.block_of_optional_node before optional forking fewer)

/-- A block with a place that is left empty by an optional child; the fork behind it asks for a
variable that nobody has supplied. -/
def blockWithIdleFork : List Node :=
  [.exactly "x" {}, .exactly "y" { forks := true }, .exactly "a" { optional := true },
    .mk (.rule ⟨true, [.valueOf "missing"]⟩) { forks := true } .once, .exactly "b" {}]

/-- The fork behind the optional child raises no error, since it is not tried. -/
theorem idle_fork_is_not_tried :
    let scene := Scene.ofText "yb"
    (∀ first ∈ blockWithIdleFork.head?, first.forks = false) ∧
      (places blockWithIdleFork).map List.length = [2, 2, 1] ∧
      scene.evaluatorTo 0 (.block blockWithIdleFork) {} = .answer true ⟨2, ∅, []⟩ ∧
      scene.evaluatorTo 0 (.block blockWithIdleFork) {} = Evaluator.choices
        ((places blockWithIdleFork).map (scene.branchesWith (scene.patternTo 0))) {} ∧
      scene.evaluatorTo 0 (.block [.exactly "x" {}, .exactly "y" { forks := true },
        .exactly "a" { optional := true }, .exactly "b" {}]) {} =
          scene.evaluatorTo 0 (.block blockWithIdleFork) {} := by
  intro scene
  have firm : ∀ first ∈ blockWithIdleFork.head?, first.forks = false := by
    rintro first ⟨⟩
    rfl
  obtain ⟨_, rowOfChoices, leftOut⟩ := block_is_row_of_choices scene 0 blockWithIdleFork firm
  refine ⟨firm, by rfl, by rfl, rowOfChoices {}, ?_⟩
  exact leftOut [.exactly "x" {}, .exactly "y" { forks := true }]
    (.exactly "a" { optional := true })
    [.mk (.rule ⟨true, [.valueOf "missing"]⟩) { forks := true } .once] [] [.exactly "b" {}]
    rfl rfl (by simp [Node.forks, Node.marks]) (List.nil_sublist _) {}

end PlainPattern
