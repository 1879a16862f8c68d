import Mathlib.Data.List.Forall2
import PlainPattern.Proofs.OrderedChoice
import PlainPattern.Proofs.StrippedSchemas

/-!
Contract: one match seen through the states of another.

Owns: `View`, which shows a state further along in its text and without the names that it hides, and
`Mirrors`, the relation between an evaluator and its image: from the state that the view shows, the
image comes to the same answer or error, in the state that the view shows of the outcome. The
relation is kept by every combinator, one lemma for each.

Does not own: which scenes mirror each other. That is `Proofs.MirroredScenes`.
-/

set_option autoImplicit false

namespace PlainPattern

/-- How much further along the cursor is shown, and which names are not shown. -/
structure View where
  offset : Nat
  hidden : String → Bool

/-- In the text that is shown, the other one begins behind the offset. -/
structure View.Shows (view : View) (text image : Array Char) : Prop where
  characters : ∀ place, image[view.offset + place]? = text[place]?
  size : image.size - view.offset = text.size

namespace Outcome

theorem mapState_mapState (first second : State → State) (outcome : Outcome) :
    (outcome.mapState first).mapState second =
      outcome.mapState fun state => second (first state) := by
  cases outcome <;> rfl

theorem mapState_congr {first second : State → State} {outcome : Outcome}
    (same : first outcome.after = second outcome.after) :
    outcome.mapState first = outcome.mapState second := by
  cases outcome with
  | answer matched after => exact congrArg (Outcome.answer matched) same
  | undecided error after => exact congrArg (Outcome.undecided error) same

end Outcome

namespace View

def checkpoint (view : View) (checkpoint : Checkpoint) : Checkpoint where
  position := view.offset + checkpoint.position
  captured := checkpoint.captured.without view.hidden

def state (view : View) (state : State) : State where
  position := view.offset + state.position
  captured := state.captured.without view.hidden
  collecting := state.collecting.filter fun name => !view.hidden name

/-! ### States -/

section States

variable {view : View} {text image : Array Char} {state : State} {name : String}

theorem Shows.current?_state (shows : view.Shows text image) (state : State) :
    (view.state state).current? image = state.current? text :=
  shows.characters state.position

theorem Shows.atEnd_state (shows : view.Shows text image) (state : State) :
    (view.state state).atEnd image = state.atEnd text := by
  rw [Bool.eq_iff_iff, ← State.current?_eq_none_iff, ← State.current?_eq_none_iff,
    shows.current?_state]

theorem Shows.remaining_state (shows : view.Shows text image) (state : State) :
    (view.state state).remaining image = state.remaining text := by
  have size := shows.size
  simp only [State.remaining, View.state]
  omega

/-- The step over a character is shown as the same step. -/
theorem Shows.advance_state (shows : view.Shows text image) (state : State) :
    (view.state state).advance image = view.state (state.advance text) := by
  have current := shows.current?_state state
  cases found : state.current? text with
  | none =>
      rw [found] at current
      rw [State.advance_of_atEnd found, State.advance_of_atEnd current]
  | some character =>
      rw [found] at current
      rw [State.advance_of_inside found, State.advance_of_inside current]
      simp only [View.state, Bindings.without_foldl_append, Nat.add_assoc]

theorem value?_state (visible : view.hidden name = false) (state : State) (supplied : Bindings) :
    (view.state state).value? supplied name = state.value? supplied name := by
  simp [State.value?, View.state, Bindings.get?_without, visible]

theorem mem_collecting_state (visible : view.hidden name = false) (state : State) :
    name ∈ (view.state state).collecting ↔ name ∈ state.collecting := by
  simp [View.state, visible]

theorem beginCapture_of_visible (visible : view.hidden name = false) (state : State) :
    (view.state state).beginCapture name = view.state (state.beginCapture name) := by
  unfold State.beginCapture
  simp only [mem_collecting_state visible]
  split
  · rfl
  · simp [View.state, visible]

theorem beginCapture_of_hidden (isHidden : view.hidden name = true) (state : State) :
    view.state (state.beginCapture name) = view.state state := by
  unfold State.beginCapture
  split
  · rfl
  · simp [View.state, isHidden]

theorem endCapture_of_visible {rest : List String} (visible : view.hidden name = false)
    (latest : state.collecting = name :: rest) :
    (view.state state).endCapture = view.state state.endCapture := by
  simp [State.endCapture, View.state, latest, visible]

theorem endCapture_of_hidden {rest : List String} (isHidden : view.hidden name = true)
    (latest : state.collecting = name :: rest) :
    view.state state.endCapture = view.state state := by
  simp [State.endCapture, View.state, latest, isHidden]

end States

end View

namespace Evaluator

/-- Through the view, the image does what the evaluator does. -/
def Mirrors (view : View) (evaluator image : Evaluator) : Prop :=
  ∀ entry, image (view.state entry) = (evaluator entry).mapState view.state

/-- Branches that differ in nothing but evaluators that mirror each other. -/
structure Branch.Mirrors (view : View) (branch image : Branch) : Prop where
  forks : image.forks = branch.forks
  optional : image.optional = branch.optional
  evaluator : Evaluator.Mirrors view branch.evaluator image.evaluator

/-- There is a separator on both sides or on neither, and they mirror each other. -/
inductive SeparatorsMirror (view : View) : Option Separator → Option Separator → Prop where
  | none : SeparatorsMirror view none none
  | some {evaluator image : Evaluator} (optional : Bool) (mirrors : Mirrors view evaluator image) :
      SeparatorsMirror view (some ⟨optional, evaluator⟩) (some ⟨optional, image⟩)

section Mirrors

variable {view : View} {text image : Array Char}

/-! ### Criteria -/

theorem consume?_state (shows : view.Shows text image) (expected : List Char) (entry : State) :
    consume? image expected (view.state entry) = (consume? text expected entry).map view.state := by
  induction expected generalizing entry with
  | nil => rfl
  | cons character rest inductionHypothesis =>
      unfold consume?
      rw [shows.current?_state, shows.advance_state, inductionHypothesis]
      split <;> rfl

theorem exactly_mirrors (shows : view.Shows text image) (expected : List Char) :
    Mirrors view (exactly text expected) (exactly image expected) := by
  intro entry
  unfold exactly
  rw [consume?_state shows]
  cases consume? text expected entry <;> rfl

theorem oneCharacter_mirrors (shows : view.Shows text image) (test : Char → Bool) :
    Mirrors view (oneCharacter text test) (oneCharacter image test) := by
  intro entry
  unfold oneCharacter
  rw [shows.current?_state, shows.advance_state]
  split
  · split <;> rfl
  · rfl

theorem firstOf_mirrors {evaluators images : List Evaluator}
    (each : List.Forall₂ (Mirrors view) evaluators images) :
    Mirrors view (firstOf evaluators) (firstOf images) := by
  intro entry
  induction each generalizing entry with
  | nil => rfl
  | @cons evaluator _ others _ mirrors _ inductionHypothesis =>
      rw [firstOf, firstOf, mirrors entry]
      cases evaluator entry with
      | undecided error after => rfl
      | answer matched after =>
          cases matched with
          | true => rfl
          | false => exact inductionHypothesis after

theorem stepUnless_mirrors (shows : view.Shows text image) {evaluators images : List Evaluator}
    (each : List.Forall₂ (Mirrors view) evaluators images) :
    Mirrors view (stepUnless text evaluators) (stepUnless image images) := by
  intro entry
  induction each generalizing entry with
  | nil => exact congrArg (Outcome.answer true) (shows.advance_state entry)
  | @cons evaluator _ others _ mirrors _ inductionHypothesis =>
      rw [stepUnless, stepUnless, mirrors entry]
      cases evaluator entry with
      | undecided error after => rfl
      | answer matched after =>
          cases matched with
          | true => rfl
          | false => exact inductionHypothesis (after.restore entry.checkpoint)

/-! ### Nodes -/

theorem absent_mirrors {evaluator other : Evaluator} (mirrors : Mirrors view evaluator other) :
    Mirrors view (absent evaluator) (absent other) := by
  intro entry
  rw [absent, absent, mirrors entry]
  cases evaluator entry <;> rfl

/-- The name that has begun to collect is the latest when the attempt is over. -/
theorem Lawful.latest {evaluator : Evaluator} {entry : State} {name : String}
    (lawful : Lawful text evaluator) (fresh : name ∉ entry.collecting) :
    (evaluator (entry.beginCapture name)).after.collecting = name :: entry.collecting := by
  rw [lawful.collecting_eq, State.beginCapture_of_fresh fresh]

theorem collectingAs_mirrors_of_hidden {evaluator other : Evaluator} {name : String}
    (lawful : Lawful text evaluator) (mirrors : Mirrors view evaluator other)
    (isHidden : view.hidden name = true) :
    Mirrors view (collectingAs (some name) evaluator) other := by
  intro entry
  by_cases collecting : name ∈ entry.collecting
  · rw [collectingAs_of_collecting collecting]
    exact mirrors entry
  · rw [collectingAs_of_fresh collecting, Outcome.mapState_mapState,
      ← View.beginCapture_of_hidden isHidden, mirrors (entry.beginCapture name)]
    exact Outcome.mapState_congr
      (View.endCapture_of_hidden isHidden (lawful.latest collecting)).symm

theorem collectingAs_mirrors_of_visible {evaluator other : Evaluator} {name : String}
    (lawful : Lawful text evaluator) (mirrors : Mirrors view evaluator other)
    (visible : view.hidden name = false) :
    Mirrors view (collectingAs (some name) evaluator) (collectingAs (some name) other) := by
  intro entry
  have sameNames := View.mem_collecting_state visible entry
  by_cases collecting : name ∈ entry.collecting
  · rw [collectingAs_of_collecting collecting, collectingAs_of_collecting (sameNames.2 collecting)]
    exact mirrors entry
  · rw [collectingAs_of_fresh collecting, collectingAs_of_fresh (mt sameNames.1 collecting),
      View.beginCapture_of_visible visible, mirrors (entry.beginCapture name),
      Outcome.mapState_mapState, Outcome.mapState_mapState]
    exact Outcome.mapState_congr (View.endCapture_of_visible visible (lawful.latest collecting))

/-- A hidden name does not collect in the image. -/
theorem collectingAs_mirrors {evaluator other : Evaluator} (lawful : Lawful text evaluator)
    (mirrors : Mirrors view evaluator other) (name : Option String) :
    Mirrors view (collectingAs name evaluator)
      (collectingAs (name.filter fun name => !view.hidden name) other) := by
  cases name with
  | none => exact mirrors
  | some name =>
      cases isHidden : view.hidden name with
      | true =>
          rw [Option.filter_some_neg (by simp [isHidden])]
          exact collectingAs_mirrors_of_hidden lawful mirrors isHidden
      | false =>
          rw [Option.filter_some_pos (by simp [isHidden])]
          exact collectingAs_mirrors_of_visible lawful mirrors isHidden

theorem children_mirrors {branches images : List Branch}
    (each : List.Forall₂ (Branch.Mirrors view) branches images) (entry : Checkpoint) (filled : Bool)
    (state : State) :
    children (view.checkpoint entry) filled images (view.state state) =
      (children entry filled branches state).mapState view.state := by
  induction each generalizing filled state with
  | nil => cases filled <;> rfl
  | @cons branch other rest _ mirrors _ inductionHypothesis =>
      by_cases tried : branch.forks = !filled
      · rw [children_of_tried tried, children_of_tried (mirrors.forks.trans tried),
          mirrors.evaluator state, mirrors.optional]
        cases branch.evaluator state with
        | undecided error after => rfl
        | answer matched after => exact inductionHypothesis (matched || branch.optional) after
      · cases filled with
        | false =>
            have firm : branch.forks = false := by simpa using tried
            rw [children_of_failed firm, children_of_failed (mirrors.forks.trans firm)]
            rfl
        | true =>
            have forks : branch.forks = true := by simpa using tried
            rw [children_of_passed forks, children_of_passed (mirrors.forks.trans forks)]
            exact inductionHypothesis true state

theorem block_mirrors {branches images : List Branch}
    (each : List.Forall₂ (Branch.Mirrors view) branches images) :
    Mirrors view (block branches) (block images) :=
  fun entry => children_mirrors each entry.checkpoint true entry

/-! ### Repeats -/

def Gap.mapState (change : State → State) : Gap → Gap
  | .onward after => .onward (change after)
  | .ended after => .ended (change after)
  | .undecided error after => .undecided error (change after)

theorem gap_state {separator other : Option Separator}
    (mirrors : SeparatorsMirror view separator other) (state : State) :
    gap other (view.state state) = (gap separator state).mapState view.state := by
  cases mirrors with
  | none => rfl
  | @some evaluator image optional mirrors =>
      simp only [gap, mirrors state]
      cases evaluator state with
      | undecided error after => rfl
      | answer matched after =>
          cases matched with
          | true => rfl
          | false => cases optional <;> rfl

theorem conclude_state (bounds : Bounds) (entry : Checkpoint) (count : Nat) (state : State) :
    conclude bounds (view.checkpoint entry) count (view.state state) =
      (conclude bounds entry count state).mapState view.state := by
  unfold conclude
  split <;> rfl

theorem SeparatorsMirror.map_checkpoint {separator other : Option Separator}
    (mirrors : SeparatorsMirror view separator other) (state : State) :
    (other.map fun _ => (view.state state).checkpoint) =
      (separator.map fun _ => state.checkpoint).map view.checkpoint := by
  cases mirrors <;> rfl

/-- The induction is on the rounds. The guard against rounds that consume nothing is seen alike on
both sides, since it only asks how much of the text is left. -/
theorem repeatFrom_state (shows : view.Shows text image) {bounds : Bounds}
    {separator otherSeparator : Option Separator} {item otherItem : Evaluator}
    (itemMirrors : Mirrors view item otherItem)
    (mirrors : SeparatorsMirror view separator otherSeparator) (entry : Checkpoint) (count : Nat)
    (beforeGap : Option Checkpoint) (state : State) :
    repeatFrom image bounds otherSeparator otherItem (view.checkpoint entry) count
        (beforeGap.map view.checkpoint) (view.state state) =
      (repeatFrom text bounds separator item entry count beforeGap state).mapState view.state := by
  fun_induction repeatFrom text bounds separator item entry count beforeGap state with
  | case1 count beforeGap state error after outcome =>
      rw [repeatFrom]
      simp only [itemMirrors state, outcome, Outcome.mapState]
  | case2 count state after outcome =>
      rw [repeatFrom]
      simp only [itemMirrors state, outcome, Outcome.mapState]
      exact conclude_state ..
  -- No item behind a separator: both sides go back to the same place before it.
  | case3 count state after outcome before =>
      rw [repeatFrom]
      simp only [itemMirrors state, outcome, Outcome.mapState, Option.map_some]
      exact conclude_state bounds entry count (after.restore before)
  | case4 count beforeGap state matched outcome isLast =>
      rw [repeatFrom]
      simp only [itemMirrors state, outcome, Outcome.mapState, if_pos isLast]
  | case5 count beforeGap state matched outcome notLast error after behind =>
      rw [repeatFrom]
      simp only [itemMirrors state, outcome, Outcome.mapState, if_neg notLast,
        gap_state mirrors, behind, Gap.mapState]
  | case6 count beforeGap state matched outcome notLast after behind =>
      rw [repeatFrom]
      simp only [itemMirrors state, outcome, Outcome.mapState, if_neg notLast,
        gap_state mirrors, behind, Gap.mapState]
      exact conclude_state ..
  -- Another round, which has to bring the cursor nearer to the end of either text.
  | case7 count beforeGap state matched outcome notLast after behind nearer inductionHypothesis =>
      rw [repeatFrom]
      simp only [itemMirrors state, outcome, Outcome.mapState, if_neg notLast,
        gap_state mirrors, behind, Gap.mapState, shows.remaining_state, if_pos nearer,
        mirrors.map_checkpoint]
      exact inductionHypothesis
  | case8 count beforeGap state matched outcome notLast after behind idle =>
      rw [repeatFrom]
      simp only [itemMirrors state, outcome, Outcome.mapState, if_neg notLast,
        gap_state mirrors, behind, Gap.mapState, shows.remaining_state, if_neg idle]
      exact conclude_state ..

theorem repeated_mirrors (shows : view.Shows text image) {bounds : Bounds}
    {separator otherSeparator : Option Separator} {item otherItem : Evaluator}
    (itemMirrors : Mirrors view item otherItem)
    (mirrors : SeparatorsMirror view separator otherSeparator) :
    Mirrors view (repeated text bounds separator item)
      (repeated image bounds otherSeparator otherItem) :=
  fun entry => repeatFrom_state shows itemMirrors mirrors entry.checkpoint 0 none entry

end Mirrors

end Evaluator

end PlainPattern
