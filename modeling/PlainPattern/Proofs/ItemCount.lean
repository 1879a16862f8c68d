import PlainPattern.Proofs.Unrolling

/-!
Contract: how many items a repeat matches before it ends.

Owns: the loop of a repeat with a tally of the items that match (`Evaluator.talliedFrom`); that the
tally changes nothing (`talliedFrom_fst`); and the bound on it, one more than there are characters
left (`talliedFrom_snd_le`), since all rounds but the last bring the cursor nearer to the end of the
text. So a maximum beyond the bound makes no difference (`repeatFrom_of_room`).
`unbounded_repeat_stops` puts both together.

The loop asks whether a round has brought the cursor nearer to the end of the text. For a round of
lawful evaluators that is to ask whether the cursor has moved: see `Round.remaining_lt_iff`, and
`repeatFrom_of_onward` for the loop in these terms.
-/

set_option autoImplicit false

namespace PlainPattern

namespace Evaluator

/-- The loop of a repeat, `repeatFrom`, and with what it comes to the number of items that have
matched by then, `count` of them before. -/
def talliedFrom (text : Array Char) (bounds : Bounds) (separator : Option Separator)
    (item : Evaluator) (entry : Checkpoint) (count : Nat) (beforeGap : Option Checkpoint)
    (state : State) : Outcome × Nat :=
  match item state with
  | .undecided error after => (.undecided error after, count)
  | .answer false after =>
      match beforeGap with
      | none => (conclude bounds entry count after, count)
      | some before => (conclude bounds entry count (after.restore before), count)
  | .answer true matched =>
      if bounds.max = some (count + 1) then (.answer true matched, count + 1)
      else
        match gap separator matched with
        | .undecided error after => (.undecided error after, count + 1)
        | .ended after => (conclude bounds entry (count + 1) after, count + 1)
        | .onward after =>
            if after.remaining text < state.remaining text then
              talliedFrom text bounds separator item entry (count + 1)
                (separator.map fun _ => matched.checkpoint) after
            else (conclude bounds entry (max (count + 1) bounds.min) after, count + 1)
termination_by state.remaining text

def tallied (text : Array Char) (bounds : Bounds) (separator : Option Separator)
    (item : Evaluator) (entry : State) : Outcome × Nat :=
  talliedFrom text bounds separator item entry.checkpoint 0 none entry

section Tally

variable {text : Array Char} {bounds : Bounds} {separator : Option Separator} {item : Evaluator}
  {entry : Checkpoint} {count least most : Nat} {beforeGap : Option Checkpoint} {state : State}

/-- The tally does not change what the loop comes to. -/
theorem talliedFrom_fst : (talliedFrom text bounds separator item entry count beforeGap state).1 =
    repeatFrom text bounds separator item entry count beforeGap state := by
  fun_induction talliedFrom text bounds separator item entry count beforeGap state with
  | case1 count beforeGap state error after outcome =>
      rw [repeatFrom]
      simp only [outcome]
  | case2 count state after outcome =>
      rw [repeatFrom]
      simp only [outcome]
  | case3 count state after outcome before =>
      rw [repeatFrom]
      simp only [outcome]
  | case4 count beforeGap state matched outcome isLast =>
      rw [repeatFrom]
      simp only [outcome, if_pos isLast]
  | case5 count beforeGap state matched outcome notLast error after behind =>
      rw [repeatFrom]
      simp only [outcome, if_neg notLast, behind]
  | case6 count beforeGap state matched outcome notLast after behind =>
      rw [repeatFrom]
      simp only [outcome, if_neg notLast, behind]
  | case7 count beforeGap state matched outcome notLast after behind nearer inductionHypothesis =>
      rw [repeatFrom]
      simp only [outcome, if_neg notLast, behind, if_pos nearer]
      exact inductionHypothesis
  | case8 count beforeGap state matched outcome notLast after behind idle =>
      rw [repeatFrom]
      simp only [outcome, if_neg notLast, behind, if_neg idle]

/-- The induction is on the rounds, each of which brings the cursor nearer to the end of the text
for the item that it adds. -/
theorem talliedFrom_snd_le :
    (talliedFrom text bounds separator item entry count beforeGap state).2 ≤
      count + state.remaining text + 1 := by
  fun_induction talliedFrom text bounds separator item entry count beforeGap state <;> omega

theorem conclude_unbounded (room : count ≤ most) :
    conclude ⟨least, none⟩ entry count state = conclude ⟨least, some most⟩ entry count state := by
  have sameBounds : (⟨least, none⟩ : Bounds).satisfiedBy count =
      (⟨least, some most⟩ : Bounds).satisfiedBy count := by
    simp [Bounds.satisfiedBy, room]
  rw [conclude, conclude, sameBounds]

theorem absent_congr {first second : Evaluator} {start : State}
    (same : first start = second start) : absent first start = absent second start := by
  rw [absent, absent, same]

/-- A maximum that leaves room for one item more than there can be is as good as none. -/
theorem repeatFrom_of_room (ordered : least ≤ most)
    (room : count + state.remaining text + 2 ≤ most) :
    repeatFrom text ⟨least, none⟩ separator item entry count beforeGap state =
      repeatFrom text ⟨least, some most⟩ separator item entry count beforeGap state := by
  fun_induction repeatFrom text ⟨least, none⟩ separator item entry count beforeGap state with
  | case1 count beforeGap state error after outcome =>
      rw [repeatFrom]
      simp only [outcome]
  | case2 count state after outcome =>
      rw [repeatFrom]
      simp only [outcome]
      exact conclude_unbounded (by omega)
  | case3 count state after outcome before =>
      rw [repeatFrom]
      simp only [outcome]
      exact conclude_unbounded (by omega)
  | case4 count beforeGap state matched outcome isLast => cases isLast
  | case5 count beforeGap state matched outcome _ error after behind =>
      rw [repeatFrom]
      simp only [outcome, behind, Option.some.injEq, if_neg (show most ≠ count + 1 by omega)]
  | case6 count beforeGap state matched outcome _ after behind =>
      rw [repeatFrom]
      simp only [outcome, behind, Option.some.injEq, if_neg (show most ≠ count + 1 by omega)]
      exact conclude_unbounded (by omega)
  | case7 count beforeGap state matched outcome _ after behind nearer inductionHypothesis =>
      rw [inductionHypothesis (by omega)]
      conv_rhs => rw [repeatFrom]
      simp only [outcome, behind, Option.some.injEq, if_neg (show most ≠ count + 1 by omega),
        if_pos nearer]
  | case8 count beforeGap state matched outcome _ after behind idle =>
      rw [repeatFrom]
      simp only [outcome, behind, Option.some.injEq, if_neg (show most ≠ count + 1 by omega),
        if_neg idle]
      exact conclude_unbounded (by omega)

theorem repeated_of_room {start : State} (ordered : least ≤ most)
    (room : start.remaining text + 2 ≤ most) :
    repeated text ⟨least, none⟩ separator item start =
      repeated text ⟨least, some most⟩ separator item start :=
  repeatFrom_of_room ordered (by omega)

end Tally

end Evaluator

namespace Scene

open Evaluator

variable (scene : Scene) (pattern : String → Evaluator)

/-- The repetitions of a node, with the number of its items that match. -/
def talliedWith (node : Node) (bounds : Bounds) (separator : Option Node) (entry : State) :
    Outcome × Nat :=
  tallied scene.text bounds (scene.separatorWith pattern (.of bounds separator))
    (scene.itemWith pattern node) entry

/-- The bounds have no part in what stands between two items. -/
theorem separatorWith_of (first second : Bounds) (separator : Option Node) :
    scene.separatorWith pattern (.of first separator) =
      scene.separatorWith pattern (.of second separator) := by
  cases separator <;> rfl

theorem talliedWith_fst (node : Node) (bounds : Bounds) (separator : Option Node) (entry : State) :
    (scene.talliedWith pattern node bounds separator entry).1 =
      scene.repetitionsOf pattern (node.withRepetition (.of bounds separator)) entry := by
  rw [repetitionsOf_of]
  exact talliedFrom_fst

theorem talliedWith_snd_le (node : Node) (bounds : Bounds) (separator : Option Node)
    (entry : State) :
    (scene.talliedWith pattern node bounds separator entry).2 ≤ entry.remaining scene.text + 1 := by
  refine talliedFrom_snd_le.trans ?_
  rw [Nat.zero_add]

end Scene

/-- A repeat without a maximum ends: at most one item more than there are characters left matches
before it does, whatever comes of it then. So it comes to what it would come to with any maximum
from two more than the characters left on, under a negation as well. -/
theorem unbounded_repeat_stops (scene : Scene) (depth : Nat) (node : Node)
    (separator : Option Node) (least : Nat) (entry : State) :
    let left := scene.text.size - entry.position
    let unbounded := node.withRepetition (.of ⟨least, none⟩ separator)
    let tallied := scene.talliedWith (scene.patternTo depth) node ⟨least, none⟩ separator entry
    tallied.1 = scene.evaluatorTo depth (.repetitions unbounded) entry ∧
      tallied.2 ≤ left + 1 ∧
      ∀ most, max least (left + 2) ≤ most →
        let bounded := node.withRepetition (.of ⟨least, some most⟩ separator)
        scene.evaluatorTo depth (.repetitions unbounded) entry =
            scene.evaluatorTo depth (.repetitions bounded) entry ∧
          scene.evaluatorTo depth (.node unbounded) entry =
            scene.evaluatorTo depth (.node bounded) entry := by
  intro left unbounded tallied
  refine ⟨scene.talliedWith_fst _ node _ separator entry,
    scene.talliedWith_snd_le _ node _ separator entry, ?_⟩
  intro most room bounded
  have repetitions : scene.repetitionsOf (scene.patternTo depth) unbounded entry =
      scene.repetitionsOf (scene.patternTo depth) bounded entry := by
    rw [Scene.repetitionsOf_of, Scene.repetitionsOf_of,
      scene.separatorWith_of (scene.patternTo depth) ⟨least, some most⟩ ⟨least, none⟩]
    have ordered : least ≤ most := le_trans (Nat.le_max_left _ _) room
    exact Evaluator.repeated_of_room ordered (le_trans (Nat.le_max_right _ _) room)
  refine ⟨repetitions, ?_⟩
  have sameMark : bounded.negated = unbounded.negated := rfl
  simp only [Scene.evaluatorTo, Scene.nodeWith_eq, sameMark]
  cases unbounded.negated with
  | false => exact repetitions
  | true => exact Evaluator.absent_congr repetitions

/-- An item that matches everywhere. -/
def optionalLetter : Node :=
  .mk (.block [.exactly "a" { optional := true }]) {} .once

/-- The bound is reached by an item that consumes nothing behind the last character. -/
theorem idle_item_is_counted_once :
    let scene := Scene.ofText "aa"
    let unbounded := optionalLetter.withRepetition (.of ⟨1, none⟩ none)
    let bounded := optionalLetter.withRepetition (.of ⟨1, some 4⟩ none)
    max 1 (scene.text.size + 2) ≤ 4 ∧
      (scene.talliedWith (scene.patternTo 0) optionalLetter ⟨1, none⟩ none {}).2 = 3 ∧
      scene.evaluatorTo 0 (.node unbounded) {} = scene.evaluatorTo 0 (.node bounded) {} := by
  intro scene unbounded bounded
  have room : max 1 (scene.text.size + 2) ≤ 4 := by decide
  refine ⟨room, ?_, ?_⟩
  · decide +kernel
  · exact ((unbounded_repeat_stops scene 0 optionalLetter none 1 {}).2.2 4 room).2

end PlainPattern
