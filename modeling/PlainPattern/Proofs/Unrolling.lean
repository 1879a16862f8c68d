import PlainPattern.Proofs.OrderedChoice
import PlainPattern.Proofs.Settling
import PlainPattern.Proofs.TreeRules

/-!
Contract: a repeat with a maximum comes to the block that it abbreviates.

Owns: the block that spells a repeat out (`Node.unrolled`); the rounds of a repeat, without a look
at the cursor (`Evaluator.roundsFrom`), to which both sides come: `repeatFrom_of_matched` for the
loop, and `children_rounds` for the block. The loop ends where a round has not moved the cursor
(`repeatFrom_of_onward`), but this makes no difference (`roundsFrom_of_idle`).
`bounded_repeat_is_unrolled` is the main result. What a repeat has matched in the end is a row of
items, each but the first behind its separator (`Evaluator.Items`).
-/

set_option autoImplicit false

namespace PlainPattern

theorem State.restore_congr {first second : State} (checkpoint : Checkpoint)
    (sameCollecting : first.collecting = second.collecting) :
    first.restore checkpoint = second.restore checkpoint := by
  rw [State.restore, State.restore, sameCollecting]

/-! ## Rounds -/

namespace Evaluator

/-- One round, which is what stands between two items and another item, and `next` behind it. A
round that fails comes to `failed`. -/
def roundThen (separator : Option Separator) (item : Evaluator) (failed : Outcome)
    (next : Evaluator) : Evaluator := fun state =>
  match gap separator state with
  | .undecided error after => .undecided error after
  | .ended _ => failed
  | .onward between =>
      match item between with
      | .undecided error after => .undecided error after
      | .answer false _ => failed
      | .answer true matched => next matched

/-- Up to `more` rounds behind `count` items. The first round that fails is given back and ends the
repeat. -/
def roundsFrom (bounds : Bounds) (separator : Option Separator) (item : Evaluator)
    (entry : Checkpoint) : Nat → Nat → Evaluator
  | 0, _, state => .answer true state
  | more + 1, count, state =>
      roundThen separator item (conclude bounds entry count state)
        (roundsFrom bounds separator item entry more (count + 1)) state

/-- Items one after another, each but the first behind its separator. -/
inductive Items (separator : Option Separator) (item : Evaluator) (entry : State) :
    Nat → State → Prop where
  | first {after : State} (matched : item entry = .answer true after) :
      Items separator item entry 1 after
  | next {count : Nat} {before between after : State}
      (items : Items separator item entry count before)
      (behind : gap separator before = .onward between)
      (matched : item between = .answer true after) :
      Items separator item entry (count + 1) after

section Rounds

variable {text : Array Char} {separator : Option Separator} {item : Evaluator}
  {entry : Checkpoint} {least most count more : Nat} {state matched : State}

theorem conclude_of_within (enough : least ≤ count) (notTooMany : count ≤ most) :
    conclude ⟨least, some most⟩ entry count state = .answer true state := by
  have satisfied : (⟨least, some most⟩ : Bounds).satisfiedBy count = true := by
    rw [Bounds.satisfiedBy_iff]
    refine ⟨enough, ?_⟩
    rintro max ⟨⟩
    exact notTooMany
  rw [conclude, if_pos satisfied]

theorem conclude_of_short (short : count < least) :
    conclude ⟨least, some most⟩ entry count state = .answer false (state.restore entry) := by
  have unsatisfied : ¬(⟨least, some most⟩ : Bounds).satisfiedBy count = true := by
    rw [Bounds.satisfiedBy_iff]
    exact fun satisfied => absurd satisfied.1 (Nat.not_le_of_lt short)
  rw [conclude, if_neg unsatisfied]

/-- A round that leads back to where it began is followed by others just like it. -/
theorem roundsFrom_of_idle (outcome : item state = .answer true state)
    (behind : gap separator state = .onward state) (more count : Nat) :
    roundsFrom ⟨least, some most⟩ separator item entry more count state = .answer true state := by
  induction more generalizing count with
  | zero => rfl
  | succ more inductionHypothesis =>
      simp only [roundsFrom, roundThen, behind, outcome]
      exact inductionHypothesis (count + 1)

theorem repeatFrom_of_undecided {bounds : Bounds} {beforeGap : Option Checkpoint}
    {error : MatchError} {after : State} (outcome : item state = .undecided error after) :
    repeatFrom text bounds separator item entry count beforeGap state =
      .undecided error after := by
  rw [repeatFrom]
  simp only [outcome]

/-- A separator with no item behind it is given back. -/
theorem repeatFrom_of_missing {bounds : Bounds} {between after : State}
    (itemLawful : Lawful text item)
    (lawful : ∀ found ∈ separator, Lawful text found.evaluator)
    (behind : gap separator matched = .onward between)
    (outcome : item between = .answer false after) :
    repeatFrom text bounds separator item entry count
        (separator.map fun _ => matched.checkpoint) between =
      conclude bounds entry count matched := by
  have law := gap_lawful lawful matched
  rw [behind] at law
  rw [repeatFrom]
  simp only [outcome]
  rw [itemLawful.unmatched outcome]
  cases separator with
  | none =>
      cases behind
      rfl
  | some found =>
      have back := State.restore_checkpoint_of_collecting (Consumes.collecting_eq law)
      simp only [Option.map_some, back]

/-- The loop behind an item that has matched and what stands behind it, if there is room for another
item: it goes on if this round has moved the cursor. -/
theorem repeatFrom_of_onward {bounds : Bounds} {beforeGap : Option Checkpoint} {between : State}
    (itemLawful : Lawful text item) (lawful : ∀ found ∈ separator, Lawful text found.evaluator)
    (outcome : item state = .answer true matched) (notLast : bounds.max ≠ some (count + 1))
    (behind : gap separator matched = .onward between) :
    repeatFrom text bounds separator item entry count beforeGap state =
      if between.position = state.position then
        conclude bounds entry (max (count + 1) bounds.min) between
      else
        repeatFrom text bounds separator item entry (count + 1)
          (separator.map fun _ => matched.checkpoint) between := by
  have nearer := Round.remaining_lt_iff itemLawful lawful ⟨matched, outcome, behind⟩
  rw [repeatFrom]
  simp only [outcome, if_neg notLast, behind, nearer, ne_eq, ite_not]

/-- The loop behind an item that has matched. The induction is on the rounds that the maximum still
allows. -/
theorem repeatFrom_of_matched (itemLawful : Lawful text item)
    (lawful : ∀ found ∈ separator, Lawful text found.evaluator) (ordered : least ≤ most)
    {beforeGap : Option Checkpoint} (outcome : item state = .answer true matched)
    (room : count + 1 + more = most) :
    repeatFrom text ⟨least, some most⟩ separator item entry count beforeGap state =
      roundsFrom ⟨least, some most⟩ separator item entry more (count + 1) matched := by
  induction more generalizing count beforeGap state matched with
  | zero =>
      obtain rfl : count + 1 = most := room
      rw [repeatFrom]
      simp only [outcome, if_pos]
      rfl
  | succ more inductionHypothesis =>
      have notYet : some most ≠ some (count + 1) := by
        rw [ne_eq, Option.some.injEq]
        omega
      rw [roundsFrom, roundThen]
      have law := gap_lawful lawful matched
      cases behind : gap separator matched with
      | undecided error after =>
          rw [repeatFrom]
          simp only [outcome, if_neg notYet, behind]
      | ended after =>
          rw [behind] at law
          rw [repeatFrom]
          simp only [outcome, if_neg notYet, behind]
          rw [show after = matched from law]
      | onward between =>
          rw [behind] at law
          rw [repeatFrom_of_onward itemLawful lawful outcome notYet behind]
          simp only
          split
          -- The guard ends the loop. The rounds go on, and each leads back to where it began.
          · rename_i stays
            have toMatched := itemLawful.matched outcome
            have toBetween : Consumes text matched between := law
            have forward := toMatched.position_le
            have onward := toBetween.position_le
            obtain rfl := toMatched.eq_of_position_eq (by omega)
            obtain rfl := toBetween.eq_of_position_eq (by omega)
            rw [conclude_of_within (Nat.le_max_right _ _) (by omega), outcome]
            exact (roundsFrom_of_idle outcome behind more (count + 1 + 1)).symm
          · cases next : item between with
            | undecided error after => exact repeatFrom_of_undecided next
            | answer again after =>
                cases again with
                | true => exact inductionHypothesis next (by omega)
                | false => exact repeatFrom_of_missing itemLawful lawful behind next

theorem repeated_eq (itemLawful : Lawful text item)
    (lawful : ∀ found ∈ separator, Lawful text found.evaluator) (atLeastOnce : 1 ≤ least)
    (ordered : least ≤ most) (start : State) :
    repeated text ⟨least, some most⟩ separator item start =
      match item start with
      | .undecided error after => .undecided error after
      | .answer false _ => .answer false start
      | .answer true matched =>
          roundsFrom ⟨least, some most⟩ separator item start.checkpoint (most - 1) 1 matched := by
  unfold repeated
  cases outcome : item start with
  | undecided error after => exact repeatFrom_of_undecided outcome
  | answer matched after =>
      cases matched with
      | true => exact repeatFrom_of_matched itemLawful lawful ordered outcome (by omega)
      | false =>
          rw [repeatFrom]
          simp only [outcome]
          rw [itemLawful.unmatched outcome]
          exact conclude_of_short atLeastOnce

/-! ## Rounds as children -/

/-- An item as a child that has to match. -/
def itemBranch (item : Evaluator) : Branch :=
  ⟨false, false, item⟩

def separatorBranch (separator : Separator) : Branch :=
  ⟨false, separator.optional, separator.evaluator⟩

/-- The children that one round comes to. -/
def roundBranches (separator : Option Separator) (item : Evaluator) : List Branch :=
  (separator.map separatorBranch).toList ++ [itemBranch item]

/-- The child, if there is one, that comes to up to `more` rounds, each inside the one before. -/
def roundsBranches (separator : Option Separator) (item : Evaluator) : Nat → List Branch
  | 0 => []
  | more + 1 => [⟨false, true, block (roundBranches separator item ++
      roundsBranches separator item more)⟩]

/-- The children of the block that a repeat comes to. -/
def unrolledBranches (separator : Option Separator) (item : Evaluator) (least most : Nat) :
    List Branch :=
  itemBranch item :: ((List.replicate (least - 1) (roundBranches separator item)).flatten ++
    roundsBranches separator item (most - least))

section Children

variable {rest : List Branch}

theorem children_separator (lawful : ∀ found ∈ separator, Lawful text found.evaluator)
    (noFork : ∀ next ∈ rest.head?, next.forks = false) :
    children entry true ((separator.map separatorBranch).toList ++ rest) state =
      match gap separator state with
      | .onward after => children entry true rest after
      | .ended _ => .answer false (state.restore entry)
      | .undecided error after => .undecided error after := by
  cases separator with
  | none => rfl
  | some separator =>
      have separatorLawful := lawful separator rfl
      change children entry true (separatorBranch separator :: rest) state = _
      rw [children_of_tried rfl, gap]
      cases outcome : separator.evaluator state with
      | undecided error after => simp only [separatorBranch, outcome]
      | answer matched after =>
          cases matched with
          | true => simp only [separatorBranch, outcome, Bool.true_or]
          | false =>
              simp only [separatorBranch, outcome, Bool.false_or]
              rw [separatorLawful.unmatched outcome]
              cases separator.optional with
              | true => rfl
              | false => exact children_of_open noFork

theorem children_item (itemLawful : Lawful text item)
    (noFork : ∀ next ∈ rest.head?, next.forks = false) :
    children entry true (itemBranch item :: rest) state =
      match item state with
      | .answer true after => children entry true rest after
      | .answer false _ => .answer false (state.restore entry)
      | .undecided error after => .undecided error after := by
  rw [children_of_tried rfl]
  cases outcome : item state with
  | undecided error after => simp only [itemBranch, outcome]
  | answer matched after =>
      cases matched with
      | true => simp only [itemBranch, outcome, Bool.true_or]
      | false =>
          simp only [itemBranch, outcome, Bool.false_or]
          rw [itemLawful.unmatched outcome]
          exact children_of_open noFork

/-- One round among the children of a block that began at `entry`. -/
theorem children_round (itemLawful : Lawful text item)
    (lawful : ∀ found ∈ separator, Lawful text found.evaluator)
    (noFork : ∀ next ∈ rest.head?, next.forks = false) :
    children entry true (roundBranches separator item ++ rest) state =
      roundThen separator item (.answer false (state.restore entry)) (children entry true rest)
        state := by
  have itemFirst : ∀ next ∈ (itemBranch item :: rest).head?, next.forks = false := by
    rintro next ⟨⟩
    rfl
  rw [roundBranches, List.append_assoc, List.singleton_append, roundThen,
    children_separator lawful itemFirst]
  have law := gap_lawful lawful state
  cases behind : gap separator state with
  | undecided error after => rfl
  | ended after => rfl
  | onward between =>
      rw [behind] at law
      have sameCollecting : between.collecting = state.collecting := Consumes.collecting_eq law
      simp only
      rw [children_item itemLawful noFork, State.restore_congr entry sameCollecting]
      cases item between with
      | undecided error after => rfl
      | answer matched after => cases matched <;> rfl

theorem head?_roundBranches_append (rest : List Branch) :
    ∀ next ∈ (roundBranches separator item ++ rest).head?, next.forks = false := by
  cases separator with
  | none | some found =>
      rintro next ⟨⟩
      rfl

theorem head?_roundsBranches (more : Nat) :
    ∀ next ∈ (roundsBranches separator item more).head?, next.forks = false := by
  cases more with
  | zero => simp [roundsBranches]
  | succ more =>
      rintro next ⟨⟩
      rfl

theorem head?_rounds (missing more : Nat) :
    ∀ next ∈ ((List.replicate missing (roundBranches separator item)).flatten ++
      roundsBranches separator item more).head?, next.forks = false := by
  cases missing with
  | zero => exact head?_roundsBranches more
  | succ missing =>
      rw [List.replicate_succ, List.flatten_cons, List.append_assoc]
      exact head?_roundBranches_append _

/-- Behind enough items a round that fails costs nothing. -/
theorem roundsFrom_ne_unmatched (enough : least ≤ count) (room : count + more ≤ most)
    (state after : State) :
    roundsFrom ⟨least, some most⟩ separator item entry more count state ≠ .answer false after := by
  induction more generalizing count state with
  | zero => simp [roundsFrom]
  | succ more inductionHypothesis =>
      rw [roundsFrom, conclude_of_within enough (by omega), roundThen]
      cases gap separator state with
      | undecided error other => simp
      | ended other => simp
      | onward between =>
          cases outcome : item between with
          | undecided error other => simp [outcome]
          | answer matched other =>
              cases matched with
              | false => simp [outcome]
              | true => simpa [outcome] using inductionHypothesis (by omega) (by omega) other

/-- The rounds that need not match, as optional blocks inside one another. -/
theorem children_roundsBranches (itemLawful : Lawful text item)
    (lawful : ∀ found ∈ separator, Lawful text found.evaluator) (begun : Checkpoint)
    (enough : least ≤ count) (room : count + more ≤ most) :
    children begun true (roundsBranches separator item more) state =
      roundsFrom ⟨least, some most⟩ separator item entry more count state := by
  induction more generalizing begun count state with
  | zero => rfl
  | succ more inductionHypothesis =>
      have inner : children state.checkpoint true (roundsBranches separator item more) =
          roundsFrom ⟨least, some most⟩ separator item entry more (count + 1) :=
        funext fun matched => inductionHypothesis state.checkpoint (by omega) (by omega)
      have asBlock : block (roundBranches separator item ++ roundsBranches separator item more)
          state = roundThen separator item (.answer false state)
            (roundsFrom ⟨least, some most⟩ separator item entry more (count + 1)) state := by
        rw [← inner]
        exact children_round itemLawful lawful (head?_roundsBranches more)
      rw [roundsBranches, roundsFrom, children_of_tried rfl, conclude_of_within enough (by omega)]
      simp only [asBlock, roundThen]
      cases gap separator state with
      | undecided error after => rfl
      | ended after => rfl
      | onward between =>
          simp only
          cases item between with
          | undecided error after => rfl
          | answer again matched =>
              cases again with
              | false => rfl
              | true =>
                  simp only
                  cases further : roundsFrom ⟨least, some most⟩ separator item entry more
                      (count + 1) matched with
                  | undecided error after => rfl
                  | answer again after =>
                      cases again with
                      | true => rfl
                      | false =>
                          exact absurd further
                            (roundsFrom_ne_unmatched (by omega) (by omega) matched after)

/-- The rounds that have to match, and behind them those that need not. -/
theorem children_rounds (itemLawful : Lawful text item)
    (lawful : ∀ found ∈ separator, Lawful text found.evaluator) {missing : Nat}
    (short : count + missing = least) (ordered : least ≤ most) :
    children entry true ((List.replicate missing (roundBranches separator item)).flatten ++
        roundsBranches separator item (most - least)) state =
      roundsFrom ⟨least, some most⟩ separator item entry (most - count) count state := by
  induction missing generalizing count state with
  | zero =>
      obtain rfl : count = least := short
      exact children_roundsBranches itemLawful lawful entry le_rfl (by omega)
  | succ missing inductionHypothesis =>
      obtain ⟨more, room⟩ : ∃ more, most - count = more + 1 := ⟨most - count - 1, by omega⟩
      have further : most - (count + 1) = more := by omega
      have inner : children entry true ((List.replicate missing
          (roundBranches separator item)).flatten ++
            roundsBranches separator item (most - least)) =
          roundsFrom ⟨least, some most⟩ separator item entry more (count + 1) :=
        funext fun matched => further ▸ inductionHypothesis (by omega)
      rw [List.replicate_succ, List.flatten_cons, List.append_assoc,
        children_round itemLawful lawful (head?_rounds missing _), room, roundsFrom,
        conclude_of_short (by omega), inner]

/-- A repeat with a maximum is a block of its rounds. -/
theorem repeated_eq_block (itemLawful : Lawful text item)
    (lawful : ∀ found ∈ separator, Lawful text found.evaluator) (atLeastOnce : 1 ≤ least)
    (ordered : least ≤ most) :
    repeated text ⟨least, some most⟩ separator item =
      block (unrolledBranches separator item least most) := by
  funext start
  rw [repeated_eq itemLawful lawful atLeastOnce ordered]
  unfold block unrolledBranches
  rw [children_item itemLawful (head?_rounds (least - 1) (most - least))]
  cases outcome : item start with
  | undecided error after => rfl
  | answer matched after =>
      cases matched with
      | false => rfl
      | true => exact (children_rounds itemLawful lawful (by omega) ordered).symm

end Children

/-! ## Rows of items -/

theorem eq_of_conclude {bounds : Bounds} {after : State}
    (concluded : conclude bounds entry count state = .answer true after) :
    bounds.satisfiedBy count = true ∧ after = state := by
  unfold conclude at concluded
  split at concluded
  · rename_i satisfied
    cases concluded
    exact ⟨satisfied, rfl⟩
  · cases concluded

/-- What has matched when a repeat ends is a row of items, as long as the bounds allow. -/
theorem exists_items_of_roundsFrom {start after : State} (ordered : least ≤ most)
    (items : Items separator item start count state) (room : count + more = most)
    (outcome : roundsFrom ⟨least, some most⟩ separator item entry more count state =
      .answer true after) :
    ∃ total, least ≤ total ∧ total ≤ most ∧ Items separator item start total after := by
  induction more generalizing count state with
  | zero =>
      cases outcome
      exact ⟨count, by omega, by omega, items⟩
  | succ more inductionHypothesis =>
      have ends (concluded : conclude ⟨least, some most⟩ entry count state = .answer true after) :
          ∃ total, least ≤ total ∧ total ≤ most ∧ Items separator item start total after := by
        obtain ⟨satisfied, rfl⟩ := eq_of_conclude concluded
        obtain ⟨enough, _⟩ := (Bounds.satisfiedBy_iff _ _).1 satisfied
        exact ⟨count, enough, by omega, items⟩
      rw [roundsFrom, roundThen] at outcome
      split at outcome
      · cases outcome
      · exact ends outcome
      · rename_i between behind
        split at outcome
        · cases outcome
        · exact ends outcome
        · rename_i matched
          exact inductionHypothesis (items.next behind matched) (by omega) outcome

theorem exists_items_of_repeated (itemLawful : Lawful text item)
    (lawful : ∀ found ∈ separator, Lawful text found.evaluator) (atLeastOnce : 1 ≤ least)
    (ordered : least ≤ most) {start after : State}
    (outcome : repeated text ⟨least, some most⟩ separator item start = .answer true after) :
    ∃ total, least ≤ total ∧ total ≤ most ∧ Items separator item start total after := by
  rw [repeated_eq itemLawful lawful atLeastOnce ordered] at outcome
  split at outcome
  · cases outcome
  · cases outcome
  · rename_i first
    exact exists_items_of_roundsFrom ordered (.first first) (by omega) outcome

end Rounds

end Evaluator

/-! ## Trees -/

/-- The node as it stands in each round: nothing is said of it but the name that collects it. -/
def Node.item (node : Node) : Node :=
  .mk node.body { collectAs := node.collectAs } .once

/-- The node as a child that is no alternative. A separator is none to begin with. -/
def Node.firm (node : Node) : Node :=
  node.withMarks { node.marks with forks := false }

theorem Node.firm_eq {node : Node} (noFork : node.forks = false) : node.firm = node := by
  obtain ⟨body, ⟨forks, optional, negated, collectAs⟩, repetition⟩ := node
  obtain rfl : forks = false := noFork
  rfl

/-- The repetition of a node that is written with or without a separator. -/
def Repetition.of (bounds : Bounds) : Option Node → Repetition
  | none => .times bounds
  | some separator => .separated bounds separator

theorem Node.firm_eq_of_obeys {rules : TreeRules} {node : Node} {bounds : Bounds}
    {separator : Option Node} (obeys : (node.withRepetition (.of bounds separator)).Obeys rules) :
    ∀ found ∈ separator, found.firm = found := by
  rintro found ⟨⟩
  obtain ⟨_, _, _, noFork, _⟩ := Node.obeys_iff.1 obeys
  exact Node.firm_eq noFork

/-- The nodes of one round. -/
def Node.round (node : Node) (separator : Option Node) : List Node :=
  (separator.map Node.firm).toList ++ [node.item]

/-- Up to `more` rounds: an optional block of one round, inside which the next one may follow. -/
def Node.rounds (node : Node) (separator : Option Node) : Nat → List Node
  | 0 => []
  | more + 1 =>
      [.mk (.block (node.round separator ++ node.rounds separator more)) { optional := true } .once]

/-- The children that a repeat comes to: the item, the rounds up to the minimum one after another,
and those from there up to the maximum inside one another. -/
def Node.unrolled (node : Node) (separator : Option Node) (least most : Nat) : List Node :=
  node.item :: ((List.replicate (least - 1) (node.round separator)).flatten ++
    node.rounds separator (most - least))

namespace Scene

open Evaluator

variable (scene : Scene) (pattern : String → Evaluator)

/-- The evaluator of a node by itself. -/
def itemWith (node : Node) : Evaluator :=
  collectingAs node.collectAs (scene.bodyWith pattern node.body)

theorem itemWith_lawful {scene : Scene} {pattern : String → Evaluator}
    (lawful : ∀ name, Lawful scene.text (pattern name)) (node : Node) :
    Lawful scene.text (scene.itemWith pattern node) :=
  collectingAs_lawful node.collectAs (scene.bodyWith_lawful lawful node.body)

theorem branchWith_item (node : Node) :
    scene.branchWith pattern node.item = itemBranch (scene.itemWith pattern node) := by
  rw [branchWith, nodeWith_eq]
  rfl

theorem nodeWith_firm (node : Node) :
    scene.nodeWith pattern node.firm = scene.nodeWith pattern node := by
  rw [nodeWith_eq, nodeWith_eq]
  rfl

theorem repetitionsOf_of (node : Node) (bounds : Bounds) (separator : Option Node) :
    scene.repetitionsOf pattern (node.withRepetition (.of bounds separator)) =
      repeated scene.text bounds (scene.separatorWith pattern (.of bounds separator))
        (scene.itemWith pattern node) := by
  cases separator <;> rfl

theorem nodeWith_of {node : Node} (affirmed : node.negated = false) (bounds : Bounds)
    (separator : Option Node) :
    scene.nodeWith pattern (node.withRepetition (.of bounds separator)) =
      repeated scene.text bounds (scene.separatorWith pattern (.of bounds separator))
        (scene.itemWith pattern node) := by
  have sameMark : (node.withRepetition (.of bounds separator)).negated = node.negated := rfl
  rw [nodeWith_eq, sameMark, affirmed]
  exact scene.repetitionsOf_of pattern node bounds separator

theorem branchesWith_round (node : Node) (bounds : Bounds) (separator : Option Node) :
    scene.branchesWith pattern (node.round separator) =
      roundBranches (scene.separatorWith pattern (.of bounds separator))
        (scene.itemWith pattern node) := by
  rw [branchesWith_eq_map, Node.round, List.map_append, List.map_singleton, branchWith_item]
  cases separator with
  | none => rfl
  | some found =>
      change [scene.branchWith pattern found.firm] ++ _ = _
      rw [branchWith, nodeWith_firm]
      rfl

theorem branchesWith_rounds (node : Node) (bounds : Bounds) (separator : Option Node) (more : Nat) :
    scene.branchesWith pattern (node.rounds separator more) =
      roundsBranches (scene.separatorWith pattern (.of bounds separator))
        (scene.itemWith pattern node) more := by
  induction more with
  | zero => rfl
  | succ more inductionHypothesis =>
      have inside : scene.branchesWith pattern
          (node.round separator ++ node.rounds separator more) =
            roundBranches (scene.separatorWith pattern (.of bounds separator))
              (scene.itemWith pattern node) ++
            roundsBranches (scene.separatorWith pattern (.of bounds separator))
              (scene.itemWith pattern node) more := by
        rw [← inductionHypothesis, ← branchesWith_round scene pattern node bounds separator]
        simp only [branchesWith_eq_map, List.map_append]
      rw [Node.rounds, roundsBranches, ← inside, branchesWith_eq_map, List.map_singleton,
        branchWith, nodeWith_eq]
      rfl

theorem branchesWith_unrolled (node : Node) (bounds : Bounds) (separator : Option Node)
    (least most : Nat) :
    scene.branchesWith pattern (node.unrolled separator least most) =
      unrolledBranches (scene.separatorWith pattern (.of bounds separator))
        (scene.itemWith pattern node) least most := by
  rw [unrolledBranches, ← branchesWith_round, ← branchesWith_rounds, ← branchWith_item]
  simp only [branchesWith_eq_map, Node.unrolled, List.map_cons, List.map_append, List.map_flatten,
    List.map_replicate]

end Scene

/-- A node that is repeated between `least` and `most` times comes to what its unrolling comes to,
as a block: the item, one round after another up to the minimum, and optional rounds inside one
another from there up to the maximum. In a tree that obeys its rules the separator is no
alternative to anything, and so stands in the rounds as it is. What a repeat has matched is a row of
items, within its bounds and each but the first behind its separator, and nothing behind the last
item; what falls short consumes nothing. -/
theorem bounded_repeat_is_unrolled (scene : Scene) (depth : Nat) (node : Node)
    (separator : Option Node) (least most : Nat) (affirmed : node.negated = false)
    (atLeastOnce : 1 ≤ least) (ordered : least ≤ most) (entry : State) :
    let repetition := Repetition.of ⟨least, some most⟩ separator
    let outcome := scene.evaluatorTo depth (.node (node.withRepetition repetition)) entry
    outcome = scene.evaluatorTo depth (.block (node.unrolled separator least most)) entry ∧
      (∀ rules, (node.withRepetition repetition).Obeys rules →
        ∀ found ∈ separator, found.firm = found) ∧
      (∀ after, outcome = .answer true after → ∃ count, least ≤ count ∧ count ≤ most ∧
        Evaluator.Items (scene.separatorWith (scene.patternTo depth) repetition)
          (scene.evaluatorTo depth (.node node.item)) entry count after) ∧
      ∀ after, outcome = .answer false after → after = entry := by
  intro repetition outcome
  have patterns := scene.patternTo_lawful depth
  have itemLawful := Scene.itemWith_lawful patterns node
  have separatorLawful := Scene.separatorWith_lawful patterns repetition
  have isRepeated : scene.evaluatorTo depth (.node (node.withRepetition repetition)) =
      Evaluator.repeated scene.text ⟨least, some most⟩
        (scene.separatorWith (scene.patternTo depth) repetition)
        (scene.itemWith (scene.patternTo depth) node) :=
    scene.nodeWith_of (scene.patternTo depth) affirmed _ separator
  have isItem : scene.evaluatorTo depth (.node node.item) =
      scene.itemWith (scene.patternTo depth) node :=
    congrArg Evaluator.Branch.evaluator (scene.branchWith_item (scene.patternTo depth) node)
  refine ⟨?_, fun rules => Node.firm_eq_of_obeys, ?_, ?_⟩
  · have unrolled := scene.branchesWith_unrolled (scene.patternTo depth) node ⟨least, some most⟩
      separator least most
    change scene.evaluatorTo depth _ entry = Evaluator.block _ entry
    rw [isRepeated, unrolled,
      Evaluator.repeated_eq_block itemLawful separatorLawful atLeastOnce ordered]
  · intro after matched
    rw [isItem]
    exact Evaluator.exists_items_of_repeated itemLawful separatorLawful atLeastOnce ordered
      (isRepeated ▸ matched)
  · exact fun after => (scene.evaluatorTo_lawful depth _).unmatched

/-- One letter out of three, which is collected. -/
def collectedLetter : Node :=
  .mk (.rule ⟨true, [.range 'a' 'c']⟩) { collectAs := some "letters" } .once

/-- Two or three letters with commas between them: the second comma is followed by no letter, and is
given back, in the loop as well as in the optional block. -/
theorem trailing_comma_is_given_back :
    let scene := Scene.ofText "a,b,1"
    let comma := Node.exactly "," {}
    let outcome := scene.evaluatorTo 0
      (.node (collectedLetter.withRepetition (.of ⟨2, some 3⟩ (some comma)))) {}
    collectedLetter.negated = false ∧ 1 ≤ 2 ∧ 2 ≤ 3 ∧
      collectedLetter.unrolled (some comma) 2 3 =
        [collectedLetter, comma, collectedLetter,
          .mk (.block [comma, collectedLetter]) { optional := true } .once] ∧
      outcome =
        scene.evaluatorTo 0 (.block (collectedLetter.unrolled (some comma) 2 3)) {} ∧
      outcome.after.position = 3 ∧ outcome.after.captured.get? "letters" = some "ab" := by
  intro scene comma outcome
  have sameOutcome := (bounded_repeat_is_unrolled scene 0 collectedLetter (some comma) 2 3 rfl
    (by decide) (by decide) {}).1
  refine ⟨rfl, by decide, by decide, rfl, sameOutcome, ?_⟩
  simp only [outcome, sameOutcome]
  decide +kernel

end PlainPattern
