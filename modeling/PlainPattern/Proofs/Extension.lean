import PlainPattern.Proofs.Occurrences
import PlainPattern.Proofs.OrderedChoice
import PlainPattern.Proofs.Settling
import PlainPattern.Proofs.Unrolling

/-!
Contract: evaluators that come to the same outcome wherever another one is not cut short.

Owns: `ExtendedBy`, which is asked of some states only, and what it takes for these states to be all
that an attempt passes through (`Onward`, and `Scene.Allows` for the captures of a tree). Each
combinator keeps the relation, one lemma for each, and by induction on the tree so do the nodes of
two scenes that differ in their schemas.

Does not own: how deep names have to be followed. That is `Proofs.Depth`.
-/

set_option autoImplicit false

namespace PlainPattern

/-- What is consumed from one of these states leads to another of them. -/
def Onward (text : Array Char) (within : State → Prop) : Prop :=
  ∀ entry after, within entry → Consumes text entry after → within after

namespace Evaluator

/-- In these states the other evaluator does what this one does, unless this one is cut short. -/
def ExtendedBy (within : State → Prop) (evaluator other : Evaluator) : Prop :=
  ∀ entry, within entry → (evaluator entry).Decided → other entry = evaluator entry

/-- Branches that differ in nothing but evaluators of which one extends the other. -/
structure Branch.ExtendedBy (within : State → Prop) (branch other : Branch) : Prop where
  forks : other.forks = branch.forks
  optional : other.optional = branch.optional
  evaluator : Evaluator.ExtendedBy within branch.evaluator other.evaluator

/-- There is a separator on both sides or on neither, and one extends the other. -/
inductive SeparatorsExtended (within : State → Prop) :
    Option Separator → Option Separator → Prop where
  | none : SeparatorsExtended within none none
  | some {evaluator other : Evaluator} (optional : Bool)
      (extended : ExtendedBy within evaluator other) :
      SeparatorsExtended within (some ⟨optional, evaluator⟩) (some ⟨optional, other⟩)

namespace ExtendedBy

variable {within : State → Prop} {evaluator other : Evaluator} {entry after : State}

theorem refl (within : State → Prop) (evaluator : Evaluator) :
    ExtendedBy within evaluator evaluator :=
  fun _ _ _ => rfl

/-- An answer is never cut short. -/
theorem answered {matched : Bool} (extended : ExtendedBy within evaluator other)
    (inside : within entry) (outcome : evaluator entry = .answer matched after) :
    other entry = .answer matched after := by
  rw [extended entry inside (by rw [outcome]; trivial), outcome]

theorem undecided {error : MatchError} (extended : ExtendedBy within evaluator other)
    (inside : within entry) (outcome : evaluator entry = .undecided error after)
    (decided : (Outcome.undecided error after).Decided) :
    other entry = .undecided error after := by
  rw [extended entry inside (by rw [outcome]; exact decided), outcome]

end ExtendedBy

section Combinators

variable {text : Array Char} {within : State → Prop}

/-! ### Criteria -/

/-- A criterion that fails leaves the state to the next one, so the states need not be more than
one. -/
theorem firstOf_extended {evaluators others : List Evaluator}
    (lawful : ∀ evaluator ∈ evaluators, Lawful text evaluator)
    (each : List.Forall₂ (ExtendedBy within) evaluators others) :
    ExtendedBy within (firstOf evaluators) (firstOf others) := by
  intro entry inside decided
  induction each with
  | nil => rfl
  | @cons evaluator other _ _ extended _ inductionHypothesis =>
      obtain ⟨headLawful, tailLawful⟩ := List.forall_mem_cons.1 lawful
      rw [firstOf] at decided ⊢
      rw [firstOf]
      cases outcome : evaluator entry with
      | undecided error after =>
          rw [outcome] at decided
          rw [extended.undecided inside outcome decided]
      | answer matched after =>
          rw [outcome] at decided
          rw [extended.answered inside outcome]
          cases matched with
          | true => rfl
          | false =>
              obtain rfl := headLawful.unmatched outcome
              exact inductionHypothesis tailLawful decided

theorem stepUnless_extended {evaluators others : List Evaluator}
    (lawful : ∀ evaluator ∈ evaluators, Lawful text evaluator)
    (each : List.Forall₂ (ExtendedBy within) evaluators others) :
    ExtendedBy within (stepUnless text evaluators) (stepUnless text others) := by
  intro entry inside decided
  induction each with
  | nil => rfl
  | @cons evaluator other _ _ extended _ inductionHypothesis =>
      obtain ⟨headLawful, tailLawful⟩ := List.forall_mem_cons.1 lawful
      rw [stepUnless] at decided ⊢
      rw [stepUnless]
      cases outcome : evaluator entry with
      | undecided error after =>
          rw [outcome] at decided
          rw [extended.undecided inside outcome decided]
      | answer matched after =>
          rw [outcome] at decided
          rw [extended.answered inside outcome]
          cases matched with
          | true => rfl
          | false =>
              obtain rfl := headLawful.unmatched outcome
              exact inductionHypothesis tailLawful decided

/-! ### Nodes -/

theorem absent_extended {evaluator other : Evaluator}
    (extended : ExtendedBy within evaluator other) :
    ExtendedBy within (absent evaluator) (absent other) := by
  intro entry inside decided
  rw [absent] at decided ⊢
  rw [absent]
  cases outcome : evaluator entry with
  | answer matched after => rw [extended.answered inside outcome]
  | undecided error after =>
      rw [outcome] at decided
      rw [extended.undecided inside outcome decided]

theorem collectingAs_extended {evaluator other : Evaluator} {name : Option String}
    (begins : ∀ begun ∈ name, ∀ entry, within entry → within (entry.beginCapture begun))
    (extended : ExtendedBy within evaluator other) :
    ExtendedBy within (collectingAs name evaluator) (collectingAs name other) := by
  intro entry inside decided
  cases name with
  | none => exact extended entry inside decided
  | some name =>
      by_cases collecting : name ∈ entry.collecting
      · rw [collectingAs_of_collecting collecting] at decided ⊢
        rw [collectingAs_of_collecting collecting]
        exact extended entry inside decided
      · have begun := begins name rfl entry inside
        rw [collectingAs_of_fresh collecting] at decided ⊢
        rw [collectingAs_of_fresh collecting]
        cases outcome : evaluator (entry.beginCapture name) with
        | answer matched after => rw [extended.answered begun outcome]
        | undecided error after =>
            rw [outcome] at decided
            rw [extended.undecided begun outcome decided]

theorem children_extended (onward : Onward text within) {branches others : List Branch}
    (lawful : ∀ branch ∈ branches, Lawful text branch.evaluator)
    (each : List.Forall₂ (Branch.ExtendedBy within) branches others) (entry : Checkpoint)
    (filled : Bool) {state : State} (inside : within state)
    (decided : (children entry filled branches state).Decided) :
    children entry filled others state = children entry filled branches state := by
  induction each generalizing filled state with
  | nil => rfl
  | @cons branch other _ _ extended _ inductionHypothesis =>
      obtain ⟨headLawful, tailLawful⟩ := List.forall_mem_cons.1 lawful
      by_cases tried : branch.forks = !filled
      · rw [children_of_tried tried] at decided ⊢
        rw [children_of_tried (extended.forks.trans tried), extended.optional]
        cases outcome : branch.evaluator state with
        | undecided error after =>
            rw [outcome] at decided
            rw [extended.evaluator.undecided inside outcome decided]
        | answer matched after =>
            rw [outcome] at decided
            rw [extended.evaluator.answered inside outcome]
            exact inductionHypothesis tailLawful _
              (onward _ _ inside (headLawful.answered outcome)) decided
      · cases filled with
        | false =>
            have firm : branch.forks = false := by simpa using tried
            rw [children_of_failed firm, children_of_failed (extended.forks.trans firm)]
        | true =>
            have forks : branch.forks = true := by simpa using tried
            rw [children_of_passed forks] at decided ⊢
            rw [children_of_passed (extended.forks.trans forks)]
            exact inductionHypothesis tailLawful true inside decided

theorem block_extended (onward : Onward text within) {branches others : List Branch}
    (lawful : ∀ branch ∈ branches, Lawful text branch.evaluator)
    (each : List.Forall₂ (Branch.ExtendedBy within) branches others) :
    ExtendedBy within (block branches) (block others) :=
  fun entry inside => children_extended onward lawful each entry.checkpoint true inside

/-! ### Repeats -/

/-- The separator was not cut short while it followed names. -/
def Gap.Decided : Gap → Prop
  | .onward _ | .ended _ => True
  | .undecided error after => (Outcome.undecided error after).Decided

theorem gap_extended {separator other : Option Separator}
    (extended : SeparatorsExtended within separator other) {state : State} (inside : within state)
    {found : Gap} (behind : gap separator state = found) (decided : found.Decided) :
    gap other state = found := by
  cases extended with
  | none => exact behind
  | @some evaluator _ optional extended =>
      subst behind
      simp only [gap] at decided ⊢
      cases outcome : evaluator state with
      | answer matched after => rw [extended.answered inside outcome]
      | undecided error after =>
          rw [outcome] at decided
          rw [extended.undecided inside outcome decided]

theorem SeparatorsExtended.map_eq {separator other : Option Separator}
    (extended : SeparatorsExtended within separator other) (checkpoint : Checkpoint) :
    (other.map fun _ => checkpoint) = separator.map fun _ => checkpoint := by
  cases extended <;> rfl

/-- The induction is on the rounds; from one to the next the state stays among those asked for. -/
theorem repeatFrom_extended (onward : Onward text within) {bounds : Bounds}
    {separator otherSeparator : Option Separator} {item otherItem : Evaluator}
    (itemLawful : Lawful text item)
    (lawful : ∀ found ∈ separator, Lawful text found.evaluator)
    (itemExtended : ExtendedBy within item otherItem)
    (extended : SeparatorsExtended within separator otherSeparator) (entry : Checkpoint)
    (count : Nat) (beforeGap : Option Checkpoint) (state : State) (inside : within state) :
    (repeatFrom text bounds separator item entry count beforeGap state).Decided →
      repeatFrom text bounds otherSeparator otherItem entry count beforeGap state =
        repeatFrom text bounds separator item entry count beforeGap state := by
  fun_induction repeatFrom text bounds separator item entry count beforeGap state with
  | case1 count beforeGap state error after outcome =>
      intro decided
      rw [repeatFrom, itemExtended.undecided inside outcome decided]
  | case2 count state after outcome =>
      intro _
      rw [repeatFrom, itemExtended.answered inside outcome]
  | case3 count state after outcome before =>
      intro _
      rw [repeatFrom, itemExtended.answered inside outcome]
  | case4 count beforeGap state matched outcome isLast =>
      intro _
      rw [repeatFrom, itemExtended.answered inside outcome]
      simp only [if_pos isLast]
  | case5 count beforeGap state matched outcome notLast error after behind =>
      intro decided
      have stands := onward _ _ inside (itemLawful.matched outcome)
      rw [repeatFrom, itemExtended.answered inside outcome]
      simp only [if_neg notLast, gap_extended extended stands behind decided]
  | case6 count beforeGap state matched outcome notLast after behind =>
      intro _
      have stands := onward _ _ inside (itemLawful.matched outcome)
      rw [repeatFrom, itemExtended.answered inside outcome]
      simp only [if_neg notLast, gap_extended extended stands behind trivial]
  -- Another round, from the state behind the gap.
  | case7 count beforeGap state matched outcome notLast after behind nearer inductionHypothesis =>
      intro decided
      have stands := onward _ _ inside (itemLawful.matched outcome)
      have law := gap_lawful lawful matched
      rw [behind] at law
      rw [repeatFrom, itemExtended.answered inside outcome]
      simp only [if_neg notLast, gap_extended extended stands behind trivial, if_pos nearer,
        extended.map_eq]
      exact inductionHypothesis (onward _ _ stands law) decided
  | case8 count beforeGap state matched outcome notLast after behind idle =>
      intro _
      have stands := onward _ _ inside (itemLawful.matched outcome)
      rw [repeatFrom, itemExtended.answered inside outcome]
      simp only [if_neg notLast, gap_extended extended stands behind trivial, if_neg idle]

theorem repeated_extended (onward : Onward text within) {bounds : Bounds}
    {separator otherSeparator : Option Separator} {item otherItem : Evaluator}
    (itemLawful : Lawful text item)
    (lawful : ∀ found ∈ separator, Lawful text found.evaluator)
    (itemExtended : ExtendedBy within item otherItem)
    (extended : SeparatorsExtended within separator otherSeparator) :
    ExtendedBy within (repeated text bounds separator item)
      (repeated text bounds otherSeparator otherItem) :=
  fun entry inside => repeatFrom_extended onward itemLawful lawful itemExtended extended
    entry.checkpoint 0 none entry inside

end Combinators

end Evaluator

/-! ## Captures -/

mutual

/-- The names under which a tree collects: itself, everything inside it and its separators. -/
def Node.captureNames : Node → List String
  | .mk body marks repetition =>
      marks.collectAs.toList ++ (body.captureNames ++ repetition.captureNames)

def Body.captureNames : Body → List String
  | .block children => captureNamesOf children
  | .rule _ => []
  | .reference _ => []

def Repetition.captureNames : Repetition → List String
  | .once => []
  | .times _ => []
  | .separated _ separator => separator.captureNames

def captureNamesOf : List Node → List String
  | [] => []
  | node :: rest => node.captureNames ++ captureNamesOf rest

end

theorem mem_captureNamesOf {name : String} {nodes : List Node} :
    name ∈ captureNamesOf nodes ↔ ∃ node ∈ nodes, name ∈ node.captureNames := by
  induction nodes with
  | nil => simp [captureNamesOf]
  | cons node rest inductionHypothesis => simp [captureNamesOf, inductionHypothesis]

mutual

/-- Each node collects under at most one name. -/
theorem Node.length_captureNames_le : ∀ node : Node, node.captureNames.length ≤ node.nodeCount
  | .mk body marks repetition => by
      have inBody := body.length_captureNames_le
      have inRepetition := repetition.length_captureNames_le
      have own : marks.collectAs.toList.length ≤ 1 := by cases marks.collectAs <;> simp
      simp only [Node.captureNames, Node.nodeCount, List.length_append]
      omega

theorem Body.length_captureNames_le : ∀ body : Body, body.captureNames.length ≤ body.nodeCount
  | .block children => length_captureNamesOf_le children
  | .rule _ => Nat.le_refl _
  | .reference _ => Nat.le_refl _

theorem Repetition.length_captureNames_le : ∀ repetition : Repetition,
    repetition.captureNames.length ≤ repetition.nodeCount
  | .once => Nat.le_refl _
  | .times _ => Nat.le_refl _
  | .separated _ separator => separator.length_captureNames_le

theorem length_captureNamesOf_le : ∀ nodes : List Node,
    (captureNamesOf nodes).length ≤ nodeCountOf nodes
  | [] => Nat.le_refl _
  | node :: rest => by
      have first := node.length_captureNames_le
      have others := length_captureNamesOf_le rest
      simp only [captureNamesOf, nodeCountOf, List.length_append]
      omega

end

namespace Scene

open Evaluator

/-! ## Criteria and rules -/

/-- Two scenes that differ in nothing but their schemas. -/
structure SharesInput (scene other : Scene) : Prop where
  text : other.text = scene.text
  supplied : other.supplied = scene.supplied

section Criteria

variable {scene other : Scene} {within : State → Prop}

theorem criterionWith_extended (shares : SharesInput scene other)
    {charset more : String → Evaluator} {criterion : Criterion}
    (extended : ∀ name, criterion = .symbol name → CharacterClass.ofName? name = none →
      ExtendedBy within (charset name) (more name)) :
    ExtendedBy within (scene.criterionWith charset criterion)
      (other.criterionWith more criterion) := by
  intro entry inside decided
  cases criterion with
  | literal | range => simp only [criterionWith, shares.text]
  | valueOf name => simp only [criterionWith, shares.text, shares.supplied]
  | endpoint endpoint => cases endpoint <;> simp only [criterionWith, shares.text]
  | symbol name =>
      simp only [criterionWith] at decided ⊢
      cases isClass : CharacterClass.ofName? name with
      | some characterClass => simp only [shares.text]
      | none =>
          rw [isClass] at decided
          exact extended name rfl isClass entry inside decided

theorem criteriaWith_extended (shares : SharesInput scene other)
    {charset more : String → Evaluator} {criteria : List Criterion}
    (extended : ∀ name, .symbol name ∈ criteria → CharacterClass.ofName? name = none →
      ExtendedBy within (charset name) (more name)) :
    List.Forall₂ (ExtendedBy within) (criteria.map (scene.criterionWith charset))
      (criteria.map (other.criterionWith more)) := by
  rw [List.forall₂_map_left_iff, List.forall₂_map_right_iff, List.forall₂_same]
  exact fun criterion member => criterionWith_extended shares fun name same noClass =>
    extended name (same ▸ member) noClass

theorem charsetWith_extended (shares : SharesInput scene other) {charset more : String → Evaluator}
    (lawful : ∀ name, Lawful scene.text (charset name)) {found : Charset}
    (extended : ∀ name, .symbol name ∈ found.criteria → CharacterClass.ofName? name = none →
      ExtendedBy within (charset name) (more name)) :
    ExtendedBy within (scene.charsetWith charset found) (other.charsetWith more found) :=
  firstOf_extended (scene.criteriaWith_lawful lawful found.criteria)
    (criteriaWith_extended shares extended)

theorem rule_extended (shares : SharesInput scene other) {rule : Rule}
    (extended : ∀ name, .symbol name ∈ rule.criteria → CharacterClass.ofName? name = none →
      ExtendedBy within (scene.charset name) (other.charset name)) :
    ExtendedBy within (scene.rule rule) (other.rule rule) := by
  have lawful := scene.criteria_lawful rule.criteria
  have each : List.Forall₂ (ExtendedBy within) (rule.criteria.map scene.criterion)
      (rule.criteria.map other.criterion) := criteriaWith_extended shares extended
  intro entry
  unfold Scene.rule
  rw [shares.text]
  split
  · exact fun _ _ => rfl
  · split
    · exact firstOf_extended lawful each entry
    · exact stepUnless_extended lawful each entry

end Criteria

/-! ## Nodes and patterns -/

/-- Two scenes that differ in their schemas, and evaluators of the patterns that the first refers to
by name. -/
structure Compared (scene other : Scene) (within : State → Prop) (pattern : String → Evaluator) :
    Prop extends SharesInput scene other where
  onward : Onward scene.text within
  lawful : ∀ name, Lawful scene.text (pattern name)

/-- What the parts of a tree need so that it is extended: the patterns that it refers to and its
rules are, and the names that it begins to collect lead to states that are asked for. -/
structure Allows (scene other : Scene) (within : State → Prop) (pattern more : String → Evaluator)
    (references : List String) (rules : List Rule) (captures : List String) : Prop where
  references : ∀ name ∈ references, ExtendedBy within (pattern name) (more name)
  rules : ∀ rule ∈ rules, ExtendedBy within (scene.rule rule) (other.rule rule)
  captures : ∀ name ∈ captures, ∀ entry, within entry → within (entry.beginCapture name)

section Nodes

variable {scene other : Scene} {within : State → Prop} {pattern more : String → Evaluator}

section Parts

variable {references moreReferences : List String} {rules moreRules : List Rule}
  {captures moreCaptures : List String}

theorem Allows.left (allows : Allows scene other within pattern more
    (references ++ moreReferences) (rules ++ moreRules) (captures ++ moreCaptures)) :
    Allows scene other within pattern more references rules captures where
  references := fun name member => allows.references name (List.mem_append_left _ member)
  rules := fun rule member => allows.rules rule (List.mem_append_left _ member)
  captures := fun name member => allows.captures name (List.mem_append_left _ member)

theorem Allows.right (allows : Allows scene other within pattern more
    (references ++ moreReferences) (rules ++ moreRules) (captures ++ moreCaptures)) :
    Allows scene other within pattern more moreReferences moreRules moreCaptures where
  references := fun name member => allows.references name (List.mem_append_right _ member)
  rules := fun rule member => allows.rules rule (List.mem_append_right _ member)
  captures := fun name member => allows.captures name (List.mem_append_right _ member)

end Parts

/-! The induction on the tree: one step for each kind of node, body and repetition. -/

mutual

theorem nodeWith_extended (compared : Compared scene other within pattern) : ∀ node : Node,
    Allows scene other within pattern more node.references node.rules node.captureNames →
    ExtendedBy within (scene.nodeWith pattern node) (other.nodeWith more node)
  | .mk body marks repetition, allows => by
      have parts : Allows scene other within pattern more (body.references ++ repetition.references)
          (body.rules ++ repetition.rules) (body.captureNames ++ repetition.captureNames) :=
        ⟨allows.references, allows.rules, fun name member =>
          allows.captures name (List.mem_append_right _ member)⟩
      have begins : ∀ begun ∈ marks.collectAs, ∀ entry, within entry →
          within (entry.beginCapture begun) := fun begun isName =>
        allows.captures begun (List.mem_append_left _ (Option.mem_toList.2 isName))
      have once := collectingAs_extended begins (bodyWith_extended compared body parts.left)
      have lawful := collectingAs_lawful marks.collectAs
        (scene.bodyWith_lawful compared.lawful body)
      have whole := repetitionWith_extended compared lawful once repetition parts.right
      intro entry
      simp only [nodeWith]
      split
      · exact absent_extended whole entry
      · exact whole entry

theorem bodyWith_extended (compared : Compared scene other within pattern) : ∀ body : Body,
    Allows scene other within pattern more body.references body.rules body.captureNames →
    ExtendedBy within (scene.bodyWith pattern body) (other.bodyWith more body)
  | .block children, allows =>
      block_extended compared.onward (scene.branchesWith_lawful compared.lawful children)
        (branchesWith_extended compared children allows)
  | .rule rule, allows => allows.rules rule (List.mem_singleton_self rule)
  | .reference name, allows => allows.references name (List.mem_singleton_self name)

theorem repetitionWith_extended (compared : Compared scene other within pattern)
    {item otherItem : Evaluator} (itemLawful : Lawful scene.text item)
    (items : ExtendedBy within item otherItem) : ∀ repetition : Repetition,
    Allows scene other within pattern more repetition.references repetition.rules
      repetition.captureNames →
    ExtendedBy within (scene.repetitionWith pattern item repetition)
      (other.repetitionWith more otherItem repetition)
  | .once, _ => items
  | .times _, _ => by
      simp only [repetitionWith, compared.text]
      exact repeated_extended compared.onward itemLawful (by simp) items .none
  | .separated _ separator, allows => by
      have lawful := scene.nodeWith_lawful compared.lawful separator
      simp only [repetitionWith, compared.text]
      exact repeated_extended compared.onward itemLawful
        (fun found member => by
          obtain rfl := Option.mem_some.1 member
          exact lawful) items
        (.some separator.optional (nodeWith_extended compared separator allows))

theorem branchesWith_extended (compared : Compared scene other within pattern) :
    ∀ nodes : List Node,
    Allows scene other within pattern more (referencesOf nodes) (rulesOf nodes)
      (captureNamesOf nodes) →
    List.Forall₂ (Branch.ExtendedBy within) (scene.branchesWith pattern nodes)
      (other.branchesWith more nodes)
  | [], _ => .nil
  | node :: rest, allows =>
      .cons ⟨rfl, rfl, nodeWith_extended compared node allows.left⟩
        (branchesWith_extended compared rest allows.right)

end

theorem patternWith_extended (compared : Compared scene other within pattern) (found : Pattern)
    (allows : Allows scene other within pattern more (referencesOf found.children)
      (rulesOf found.children) (captureNamesOf found.children)) :
    ExtendedBy within (scene.patternWith pattern found) (other.patternWith more found) :=
  block_extended compared.onward (scene.branchesWith_lawful compared.lawful found.children)
    (branchesWith_extended compared found.children allows)

end Nodes

end Scene

end PlainPattern
