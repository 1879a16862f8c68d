import Mathlib.Data.List.Chain
import PlainPattern.Proofs.Rollback

/-!
Contract: an attempt is cut short only where a name is followed.

Owns: outcomes that an attempt comes to by itself, and evaluators that always come to one. Each
combinator keeps them, so by induction on the tree a node settles if the patterns settle that it
refers to, and two families of patterns that agree on these names give it the same evaluator. The
names are those of `Node.references`: of every reference in the tree, also in blocks and separators.
-/

set_option autoImplicit false

namespace PlainPattern

/-- The attempt was not cut short while it followed names. -/
def Outcome.Decided : Outcome → Prop
  | .answer _ _ => True
  | .undecided error _ => ∀ name, error ≠ .endlessReference name

namespace Evaluator

/-- From every state an attempt comes to an answer, or to an error of its own. -/
def Settled (evaluator : Evaluator) : Prop :=
  ∀ entry, (evaluator entry).Decided

theorem Settled.undecided {evaluator : Evaluator} {entry after : State} {error : MatchError}
    (settled : Settled evaluator) (outcome : evaluator entry = .undecided error after)
    (state : State) : (Outcome.undecided error state).Decided := by
  have decided := settled entry
  rwa [outcome] at decided

/-! ## Combinators -/

section Combinators

variable {text : Array Char}

theorem exactly_settled (expected : List Char) : Settled (exactly text expected) := by
  intro entry
  unfold exactly
  split <;> trivial

theorem oneCharacter_settled (test : Char → Bool) : Settled (oneCharacter text test) := by
  intro entry
  unfold oneCharacter
  split
  · split <;> trivial
  · trivial

theorem firstOf_settled {evaluators : List Evaluator}
    (each : ∀ evaluator ∈ evaluators, Settled evaluator) : Settled (firstOf evaluators) := by
  intro entry
  induction evaluators generalizing entry with
  | nil => trivial
  | cons evaluator others inductionHypothesis =>
      unfold firstOf
      split
      · trivial
      · exact inductionHypothesis (fun other member => each other (by simp [member])) _
      · rename_i outcome
        exact (each evaluator (by simp)).undecided outcome _

theorem stepUnless_settled {evaluators : List Evaluator}
    (each : ∀ evaluator ∈ evaluators, Settled evaluator) :
    Settled (stepUnless text evaluators) := by
  intro entry
  induction evaluators generalizing entry with
  | nil => trivial
  | cons evaluator others inductionHypothesis =>
      unfold stepUnless
      split
      · trivial
      · exact inductionHypothesis (fun other member => each other (by simp [member])) _
      · rename_i outcome
        exact (each evaluator (by simp)).undecided outcome _

theorem absent_settled {evaluator : Evaluator} (settled : Settled evaluator) :
    Settled (absent evaluator) := by
  intro entry
  unfold absent
  split
  · trivial
  · rename_i outcome
    exact settled.undecided outcome _

theorem collectingAs_settled {evaluator : Evaluator} (name : Option String)
    (settled : Settled evaluator) : Settled (collectingAs name evaluator) := by
  intro entry
  cases name with
  | none => exact settled entry
  | some name =>
      by_cases collecting : name ∈ entry.collecting
      · rw [collectingAs_of_collecting collecting]
        exact settled entry
      · rw [collectingAs_of_fresh collecting]
        cases outcome : evaluator (entry.beginCapture name) with
        | answer matched after => trivial
        | undecided error after => exact settled.undecided outcome _

theorem block_settled {branches : List Branch}
    (each : ∀ branch ∈ branches, Settled branch.evaluator) : Settled (block branches) := by
  intro entry
  unfold block
  generalize entry.checkpoint = checkpoint
  generalize true = filled
  fun_induction children checkpoint filled branches entry with
  | case1 => trivial
  | case2 => trivial
  | case3 child rest state _ inductionHypothesis =>
      exact inductionHypothesis fun branch member => each branch (by simp [member])
  | case4 => trivial
  | case5 filled child rest state matched after _ _ _ inductionHypothesis =>
      exact inductionHypothesis fun branch member => each branch (by simp [member])
  | case6 filled child rest state error after outcome _ _ =>
      exact (each child (by simp)).undecided outcome _

theorem conclude_decided (bounds : Bounds) (entry : Checkpoint) (count : Nat) (state : State) :
    (conclude bounds entry count state).Decided := by
  unfold conclude
  split <;> trivial

theorem gap_decided {separator : Option Separator}
    (settled : ∀ found ∈ separator, Settled found.evaluator) {state after : State}
    {error : MatchError} (outcome : gap separator state = .undecided error after) :
    (Outcome.undecided error after).Decided := by
  cases separator with
  | none => cases outcome
  | some separator =>
      simp only [gap] at outcome
      split at outcome
      · cases outcome
      · split at outcome <;> cases outcome
      · rename_i inner
        cases outcome
        exact (settled separator rfl).undecided inner _

/-- The induction is on the rounds, each of which brings the cursor nearer to the end. -/
theorem repeated_settled {bounds : Bounds} {separator : Option Separator} {item : Evaluator}
    (itemSettled : Settled item) (settled : ∀ found ∈ separator, Settled found.evaluator) :
    Settled (repeated text bounds separator item) := by
  intro entry
  unfold repeated
  generalize entry.checkpoint = checkpoint
  generalize 0 = count
  generalize (none : Option Checkpoint) = beforeGap
  fun_induction repeatFrom text bounds separator item checkpoint count beforeGap entry with
  | case1 count beforeGap state error after outcome => exact itemSettled.undecided outcome _
  | case2 => exact conclude_decided ..
  | case3 => exact conclude_decided ..
  | case4 => trivial
  | case5 count beforeGap state matched _ _ error after behind => exact gap_decided settled behind
  | case6 => exact conclude_decided ..
  | case7 count beforeGap state matched _ _ after _ _ inductionHypothesis =>
      exact inductionHypothesis
  | case8 => exact conclude_decided ..

end Combinators

/-! ## Rounds of a repeat -/

/-- One round of a repeat: an item that matches, and what stands behind it lets another follow. -/
def Round (separator : Option Separator) (item : Evaluator) (state after : State) : Prop :=
  ∃ matched, item state = .answer true matched ∧ gap separator matched = .onward after

section Rounds

variable {text : Array Char} {separator : Option Separator} {item : Evaluator}
  {state after : State}

theorem Round.consumes (itemLawful : Lawful text item)
    (lawful : ∀ found ∈ separator, Lawful text found.evaluator)
    (round : Round separator item state after) : Consumes text state after := by
  obtain ⟨matched, outcome, behind⟩ := round
  have law := gap_lawful lawful matched
  rw [behind] at law
  exact (itemLawful.matched outcome).andThen law

/-- A round brings the cursor nearer to the end of the text if it moves it at all. -/
theorem Round.remaining_lt_iff (itemLawful : Lawful text item)
    (lawful : ∀ found ∈ separator, Lawful text found.evaluator)
    (round : Round separator item state after) :
    after.remaining text < state.remaining text ↔ after.position ≠ state.position :=
  (round.consumes itemLawful lawful).remaining_lt_iff

/-- As long as its rounds move the cursor, a repeat makes no more of them than there are characters
left. -/
theorem length_le_of_rounds (itemLawful : Lawful text item)
    (lawful : ∀ found ∈ separator, Lawful text found.evaluator) {states : List State}
    (rounds : (state :: states).IsChain fun earlier later =>
      Round separator item earlier later ∧ later.position ≠ earlier.position) :
    states.length ≤ state.remaining text := by
  induction states generalizing state with
  | nil => exact Nat.zero_le _
  | cons next later inductionHypothesis =>
      obtain ⟨⟨round, moved⟩, onward⟩ := List.isChain_cons_cons.1 rounds
      have nearer := (round.remaining_lt_iff itemLawful lawful).2 moved
      have fewer := inductionHypothesis onward
      rw [List.length_cons]
      omega

end Rounds

end Evaluator

/-! ## References -/

mutual

/-- The names of all references in a tree: in itself, in everything inside it and in its
separators. -/
def Node.references : Node → List String
  | .mk body _ repetition => body.references ++ repetition.references

def Body.references : Body → List String
  | .block children => referencesOf children
  | .rule _ => []
  | .reference name => [name]

def Repetition.references : Repetition → List String
  | .once => []
  | .times _ => []
  | .separated _ separator => separator.references

def referencesOf : List Node → List String
  | [] => []
  | node :: rest => node.references ++ referencesOf rest

end

namespace Scene

open Evaluator

variable (scene : Scene)

/-! ## Charsets -/

section Charsets

variable {charset other : String → Evaluator}

theorem criterionWith_settled (criterion : Criterion)
    (settled : ∀ name, criterion = .symbol name → Settled (charset name)) :
    Settled (scene.criterionWith charset criterion) := by
  intro entry
  cases criterion with
  | literal text => exact exactly_settled text.toList entry
  | valueOf name =>
      simp only [criterionWith]
      split
      · exact exactly_settled _ entry
      · intro other same
        cases same
  | range low high => exact oneCharacter_settled _ entry
  | symbol name =>
      simp only [criterionWith]
      split
      · exact oneCharacter_settled _ entry
      · exact settled name rfl entry
  | endpoint endpoint => cases endpoint <;> trivial

theorem criterionWith_congr (criterion : Criterion)
    (agree : ∀ name, criterion = .symbol name → charset name = other name) :
    scene.criterionWith charset criterion = scene.criterionWith other criterion := by
  cases criterion with
  | symbol name =>
      funext entry
      simp only [criterionWith, agree name rfl]
  | literal | valueOf | range => rfl
  | endpoint endpoint => cases endpoint <;> rfl

theorem charsetWith_settled (found : Charset)
    (settled : ∀ name, .symbol name ∈ found.criteria → Settled (charset name)) :
    Settled (scene.charsetWith charset found) := by
  refine firstOf_settled fun evaluator member => ?_
  obtain ⟨criterion, inside, rfl⟩ := List.mem_map.1 member
  exact scene.criterionWith_settled criterion fun name same => settled name (same ▸ inside)

theorem charsetWith_congr (found : Charset)
    (agree : ∀ name, .symbol name ∈ found.criteria → charset name = other name) :
    scene.charsetWith charset found = scene.charsetWith other found := by
  have same : found.criteria.map (scene.criterionWith charset) =
      found.criteria.map (scene.criterionWith other) := by
    refine List.map_congr_left fun criterion inside => ?_
    exact scene.criterionWith_congr criterion fun name same => agree name (same ▸ inside)
  funext entry
  simp only [charsetWith, same]

end Charsets

/-! ## Nodes -/

theorem rule_settled (settled : ∀ name, Settled (scene.charset name)) (rule : Rule) :
    Settled (scene.rule rule) := by
  have each : ∀ evaluator ∈ rule.criteria.map scene.criterion, Settled evaluator := by
    intro evaluator member
    obtain ⟨criterion, _, rfl⟩ := List.mem_map.1 member
    exact scene.criterionWith_settled criterion fun name _ => settled name
  intro entry
  unfold Scene.rule
  split
  · trivial
  · split
    · exact firstOf_settled each entry
    · exact stepUnless_settled each entry

section Nodes

variable {pattern other : String → Evaluator}

mutual

theorem nodeWith_settled (charsets : ∀ name, Settled (scene.charset name)) :
    ∀ node : Node, (∀ name ∈ node.references, Settled (pattern name)) →
      Settled (scene.nodeWith pattern node)
  | .mk body marks repetition, settled => by
      have once := collectingAs_settled marks.collectAs
        (bodyWith_settled charsets body fun name member =>
          settled name (List.mem_append_left _ member))
      have whole := repetitionWith_settled charsets once repetition fun name member =>
        settled name (List.mem_append_right _ member)
      intro entry
      simp only [nodeWith]
      split
      · exact absent_settled whole entry
      · exact whole entry

theorem bodyWith_settled (charsets : ∀ name, Settled (scene.charset name)) :
    ∀ body : Body, (∀ name ∈ body.references, Settled (pattern name)) →
      Settled (scene.bodyWith pattern body)
  | .block children, settled => block_settled (branchesWith_settled charsets children settled)
  | .rule rule, _ => scene.rule_settled charsets rule
  | .reference name, settled => settled name (List.mem_singleton_self name)

theorem repetitionWith_settled (charsets : ∀ name, Settled (scene.charset name))
    {item : Evaluator} (itemSettled : Settled item) :
    ∀ repetition : Repetition, (∀ name ∈ repetition.references, Settled (pattern name)) →
      Settled (scene.repetitionWith pattern item repetition)
  | .once, _ => itemSettled
  | .times bounds, _ => repeated_settled itemSettled (by simp)
  | .separated bounds separator, settled => by
      refine repeated_settled itemSettled fun found member => ?_
      obtain rfl := Option.mem_some.1 member
      exact nodeWith_settled charsets separator settled

theorem branchesWith_settled (charsets : ∀ name, Settled (scene.charset name)) :
    ∀ nodes : List Node, (∀ name ∈ referencesOf nodes, Settled (pattern name)) →
      ∀ branch ∈ scene.branchesWith pattern nodes, Settled branch.evaluator
  | [], _, branch, member => by simp [branchesWith] at member
  | node :: rest, settled, branch, member => by
      rcases List.mem_cons.1 member with rfl | inRest
      · exact nodeWith_settled charsets node fun name named =>
          settled name (List.mem_append_left _ named)
      · exact branchesWith_settled charsets rest
          (fun name named => settled name (List.mem_append_right _ named)) branch inRest

end

mutual

theorem nodeWith_congr : ∀ node : Node, (∀ name ∈ node.references, pattern name = other name) →
    scene.nodeWith pattern node = scene.nodeWith other node
  | .mk body marks repetition, agree => by
      have sameBody := bodyWith_congr body fun name member =>
        agree name (List.mem_append_left _ member)
      have sameRepetition := fun item => repetitionWith_congr item repetition fun name member =>
        agree name (List.mem_append_right _ member)
      funext entry
      simp only [nodeWith, sameBody, sameRepetition]

theorem bodyWith_congr : ∀ body : Body, (∀ name ∈ body.references, pattern name = other name) →
    scene.bodyWith pattern body = scene.bodyWith other body
  | .block children, agree => by
      funext entry
      simp only [bodyWith, branchesWith_congr children agree]
  | .rule rule, _ => rfl
  | .reference name, agree => agree name (List.mem_singleton_self name)

theorem repetitionWith_congr (item : Evaluator) :
    ∀ repetition : Repetition, (∀ name ∈ repetition.references, pattern name = other name) →
      scene.repetitionWith pattern item repetition = scene.repetitionWith other item repetition
  | .once, _ => rfl
  | .times bounds, _ => rfl
  | .separated bounds separator, agree => by
      simp only [repetitionWith, nodeWith_congr separator agree]

theorem branchesWith_congr :
    ∀ nodes : List Node, (∀ name ∈ referencesOf nodes, pattern name = other name) →
      scene.branchesWith pattern nodes = scene.branchesWith other nodes
  | [], _ => rfl
  | node :: rest, agree => by
      have sameNode := nodeWith_congr node fun name named =>
        agree name (List.mem_append_left _ named)
      have sameRest := branchesWith_congr rest fun name named =>
        agree name (List.mem_append_right _ named)
      rw [branchesWith, branchesWith, sameNode, sameRest]

end

theorem patternWith_settled (charsets : ∀ name, Settled (scene.charset name)) (found : Pattern)
    (settled : ∀ name ∈ referencesOf found.children, Settled (pattern name)) :
    Settled (scene.patternWith pattern found) :=
  block_settled (scene.branchesWith_settled charsets found.children settled)

theorem patternWith_congr (found : Pattern)
    (agree : ∀ name ∈ referencesOf found.children, pattern name = other name) :
    scene.patternWith pattern found = scene.patternWith other found := by
  funext entry
  simp only [patternWith, scene.branchesWith_congr found.children agree]

end Nodes

/-! ## Rounds of a node -/

def separatorWith (pattern : String → Evaluator) : Repetition → Option Separator
  | .separated _ separator => some ⟨separator.optional, scene.nodeWith pattern separator⟩
  | .once | .times _ => none

/-- One round of a repeated node, behind which the cursor is at another place. -/
def MovingRound (pattern : String → Evaluator) (node : Node) (earlier later : State) : Prop :=
  Round (scene.separatorWith pattern node.repetition)
    (collectingAs node.collectAs (scene.bodyWith pattern node.body)) earlier later ∧
    later.position ≠ earlier.position

theorem separatorWith_lawful {scene : Scene} {pattern : String → Evaluator}
    (lawful : ∀ name, Lawful scene.text (pattern name)) (repetition : Repetition) :
    ∀ found ∈ scene.separatorWith pattern repetition, Lawful scene.text found.evaluator := by
  intro found member
  cases repetition with
  | once | times bounds => cases member
  | separated bounds separator =>
      obtain rfl := Option.mem_some.1 member
      exact scene.nodeWith_lawful lawful separator

theorem length_le_of_movingRounds {scene : Scene} {pattern : String → Evaluator}
    (lawful : ∀ name, Lawful scene.text (pattern name)) {node : Node} {entry : State}
    {states : List State} (rounds : (entry :: states).IsChain (scene.MovingRound pattern node)) :
    states.length ≤ entry.remaining scene.text :=
  length_le_of_rounds
    (collectingAs_lawful node.collectAs (scene.bodyWith_lawful lawful node.body))
    (separatorWith_lawful lawful node.repetition) rounds

end Scene

end PlainPattern
