import PlainPattern.Proofs.DeclaredNames

/-!
Contract: which refusals are about the shape of a tree, and where an edit meets no other.

Owns: the structural refusals (`Refusal.isStructural`); results that are refused for nothing else
(`LeadsTo`), with one lemma for each edit that says what has to be known of a draft beforehand and
what is known of it afterwards; and the names of a draft, all of which were declared or are numbers
(`Draft.NamedAmong`), so that a name that is declared anew is free.
-/

set_option autoImplicit false

namespace PlainPattern

/-- The refusals that a well-formed text can bring about: they are about the tree or the charsets
that it describes. All others are about an edit that has no place where it is made. -/
def Refusal.isStructural : Refusal → Bool
  | firstRuleForks | separatorWithoutRepeat | emptyBlock | emptyPattern | repeatWithoutTarget
  | repeatOfRepeat | repeatOfNegation | charsetContainsItself | charsetCycle _ => true
  | patternNeverClosed | nameTaken _ | patternEndedInsideBlock | noPatternToEnd | noBlockToClose
  | separatorForks | criterionWithoutRule | criterionWithoutOwner | invalidRepeatRange
  | collectionWithoutRule | outsidePattern | emptyCharset => false

/-- The result is one with `kept`, unless it is refused for a structural reason. -/
def LeadsTo {Value : Type} (kept : Value → Prop) : Except Refusal Value → Prop
  | .ok value => kept value
  | .error refusal => refusal.isStructural = true

/-- What an edit comes to for those who stop at a refusal. -/
def Revision.result (revision : Revision) : Except Refusal Draft :=
  match revision.refusal with
  | none => .ok revision.draft
  | some refusal => .error refusal

section LeadsTo

variable {Value Next : Type} {kept other : Value → Prop} {result : Except Refusal Value}

theorem LeadsTo.mono (leads : LeadsTo kept result)
    (implies : ∀ value, result = .ok value → kept value → other value) : LeadsTo other result := by
  cases result with
  | error refusal => exact leads
  | ok value => exact implies value rfl leads

theorem LeadsTo.of_error (leads : LeadsTo kept result) {refusal : Refusal}
    (refused : result = .error refusal) : refusal.isStructural = true := by
  rw [refused] at leads
  exact leads

theorem LeadsTo.bind {next : Value → Except Refusal Next} {later : Next → Prop}
    (leads : LeadsTo kept result) (goesOn : ∀ value, kept value → LeadsTo later (next value)) :
    LeadsTo later (result.bind next) := by
  cases result with
  | error refusal => exact leads
  | ok value => exact goesOn value leads

end LeadsTo

/-! ## Blocks -/

theorem joinChain_leads (chain : List Node) (joined : Option Node) :
    LeadsTo (fun _ => True) (joinChain joined chain) := by
  induction chain generalizing joined with
  | nil => trivial
  | cons link outer inductionHypothesis =>
      cases joined with
      | none => exact inductionHypothesis (some link)
      | some separator =>
          simp only [joinChain]
          split
          · exact inductionHypothesis _
          · rfl

namespace OpenBlock

/-- The child placed last can still be named or repeated. -/
def HasLast (block : OpenBlock) : Prop :=
  block.chain ≠ []

/-- The child placed last is a rule that takes criteria. -/
def TakesCriteria (block : OpenBlock) : Prop :=
  block.acceptsCriteria = true ∧
    ∃ rule marks repetition outer, block.chain = .mk (.rule rule) marks repetition :: outer

variable {block : OpenBlock}

theorem hasLast_of_cons {node : Node} {outer : List Node} (chained : block.chain = node :: outer) :
    block.HasLast := by
  rw [HasLast, chained]
  exact List.cons_ne_nil _ _

theorem TakesCriteria.hasLast (takes : block.TakesCriteria) : block.HasLast := by
  obtain ⟨_, rule, marks, repetition, outer, chained⟩ := takes
  exact hasLast_of_cons chained

theorem settled_leads (block : OpenBlock) : LeadsTo (fun _ => True) block.settled := by
  have joined := joinChain_leads block.chain none
  unfold settled
  split
  · trivial
  · rename_i refused
    exact joined.of_error refused

theorem checkPlacement_leads (block : OpenBlock) {lead : Lead}
    (apart : (lead.separates && lead.forks) = false) :
    LeadsTo (fun _ => True) (block.checkPlacement lead) := by
  unfold checkPlacement
  split
  · rename_i separates
    split
    · rfl
    · split
      · rename_i forks
        rw [separates, forks] at apart
        cases apart
      · trivial
  · split
    · rfl
    · trivial

/-- A node that is placed is the end of the chain. -/
theorem place_leads (block : OpenBlock) (node : Node) (separates acceptsCriteria : Bool) :
    LeadsTo (fun after => after.acceptsCriteria = acceptsCriteria ∧
      ∃ outer, after.chain = node :: outer) (block.place node separates acceptsCriteria) := by
  have settled := block.settled_leads
  unfold place
  split
  · exact ⟨rfl, _, rfl⟩
  · split
    · exact ⟨rfl, _, rfl⟩
    · rename_i refused
      exact settled.of_error refused

theorem add_leads (block : OpenBlock) {lead : Lead}
    (apart : (lead.separates && lead.forks) = false) (body : Body) (acceptsCriteria : Bool) :
    LeadsTo (fun after => after.acceptsCriteria = acceptsCriteria ∧
      ∃ outer, after.chain = lead.node body :: outer) (block.add lead body acceptsCriteria) := by
  have checked := block.checkPlacement_leads apart
  unfold add
  split
  · exact place_leads _ _ _ _
  · rename_i refused
    exact checked.of_error refused

theorem TakesCriteria.addCriterion_leads (takes : block.TakesCriteria) (criterion : Criterion) :
    LeadsTo TakesCriteria (block.addCriterion criterion) := by
  obtain ⟨accepts, rule, marks, repetition, outer, chained⟩ := takes
  rw [addCriterion, accepts, chained]
  exact ⟨rfl, _, _, _, _, rfl⟩

theorem addRepeat_leads (block : OpenBlock) (bounds : Bounds) :
    LeadsTo HasLast (block.addRepeat bounds) := by
  unfold addRepeat
  split
  · rfl
  · split
    · split
      · rfl
      · exact List.cons_ne_nil _ _
    · rfl
    · rfl

theorem HasLast.collectAs_leads (hasLast : block.HasLast) (name : String) :
    LeadsTo HasLast (block.collectAs name) := by
  unfold collectAs
  split
  · rename_i empty
    exact absurd empty hasLast
  · exact List.cons_ne_nil _ _

end OpenBlock

/-! ## Drafts -/

namespace Draft

/-- A pattern is open with this many blocks inside it, and the innermost one is such a block. -/
def IsOpen (draft : Draft) (depth : Nat) (innermost : OpenBlock → Prop) : Prop :=
  ∃ pattern, draft.current = .pattern pattern ∧ pattern.enclosing.length = depth ∧
    innermost pattern.innermost

/-- The next symbol may begin: no pattern is open, and no charset is empty. -/
def Rests (draft : Draft) : Prop :=
  draft.commit.refusal = none

def IsCharset (draft : Draft) : Prop :=
  ∃ charset, draft.current = .charset charset

variable {draft : Draft} {depth : Nat} {first second : OpenBlock → Prop}

theorem IsOpen.mono (isOpen : draft.IsOpen depth first)
    (implies : ∀ block, first block → second block) : draft.IsOpen depth second := by
  obtain ⟨pattern, isPattern, deep, holds⟩ := isOpen
  exact ⟨pattern, isPattern, deep, implies _ holds⟩

theorem rests_idle (isIdle : draft.current = .idle) : draft.Rests := by
  rw [Rests, commit, isIdle]
  rfl

/-! ### Edits of an open pattern -/

theorem IsOpen.editBlock_leads (isOpen : draft.IsOpen depth first)
    {edit : OpenBlock → Except Refusal OpenBlock}
    (leads : ∀ block, first block → LeadsTo second (edit block)) :
    LeadsTo (fun after => after.IsOpen depth second) (draft.editBlock edit).result := by
  obtain ⟨pattern, isPattern, deep, holds⟩ := isOpen
  have edited := leads pattern.innermost holds
  rw [editBlock, isPattern]
  simp only
  split
  · rename_i block accepted
    rw [accepted] at edited
    exact ⟨_, rfl, deep, edited⟩
  · rename_i refused
    exact edited.of_error refused

theorem IsOpen.addRule_leads (isOpen : draft.IsOpen depth first) {lead : Lead}
    (apart : (lead.separates && lead.forks) = false) (inclusive : Bool) :
    LeadsTo (fun after => after.IsOpen depth OpenBlock.TakesCriteria)
      (draft.apply (.addRule lead inclusive)).result := by
  refine isOpen.editBlock_leads fun block _ => (block.add_leads apart _ true).mono ?_
  rintro after - ⟨accepts, outer, chained⟩
  exact ⟨accepts, _, _, _, outer, chained⟩

theorem IsOpen.addReference_leads (isOpen : draft.IsOpen depth first) {lead : Lead}
    (apart : (lead.separates && lead.forks) = false) (name : String) :
    LeadsTo (fun after => after.IsOpen depth OpenBlock.HasLast)
      (draft.apply (.addReference name lead)).result := by
  refine isOpen.editBlock_leads fun block _ => (block.add_leads apart _ false).mono ?_
  rintro after - ⟨_, outer, chained⟩
  exact OpenBlock.hasLast_of_cons chained

theorem IsOpen.addCriterion_leads (isOpen : draft.IsOpen depth OpenBlock.TakesCriteria)
    (criterion : Criterion) :
    LeadsTo (fun after => after.IsOpen depth OpenBlock.TakesCriteria)
      (draft.apply (.addCriterion criterion)).result := by
  have added := isOpen.editBlock_leads fun block takes =>
    OpenBlock.TakesCriteria.addCriterion_leads takes criterion
  obtain ⟨pattern, isPattern, _⟩ := isOpen
  rw [apply, addCriterion, isPattern]
  exact added

theorem IsOpen.addRepeat_leads (isOpen : draft.IsOpen depth first) {bounds : Bounds}
    (writable : bounds.Writable) :
    LeadsTo (fun after => after.IsOpen depth OpenBlock.HasLast)
      (draft.apply (.addRepeat bounds)).result := by
  have valid : validRepeat bounds = true :=
    validRepeat_eq_true_iff.2 ⟨writable.atLeastOnce, fun max isMax => (writable.max_le max isMax).1⟩
  rw [apply, addRepeat, if_pos valid]
  exact isOpen.editBlock_leads fun block _ => block.addRepeat_leads bounds

theorem IsOpen.collectAs_leads (isOpen : draft.IsOpen depth OpenBlock.HasLast) (name : String) :
    LeadsTo (fun after => after.IsOpen depth OpenBlock.HasLast)
      (draft.apply (.collectAs name)).result :=
  isOpen.editBlock_leads fun _ hasLast => OpenBlock.HasLast.collectAs_leads hasLast name

theorem IsOpen.openBlock_leads (isOpen : draft.IsOpen depth first) {lead : Lead}
    (apart : (lead.separates && lead.forks) = false) :
    LeadsTo (fun after => after.IsOpen (depth + 1) fun _ => True)
      (draft.apply (.openBlock lead)).result := by
  obtain ⟨pattern, isPattern, deep, _⟩ := isOpen
  have checked := pattern.innermost.checkPlacement_leads apart
  rw [apply, openBlock, isPattern]
  simp only
  split
  · exact ⟨_, rfl, by rw [List.length_cons, deep], trivial⟩
  · rename_i refused
    exact checked.of_error refused

theorem IsOpen.closeBlock_leads (isOpen : draft.IsOpen (depth + 1) first) :
    LeadsTo (fun after => after.IsOpen depth OpenBlock.HasLast)
      (draft.apply .closeBlock).result := by
  obtain ⟨pattern, isPattern, deep, _⟩ := isOpen
  rw [apply, closeBlock, isPattern]
  simp only
  split
  · rename_i noneOpen
    rw [noneOpen] at deep
    cases deep
  · rename_i parent enclosing opened
    rw [opened, List.length_cons, Nat.add_right_cancel_iff] at deep
    split
    · rfl
    · have settled := pattern.innermost.settled_leads
      split
      · rename_i refused
        exact settled.of_error refused
      · rename_i block _
        have placed := parent.place_leads (pattern.innermost.lead.node (.block block.finished))
          pattern.innermost.lead.separates false
        split
        · rename_i refused
          exact placed.of_error refused
        · rename_i after accepted
          rw [accepted] at placed
          obtain ⟨_, outer, chained⟩ := placed
          exact ⟨_, rfl, deep, OpenBlock.hasLast_of_cons chained⟩

theorem IsOpen.endPattern_leads (isOpen : draft.IsOpen 0 first) :
    LeadsTo Rests (draft.apply .endPattern).result := by
  obtain ⟨pattern, isPattern, deep, _⟩ := isOpen
  have noneInside : pattern.enclosing.isEmpty = true :=
    List.isEmpty_iff.2 (List.length_eq_zero_iff.1 deep)
  have settled := pattern.innermost.settled_leads
  rw [apply, endPattern, isPattern]
  simp only [noneInside, Bool.not_true, Bool.false_eq_true, if_false]
  split
  · rfl
  · split
    · exact rests_idle rfl
    · rename_i refused
      exact settled.of_error refused

/-! ### Edits between patterns -/

theorem IsCharset.addCriterion_leads (isCharset : draft.IsCharset) (criterion : Criterion) :
    LeadsTo (fun after => after.IsCharset ∧ after.Rests)
      (draft.apply (.addCriterion criterion)).result := by
  obtain ⟨charset, isCharset⟩ := isCharset
  rw [apply, addCriterion, isCharset]
  simp only
  split
  · rfl
  · refine ⟨⟨_, rfl⟩, ?_⟩
    simp [Rests, commit, Revision.accepted]

theorem nameIsUnused_eq_true_iff {name : String} : draft.nameIsUnused name = true ↔
    draft.current.name? ≠ some name ∧ draft.symbols.get? name = none := by
  unfold nameIsUnused Table.contains
  cases draft.current <;> simp [Construction.name?]

/-- What a commit stores was there before under the same name. -/
theorem nameIsFree_commit {name : String} (free : draft.nameIsFree name = true) :
    draft.commit.draft.nameIsFree name = true := by
  rw [nameIsFree, Bool.and_eq_true, nameIsUnused_eq_true_iff] at free ⊢
  obtain ⟨unreserved, notCurrent, unused⟩ := free
  have follows := commit_follows draft .endPattern
  refine ⟨unreserved, fun isCurrent => ?_, ?_⟩
  · rcases follows.current name isCurrent with current | given | ⟨_, less⟩
    · exact notCurrent current
    · cases given
    · exact absurd less (commit_anonymous draft ▸ Nat.lt_irrefl _)
  · rcases follows.symbols with same | ⟨other, symbol, named, inserted⟩
    · rw [same, unused]
    · have different : name ≠ other := fun same => notCurrent (same ▸ named)
      rw [inserted, Table.get?_insert, if_neg different, unused]

theorem Rests.andThen_eq (rests : draft.Rests) (continuation : Draft → Revision) :
    draft.commit.andThen continuation = continuation draft.commit.draft := by
  rw [Revision.andThen, rests]

theorem beginNamed_leads {name : String} (free : draft.nameIsFree name = true)
    (construction : Construction) :
    LeadsTo (fun after => after.current = construction)
      (draft.beginNamed name construction).result := by
  rw [beginNamed, if_pos free]
  exact rfl

theorem Rests.beginPattern_leads (rests : draft.Rests) {name : Option String}
    (free : ∀ given ∈ name, draft.nameIsFree given = true) :
    LeadsTo (fun after => after.IsOpen 0 fun _ => True)
      (draft.apply (.beginPattern name)).result := by
  rw [apply, beginPattern, rests.andThen_eq]
  cases name with
  | none => exact ⟨_, rfl, rfl, trivial⟩
  | some given =>
      refine (beginNamed_leads (nameIsFree_commit (free given rfl)) _).mono ?_
      exact fun after _ begun => ⟨_, begun, rfl, trivial⟩

theorem Rests.beginCharset_leads (rests : draft.Rests) {name : String}
    (free : draft.nameIsFree name = true) :
    LeadsTo IsCharset (draft.apply (.beginCharset name)).result := by
  rw [apply, beginCharset, rests.andThen_eq]
  exact (beginNamed_leads (nameIsFree_commit free) _).mono fun after _ begun => ⟨_, begun⟩

/-- A draft that rests is sealed unless its charsets lead in a circle. -/
theorem Rests.finish_leads (rests : draft.Rests) : LeadsTo (fun _ => True) draft.finish := by
  simp only [finish]
  rw [rests]
  simp only
  split
  · rfl
  · trivial

/-! ### Rows of edits -/

theorem applyAll_cons (edit : Edit) (rest : List Edit) :
    draft.applyAll (edit :: rest) = (draft.apply edit).result.bind fun after =>
      after.applyAll rest := by
  rw [applyAll, Revision.result]
  cases (draft.apply edit).refusal <;> rfl

theorem applyAll_append (earlier later : List Edit) :
    draft.applyAll (earlier ++ later) = (draft.applyAll earlier).bind fun after =>
      after.applyAll later := by
  induction earlier generalizing draft with
  | nil => rfl
  | cons edit rest inductionHypothesis =>
      rw [List.cons_append, applyAll_cons, applyAll_cons]
      cases (draft.apply edit).result with
      | error refusal => rfl
      | ok after => exact inductionHypothesis

theorem applyAll_leads_cons {edit : Edit} {rest : List Edit} {kept later : Draft → Prop}
    (leads : LeadsTo kept (draft.apply edit).result)
    (goesOn : ∀ after, kept after → LeadsTo later (after.applyAll rest)) :
    LeadsTo later (draft.applyAll (edit :: rest)) := by
  rw [applyAll_cons]
  exact leads.bind goesOn

/-! ### Names -/

/-- Every symbol, the one being built included, has a name that was declared, or a number. -/
structure NamedAmong (declared : List String) (draft : Draft) : Prop where
  symbols : ∀ name, draft.symbols.contains name = true →
    name ∈ declared ∨ ∃ number : Nat, name = toString number
  current : ∀ name, draft.current.name? = some name →
    name ∈ declared ∨ ∃ number : Nat, name = toString number

section NamedAmong

variable {declared : List String} {after : Draft} {edit : Edit}

theorem namedAmong_empty : NamedAmong declared {} where
  symbols := by
    intro name contained
    cases contained
  current := by
    intro name named
    cases named

theorem NamedAmong.declare (among : NamedAmong declared draft) (name : String) :
    NamedAmong (name :: declared) draft where
  symbols := fun other contained => (among.symbols other contained).imp_left (.tail name)
  current := fun other named => (among.current other named).imp_left (.tail name)

theorem NamedAmong.follows (among : NamedAmong declared draft)
    (follows : draft.Follows edit after)
    (given : ∀ name, edit.name? = some name → name ∈ declared) :
    NamedAmong declared after where
  symbols := by
    intro name contained
    rcases follows.symbols with same | ⟨other, symbol, named, inserted⟩
    · exact among.symbols name (same ▸ contained)
    · rw [inserted, Table.contains, Table.get?_insert] at contained
      split at contained
      · rename_i isOther
        exact isOther ▸ among.current other named
      · exact among.symbols name contained
  current := by
    intro name named
    rcases follows.current name named with isCurrent | isGiven | ⟨isNumber, _⟩
    · exact among.current name isCurrent
    · exact .inl (given name isGiven)
    · exact .inr ⟨_, isNumber⟩

theorem NamedAmong.applyAll {edits : List Edit} (among : NamedAmong declared draft)
    (given : ∀ name ∈ givenNames edits, name ∈ declared)
    (applied : draft.applyAll edits = .ok after) : NamedAmong declared after :=
  applyAll_preserves (fun edit member draft (among : NamedAmong declared draft) =>
    among.follows (apply_follows draft edit) fun name named =>
      given name (List.mem_filterMap.2 ⟨edit, member, named⟩)) among applied

/-- A proper name that has not been declared before can be given to a symbol. -/
theorem NamedAmong.nameIsFree (among : NamedAmong declared draft) {name : String}
    (proper : ProperName name) (fresh : name ∉ declared) : draft.nameIsFree name = true := by
  have unknown : ¬(name ∈ declared ∨ ∃ number : Nat, name = toString number) := by
    rintro (known | ⟨number, isNumber⟩)
    · exact fresh known
    · exact proper.ne_toString number isNumber
  rw [Draft.nameIsFree, proper.unreserved, Bool.not_false, Bool.true_and, nameIsUnused_eq_true_iff]
  refine ⟨fun named => unknown (among.current name named), ?_⟩
  rw [← Option.not_isSome_iff_eq_none]
  exact fun contained => unknown (among.symbols name contained)

end NamedAmong

end Draft

end PlainPattern
