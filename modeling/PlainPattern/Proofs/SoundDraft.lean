import PlainPattern.Draft.Basic
import PlainPattern.Proofs.TreeRules

/-!
Contract: whatever edits are made, a draft holds nothing but sound parts of trees.

Owns: what is known of an open block, of the blocks around it and of a draft (`OpenBlock.Sound`,
`Encloses`, `Draft.Sound`), and one lemma for each edit that says what the edit keeps. The chain of
the child placed last is what the invariant turns on: every link behind the first is repeated, so
folding the chain never fails (`Sound.settled`).

The invariant is stated for any rules, and for any knowledge of the node placed last, since a rule
that still waits for its criteria need not obey them yet.
-/

set_option autoImplicit false

namespace PlainPattern

/-! ## Chains -/

/-- A separator in a chain, and the link behind it that it separates. -/
def SeparatorOf (separator link : Node) : Prop :=
  separator.forks = false ∧ ∃ bounds, link.repetition = .times bounds

/-- The induction is on the chain: each link takes what has been joined so far as its separator. -/
theorem joinChain_some {rules : TreeRules} {joined : Node} {outer : List Node}
    (linked : (joined :: outer).IsChain SeparatorOf) (obeys : joined.Obeys rules)
    (outerObey : ∀ link ∈ outer, link.Obeys rules) :
    ∃ child, joinChain (some joined) outer = .ok (some child) ∧ child.Obeys rules ∧
      child.forks = (outer.getLast?.getD joined).forks := by
  induction outer generalizing joined with
  | nil => exact ⟨joined, rfl, obeys, rfl⟩
  | cons link rest inductionHypothesis =>
      obtain ⟨⟨noFork, bounds, repeated⟩, restLinked⟩ := List.isChain_cons_cons.1 linked
      have separated : link.separatedBy? joined =
          some (link.withRepetition (.separated bounds joined)) := by
        rw [Node.separatedBy?, repeated]
      have linkObeys := Node.obeys_iff.1 (outerObey link List.mem_cons_self)
      rw [repeated] at linkObeys
      have nextObeys : (link.withRepetition (.separated bounds joined)).Obeys rules :=
        Node.obeys_iff.2 ⟨linkObeys.1, linkObeys.2.1, linkObeys.2.2, noFork, obeys⟩
      have nextLinked : (link.withRepetition (.separated bounds joined) :: rest).IsChain
          SeparatorOf :=
        restLinked.imp_head fun separates => ⟨separates.1, separates.2⟩
      obtain ⟨child, joins, childObeys, forks⟩ := inductionHypothesis nextLinked nextObeys
        fun later member => outerObey later (List.mem_cons_of_mem _ member)
      refine ⟨child, ?_, childObeys, ?_⟩
      · rw [joinChain, separated]
        exact joins
      · rw [forks, List.getLast?_cons]
        cases rest.getLast? <;> rfl

/-! ## Open blocks -/

namespace OpenBlock

/-- The children so far, the last of them without its separators. -/
def children (block : OpenBlock) : List Node :=
  block.finished ++ block.chain.getLast?.toList

/-- What holds of an open block in which something in particular is known of the node placed
last. -/
structure Sound (rules : TreeRules) (last : Node → Prop) (block : OpenBlock) : Prop where
  finished : ∀ node ∈ block.finished, node.Obeys rules
  last : ∀ node ∈ block.chain.head?, last node
  outer : ∀ node ∈ block.chain.tail, node.Obeys rules
  linked : block.chain.IsChain SeparatorOf
  repeatOpen : block.repeatOpen = true →
    ∃ node bounds, block.chain.head? = some node ∧ node.repetition = .times bounds
  firm : ∀ first ∈ block.children.head?, first.forks = false

section Sound

variable {rules : TreeRules} {last next : Node → Prop} {block after : OpenBlock} {lead : Lead}

theorem isEmpty_eq_true_iff : block.isEmpty = true ↔ block.children = [] := by
  simp [isEmpty, children, List.getLast?_eq_none_iff]

theorem sound_empty (lead : Lead) : OpenBlock.Sound rules last { lead } where
  finished := by simp
  last := by simp
  outer := by simp
  linked := List.isChain_nil
  repeatOpen := by simp
  firm := by simp [children]

/-- An open block can always be settled, and its children then obey the rules. -/
theorem Sound.settled (sound : block.Sound rules (Node.Obeys rules)) :
    ∃ nodes, block.settled = .ok { block with finished := nodes, chain := [] } ∧
      (∀ node ∈ nodes, node.Obeys rules) ∧
      nodes.map Node.forks = block.children.map Node.forks := by
  cases chain : block.chain with
  | nil =>
      refine ⟨block.finished, ?_, sound.finished, ?_⟩
      · simp [OpenBlock.settled, chain, joinChain]
      · simp [children, chain]
  | cons end_ outer =>
      have linked := chain ▸ sound.linked
      obtain ⟨child, joins, obeys, forks⟩ := joinChain_some linked
        (sound.last end_ (by rw [chain]; rfl))
        (fun link member => sound.outer link (by rw [chain]; exact member))
      refine ⟨block.finished ++ [child], ?_, ?_, ?_⟩
      · simp [OpenBlock.settled, chain, joinChain, joins]
      · intro node member
        rcases List.mem_append.1 member with inFinished | isChild
        · exact sound.finished node inFinished
        · obtain rfl := List.mem_singleton.1 isChild
          exact obeys
      · simp [children, chain, List.getLast?_cons, forks]

theorem beginFirmly_of_forks {nodes : List Node}
    (same : nodes.map Node.forks = block.children.map Node.forks) (begun : block.isEmpty = false)
    (firm : ∀ first ∈ block.children.head?, first.forks = false) : BeginFirmly nodes := by
  cases children : block.children with
  | nil =>
      rw [isEmpty_eq_true_iff.2 children] at begun
      cases begun
  | cons first rest =>
      cases nodes with
      | nil => simp [children] at same
      | cons other others =>
          have forks : other.forks = first.forks := by
            simp only [children, List.map_cons, List.cons.injEq] at same
            exact same.1
          exact ⟨other, others, rfl, forks.trans (firm first (by rw [children]; rfl))⟩

theorem checkPlacement_eq_ok_iff :
    block.checkPlacement lead = .ok () ↔
      (lead.separates = true → block.repeatOpen = true ∧ lead.forks = false) ∧
        (lead.separates = false → lead.forks = true → block.isEmpty = false) := by
  unfold checkPlacement
  cases lead.separates <;> cases lead.forks <;> cases block.repeatOpen <;>
    cases block.isEmpty <;> simp

/-- A node that may stand where its modifiers put it can be placed there. -/
theorem Sound.place (sound : block.Sound rules (Node.Obeys rules)) {node : Node}
    (allowed : block.checkPlacement lead = .ok ()) (forks : node.forks = lead.forks)
    (known : next node) (acceptsCriteria : Bool) :
    ∃ after, block.place node lead.separates acceptsCriteria = .ok after ∧
      after.Sound rules next ∧ after.lead = block.lead := by
  obtain ⟨separated, alternative⟩ := checkPlacement_eq_ok_iff.1 allowed
  cases separates : lead.separates with
  | true =>
      obtain ⟨isOpen, noFork⟩ := separated separates
      obtain ⟨target, bounds, isHead, repeated⟩ := sound.repeatOpen isOpen
      obtain ⟨outer, chain⟩ := List.head?_eq_some_iff.1 isHead
      have obeyed : ∀ link ∈ target :: outer, link.Obeys rules := by
        intro link member
        rcases List.mem_cons.1 member with rfl | inOuter
        · exact sound.last link (by rw [chain]; rfl)
        · exact sound.outer link (by rw [chain]; exact inOuter)
      refine ⟨_, rfl, ⟨sound.finished, ?_, ?_, ?_, ?_, ?_⟩, rfl⟩
      · simpa using known
      · simpa [chain] using obeyed
      · have linked := chain ▸ sound.linked
        exact chain ▸ List.isChain_cons_cons.2 ⟨⟨forks.trans noFork, bounds, repeated⟩, linked⟩
      · simp
      · have firm := sound.firm
        simpa [children, chain, List.getLast?_cons_cons] using firm
  | false =>
      obtain ⟨nodes, settles, obey, same⟩ := sound.settled
      have places : block.place node false acceptsCriteria = .ok { block with
          finished := nodes, chain := [node], repeatOpen := false,
          acceptsCriteria := acceptsCriteria } := by
        simp [OpenBlock.place, settles]
      refine ⟨_, places, ⟨obey, by simpa using known, by simp, List.isChain_singleton _,
        by simp, ?_⟩, rfl⟩
      cases nodes with
      | nil =>
          have empty : block.isEmpty = true :=
            isEmpty_eq_true_iff.2 (List.map_eq_nil_iff.1 same.symm)
          cases forked : lead.forks with
          | false => simpa [children] using forks.trans forked
          | true =>
              rw [alternative separates forked] at empty
              cases empty
      | cons first rest =>
          have begun : block.isEmpty = false := by
            rw [Bool.eq_false_iff]
            intro empty
            rw [isEmpty_eq_true_iff.1 empty] at same
            cases same
          obtain ⟨_, _, split, noFork⟩ := beginFirmly_of_forks same begun sound.firm
          cases split
          simpa [children] using noFork

theorem Sound.add (sound : block.Sound rules (Node.Obeys rules)) {body : Body}
    {acceptsCriteria : Bool} (known : next (lead.node body))
    (added : block.add lead body acceptsCriteria = .ok after) :
    after.Sound rules next ∧ after.lead = block.lead := by
  unfold OpenBlock.add at added
  split at added
  · rename_i allowed
    obtain ⟨placed, places, placedSound, lead⟩ := sound.place allowed rfl known acceptsCriteria
    rw [places] at added
    cases added
    exact ⟨placedSound, lead⟩
  · cases added

/-- The node placed last may be changed as long as it forks as before. -/
theorem Sound.retouch (sound : block.Sound rules last) {target changed : Node}
    {outer : List Node} (chain : block.chain = target :: outer)
    (forks : changed.forks = target.forks) (known : next changed) {acceptsCriteria opened : Bool}
    (repeated : opened = true → ∃ bounds, changed.repetition = .times bounds) :
    OpenBlock.Sound rules next { block with
      chain := changed :: outer, acceptsCriteria := acceptsCriteria, repeatOpen := opened } where
  finished := sound.finished
  last := by simpa using known
  outer := by simpa [chain] using sound.outer
  linked := by
    have linked := sound.linked
    rw [chain] at linked
    exact linked.imp_head fun separates => ⟨forks.trans separates.1, separates.2⟩
  repeatOpen := by
    intro isOpen
    obtain ⟨bounds, times⟩ := repeated isOpen
    exact ⟨changed, bounds, rfl, times⟩
  firm := by
    have firm := sound.firm
    cases outer with
    | nil =>
        cases finished : block.finished with
        | nil => simpa [children, chain, finished, forks] using firm
        | cons first rest => simpa [children, chain, finished] using firm
    | cons link rest => simpa [children, chain, List.getLast?_cons_cons] using firm

theorem Sound.addCriterion (sound : block.Sound rules last) {criterion : Criterion}
    (extended : ∀ rule marks repetition, last (.mk (.rule rule) marks repetition) →
      next (.mk (.rule { rule with criteria := rule.criteria ++ [criterion] }) marks repetition))
    (added : block.addCriterion criterion = .ok after) :
    after.Sound rules next ∧ after.lead = block.lead := by
  unfold OpenBlock.addCriterion at added
  split at added
  · rename_i rule marks repetition outer _ chain
    cases added
    refine ⟨sound.retouch chain (by rfl)
      (extended rule marks repetition (sound.last _ (by rw [chain]; rfl))) ?_, rfl⟩
    intro isOpen
    obtain ⟨node, bounds, isHead, times⟩ := sound.repeatOpen isOpen
    rw [chain] at isHead
    cases isHead
    exact ⟨bounds, times⟩
  · cases added

theorem Sound.addRepeat (sound : block.Sound rules last) {bounds : Bounds}
    (repeated : ∀ body marks, marks.negated = false → last (.mk body marks .once) →
      next (.mk body marks (.times bounds)))
    (added : block.addRepeat bounds = .ok after) :
    after.Sound rules next ∧ after.lead = block.lead := by
  unfold OpenBlock.addRepeat at added
  split at added
  · cases added
  · rename_i target outer chain
    obtain ⟨body, marks, repetition⟩ := target
    cases repetition with
    | once =>
        cases negated : marks.negated with
        | true => simp [Node.repetition, Node.negated, Node.marks, negated] at added
        | false =>
            simp only [Node.repetition, Node.negated, Node.marks, negated] at added
            cases added
            refine ⟨sound.retouch chain (by rfl)
              (repeated body marks negated (sound.last _ (by rw [chain]; rfl))) ?_, rfl⟩
            exact fun _ => ⟨bounds, rfl⟩
    | times | separated => cases added

theorem Sound.collectAs (sound : block.Sound rules last) {name : String}
    (collected : ∀ body marks repetition, last (.mk body marks repetition) →
      next (.mk body { marks with collectAs := some name } repetition))
    (added : block.collectAs name = .ok after) :
    after.Sound rules next ∧ after.lead = block.lead := by
  unfold OpenBlock.collectAs at added
  split at added
  · cases added
  · rename_i target outer chain
    obtain ⟨body, marks, repetition⟩ := target
    cases added
    refine ⟨sound.retouch chain (by rfl)
      (collected body marks repetition (sound.last _ (by rw [chain]; rfl))) ?_, rfl⟩
    intro isOpen
    obtain ⟨node, bounds, isHead, times⟩ := sound.repeatOpen isOpen
    rw [chain] at isHead
    cases isHead
    exact ⟨bounds, times⟩

end Sound

end OpenBlock

/-! ## Drafts -/

def Lead.marks (lead : Lead) : Marks :=
  { forks := lead.forks, optional := lead.optional, negated := lead.negated }

/-- What holds of the blocks around an open one that has these modifiers: it may be placed in the
first of them once it is closed. -/
def Encloses (rules : TreeRules) : Lead → List OpenBlock → Prop
  | _, [] => True
  | lead, parent :: outer =>
      parent.checkPlacement lead = .ok () ∧ rules.marks lead.marks ∧
        parent.Sound rules (Node.Obeys rules) ∧ Encloses rules parent.lead outer

structure OpenPattern.Sound (rules : TreeRules) (last : Node → Prop) (pattern : OpenPattern) :
    Prop where
  unreserved : Keyword.reserved pattern.name = false
  innermost : pattern.innermost.Sound rules last
  enclosing : Encloses rules pattern.innermost.lead pattern.enclosing

def Construction.Sound (rules : TreeRules) (last : Node → Prop) : Construction → Prop
  | .idle => True
  | .pattern found => found.Sound rules last
  | .charset found =>
      Keyword.reserved found.name = false ∧ ∀ criterion ∈ found.criteria, rules.element criterion

/-- Symbols that obey the rules, each under its own name, which is not reserved. -/
def SoundSymbols (rules : TreeRules) (symbols : Table Symbol) : Prop :=
  ∀ key symbol, symbols.get? key = some symbol →
    symbol.name = key ∧ Keyword.reserved key = false ∧ symbol.Obeys rules

theorem SoundSymbols.insert {rules : TreeRules} {symbols : Table Symbol}
    (sound : SoundSymbols rules symbols) {name : String} {symbol : Symbol}
    (named : symbol.name = name) (unreserved : Keyword.reserved name = false)
    (obeys : symbol.Obeys rules) : SoundSymbols rules (symbols.insert name symbol) := by
  intro key found isFound
  rw [Table.get?_insert] at isFound
  split at isFound
  · rename_i same
    cases isFound
    exact ⟨named.trans same.symm, same ▸ unreserved, obeys⟩
  · exact sound key found isFound

namespace Draft

structure Sound (rules : TreeRules) (last : Node → Prop) (draft : Draft) : Prop where
  symbols : SoundSymbols rules draft.symbols
  current : draft.current.Sound rules last

section Sound

variable {rules : TreeRules} {last next : Node → Prop} {draft : Draft}

theorem Sound.commit (sound : draft.Sound rules last) : draft.commit.draft.Sound rules last := by
  have current := sound.current
  unfold Draft.commit
  split
  · exact sound
  · rename_i charset isCharset
    rw [isCharset] at current
    split
    · exact ⟨sound.symbols, trivial⟩
    · rename_i nonempty
      have obeys : (Symbol.charset charset).Obeys rules :=
        ⟨by simpa using nonempty, current.2⟩
      exact ⟨sound.symbols.insert rfl current.1 obeys, trivial⟩
  · exact sound

/-- What follows a commit begins with a draft in which nothing is being built. -/
theorem Sound.afterCommit (sound : draft.Sound rules last) {continuation : Draft → Revision}
    (continues : ∀ committed : Draft, committed.Sound rules last →
      (continuation committed).draft.Sound rules last) :
    (draft.commit.andThen continuation).draft.Sound rules last := by
  unfold Revision.andThen
  split
  · exact continues _ sound.commit
  · exact sound.commit

theorem Sound.beginNamed (sound : draft.Sound rules last) {name : String}
    {construction : Construction}
    (begun : Keyword.reserved name = false → construction.Sound rules last) :
    (draft.beginNamed name construction).draft.Sound rules last := by
  unfold Draft.beginNamed
  split
  · rename_i isFree
    refine ⟨sound.symbols, begun ?_⟩
    simp only [nameIsFree, Bool.and_eq_true, Bool.not_eq_true'] at isFree
    exact isFree.1
  · exact sound

theorem sound_openPattern {name : String} (unreserved : Keyword.reserved name = false) :
    OpenPattern.Sound rules last { name } :=
  ⟨unreserved, OpenBlock.sound_empty {}, trivial⟩

theorem Sound.beginPattern (sound : draft.Sound rules last) (name : Option String) :
    (draft.beginPattern name).draft.Sound rules last := by
  refine sound.afterCommit fun committed committedSound => ?_
  cases name with
  | some name => exact committedSound.beginNamed sound_openPattern
  | none =>
      exact ⟨committedSound.symbols, sound_openPattern (Keyword.reserved_toString _)⟩

theorem Sound.beginCharset (sound : draft.Sound rules last) (name : String) :
    (draft.beginCharset name).draft.Sound rules last :=
  sound.afterCommit fun _ committedSound =>
    committedSound.beginNamed fun unreserved => ⟨unreserved, by simp⟩

theorem Sound.endPattern (sound : draft.Sound rules (Node.Obeys rules)) :
    draft.endPattern.draft.Sound rules (Node.Obeys rules) := by
  have current := sound.current
  unfold Draft.endPattern
  split
  · rename_i pattern isPattern
    rw [isPattern] at current
    simp only
    split
    · exact ⟨sound.symbols, trivial⟩
    · split
      · exact ⟨sound.symbols, trivial⟩
      · rename_i begun
        obtain ⟨nodes, settles, obey, forks⟩ := current.innermost.settled
        rw [settles]
        have firm := OpenBlock.beginFirmly_of_forks forks (by simpa using begun)
          current.innermost.firm
        have obeys : (Symbol.pattern ⟨pattern.name, nodes⟩).Obeys rules :=
          ⟨firm, allObey_iff.2 obey⟩
        exact ⟨sound.symbols.insert rfl current.unreserved obeys, trivial⟩
  · exact sound

theorem Sound.openBlock (sound : draft.Sound rules (Node.Obeys rules)) {lead : Lead}
    (marks : rules.marks lead.marks) :
    (draft.openBlock lead).draft.Sound rules (Node.Obeys rules) := by
  have current := sound.current
  unfold Draft.openBlock
  split
  · rename_i pattern isPattern
    rw [isPattern] at current
    split
    · rename_i allowed
      have parent : OpenBlock.Sound rules (Node.Obeys rules)
          { pattern.innermost with acceptsCriteria := false } :=
        { current.innermost with }
      exact ⟨sound.symbols, current.unreserved, OpenBlock.sound_empty lead, allowed, marks, parent,
        current.enclosing⟩
    · exact sound
  · exact sound

theorem Sound.closeBlock (sound : draft.Sound rules (Node.Obeys rules)) :
    draft.closeBlock.draft.Sound rules (Node.Obeys rules) := by
  have current := sound.current
  unfold Draft.closeBlock
  split
  · rename_i pattern isPattern
    rw [isPattern] at current
    split
    · exact sound
    · rename_i parent outer isEnclosed
      have enclosing := current.enclosing
      rw [isEnclosed] at enclosing
      obtain ⟨allowed, marks, parentSound, outerSound⟩ := enclosing
      simp only
      split
      · exact ⟨sound.symbols, current.unreserved, parentSound, outerSound⟩
      · rename_i begun
        obtain ⟨nodes, settles, obey, forks⟩ := current.innermost.settled
        rw [settles]
        have firm := OpenBlock.beginFirmly_of_forks forks (by simpa using begun)
          current.innermost.firm
        have obeys : (pattern.innermost.lead.node (.block nodes)).Obeys rules :=
          ⟨marks, ⟨firm, allObey_iff.2 obey⟩, trivial⟩
        obtain ⟨after, places, afterSound, sameLead⟩ :=
          parentSound.place allowed (by rfl) obeys false
        simp only [places]
        exact ⟨sound.symbols, current.unreserved, afterSound, sameLead ▸ outerSound⟩
  · exact sound

/-- An edit of the innermost block leaves everything else alone. -/
theorem Sound.editBlock (sound : draft.Sound rules last)
    {edit : OpenBlock → Except Refusal OpenBlock}
    (each : ∀ block after, block.Sound rules last → edit block = .ok after →
      after.Sound rules next ∧ after.lead = block.lead)
    (accepted : (draft.editBlock edit).refusal = none) :
    (draft.editBlock edit).draft.Sound rules next := by
  have current := sound.current
  unfold Draft.editBlock at accepted ⊢
  split at accepted
  · rename_i pattern isPattern
    rw [isPattern] at current
    split at accepted
    · rename_i after edited
      obtain ⟨afterSound, lead⟩ := each _ _ current.innermost edited
      exact ⟨sound.symbols, current.unreserved, afterSound, lead ▸ current.enclosing⟩
    · cases accepted
  · cases accepted

/-- A refused edit of the innermost block changes nothing. -/
theorem editBlock_of_refused {edit : OpenBlock → Except Refusal OpenBlock} {refusal : Refusal}
    (refused : (draft.editBlock edit).refusal = some refusal) :
    (draft.editBlock edit).draft = draft := by
  unfold Draft.editBlock at refused ⊢
  split at refused
  · split at refused
    · cases refused
    · rfl
  · rfl

/-- Sealing commits, and finds no pattern open and no cycle. -/
theorem finish_eq_ok {schema : Schema} (finished : draft.finish = .ok schema) :
    schema = ⟨draft.commit.draft.symbols⟩ ∧ CharsetsAcyclic schema.symbols ∧
      ∀ pattern, draft.current ≠ .pattern pattern := by
  unfold Draft.finish at finished
  simp only at finished
  split at finished
  · cases finished
  · rename_i committed
    split at finished
    · cases finished
    · rename_i noCycle
      cases finished
      refine ⟨rfl, findCharsetCycle?_eq_none_iff.1 noCycle, fun pattern isPattern => ?_⟩
      rw [Draft.commit, isPattern] at committed
      cases committed

end Sound

end Draft

end PlainPattern
