import PlainPattern.Proofs.Phrases
import PlainPattern.Proofs.Printer
import PlainPattern.Proofs.SoundDraft

/-!
Contract: the phrases of a tree build that tree.

Owns: the phrases that say what a node is, behind its modifiers; the links of a node, which are the
chain that stands for it while its block is open; and, by recursion on the tree, that the phrases of
a node take an open block to one that ends in its links (`writes_node`). `joinChain_links` is why
the chain folds into the node again.
-/

set_option autoImplicit false

namespace PlainPattern

/-! ## Phrases of a tree -/

mutual

/-- What is said of a node, in order. -/
def Node.phrases (separates : Bool) : Node → List Phrase
  | .mk content marks repeated =>
      content.phrases (Printer.lead separates marks) ++
        marks.collectAs.toList.map .collectAs ++ repeated.phrases

def Body.phrases (lead : Lead) : Body → List Phrase
  | .block children => .openBlock lead :: phrasesOf children ++ [.closeBlock]
  | .rule content => [.rule lead content]
  | .reference name => [.reference name lead]

def Repetition.phrases : Repetition → List Phrase
  | .once => []
  | .times bounds => [.times bounds]
  | .separated bounds separator => .times bounds :: separator.phrases true

def phrasesOf : List Node → List Phrase
  | [] => []
  | node :: rest => node.phrases false ++ phrasesOf rest

end

/-- A node and its separators, the innermost separator first. -/
def Node.links : Node → List Node
  | .mk content marks .once => [.mk content marks .once]
  | .mk content marks (.times bounds) => [.mk content marks (.times bounds)]
  | .mk content marks (.separated bounds separator) =>
      separator.links ++ [.mk content marks (.times bounds)]

/-- The links of a node fold into the node. -/
theorem joinChain_links : ∀ (node : Node) (outer : List Node),
    joinChain none (node.links ++ outer) = joinChain (some node) outer
  | .mk _ _ .once, _ => rfl
  | .mk _ _ (.times _), _ => rfl
  | .mk content marks (.separated bounds separator), outer => by
      rw [Node.links, List.append_assoc, joinChain_links separator]
      rfl

/-! ## Open blocks -/

/-- Edits that take the innermost open block from one state to another, whatever is around it. -/
def Writes (edits : List Edit) (before after : OpenBlock) : Prop :=
  ∀ (symbols : Table Symbol) (anonymous : Nat) (name : String) (enclosing : List OpenBlock),
    Draft.applyAll ⟨symbols, anonymous, .pattern ⟨name, before, enclosing⟩⟩ edits =
      .ok ⟨symbols, anonymous, .pattern ⟨name, after, enclosing⟩⟩

namespace OpenBlock

/-- A node with these modifiers finds its place behind the finished children and in front of a
chain. -/
structure Takes (block : OpenBlock) (lead : Lead) (finished outer : List Node) : Prop where
  allowed : block.checkPlacement lead = .ok ()
  places : ∀ node acceptsCriteria, block.place node lead.separates acceptsCriteria =
    .ok ⟨block.lead, finished, node :: outer, acceptsCriteria, false⟩

/-- The children of the block are these, once its chain is folded. -/
def Holds (block : OpenBlock) (children : List Node) : Prop :=
  block.settled = .ok { block with finished := children, chain := [] }

section Places

variable {block : OpenBlock} {lead : Lead} {finished outer children : List Node}

theorem Takes.add (takes : block.Takes lead finished outer) (content : Body)
    (acceptsCriteria : Bool) : block.add lead content acceptsCriteria =
      .ok ⟨block.lead, finished, lead.node content :: outer, acceptsCriteria, false⟩ := by
  rw [OpenBlock.add, takes.allowed]
  exact takes.places _ _

/-- While an inner block is open, the place for it is kept. -/
theorem Takes.reopened (takes : block.Takes lead finished outer) :
    OpenBlock.Takes { block with acceptsCriteria := false } lead finished outer where
  allowed := takes.allowed
  places := by
    intro node acceptsCriteria
    have same : OpenBlock.place { block with acceptsCriteria := false } node lead.separates
        acceptsCriteria = block.place node lead.separates acceptsCriteria := by
      unfold OpenBlock.place OpenBlock.settled
      cases lead.separates <;> cases joinChain none block.chain <;> rfl
    exact same.trans (takes.places node acceptsCriteria)

theorem holds_nil (lead : Lead) : OpenBlock.Holds { lead } [] := rfl

theorem Holds.isEmpty_eq_false (holds : block.Holds children) (begun : children ≠ []) :
    block.isEmpty = false := by
  rw [Bool.eq_false_iff]
  intro empty
  simp only [OpenBlock.isEmpty, Bool.and_eq_true, List.isEmpty_iff] at empty
  rw [Holds, OpenBlock.settled, empty.1, empty.2] at holds
  cases holds
  exact begun rfl

/-- A node that is no separator is placed behind the children so far. -/
theorem Holds.takes (holds : block.Holds children) (keeps : lead.separates = false)
    (alternative : lead.forks = true → children ≠ []) : block.Takes lead children [] where
  allowed := by
    rw [checkPlacement_eq_ok_iff, keeps]
    exact ⟨by simp, fun _ forks => holds.isEmpty_eq_false (alternative forks)⟩
  places := by
    intro node acceptsCriteria
    rw [OpenBlock.place, keeps, holds]
    rfl

/-- A separator is placed in front of the repeat before it. -/
theorem takes_separator {chain : List Node} {acceptsCriteria : Bool} {blockLead : Lead}
    (separates : lead.separates = true) (noFork : lead.forks = false) :
    OpenBlock.Takes ⟨blockLead, finished, chain, acceptsCriteria, true⟩ lead finished chain where
  allowed := by
    rw [checkPlacement_eq_ok_iff]
    exact ⟨fun _ => ⟨rfl, noFork⟩, by simp [separates]⟩
  places := by
    intro node acceptsCriteria
    rw [OpenBlock.place, separates]
    rfl

theorem holds_links (blockLead : Lead) (node : Node) (acceptsCriteria isOpen : Bool) :
    OpenBlock.Holds ⟨blockLead, children, node.links ++ [], acceptsCriteria, isOpen⟩
      (children ++ [node]) := by
  rw [Holds, OpenBlock.settled, joinChain_links]
  rfl

end Places

end OpenBlock

section Writes

variable {before between after block : OpenBlock} {first second : List Edit} {lead : Lead}
  {finished outer : List Node}

theorem writes_nil : Writes [] block block :=
  fun _ _ _ _ => rfl

theorem Writes.append (one : Writes first before between) (two : Writes second between after) :
    Writes (first ++ second) before after := by
  intro symbols anonymous name enclosing
  rw [Draft.applyAll_append_eq_ok_iff]
  exact ⟨_, one symbols anonymous name enclosing, two symbols anonymous name enclosing⟩

/-- An edit that only concerns the innermost block. -/
theorem writes_of_editBlock {edit : Edit} (change : OpenBlock → Except Refusal OpenBlock)
    (edits : ∀ (draft : Draft) (pattern : OpenPattern), draft.current = .pattern pattern →
      draft.apply edit = draft.editBlock change)
    (changed : change before = .ok after) : Writes [edit] before after := by
  intro symbols anonymous name enclosing
  rw [Draft.applyAll_cons_eq_ok_iff, edits _ _ (by rfl), Draft.editBlock]
  simp only [changed]
  exact ⟨rfl, rfl⟩

theorem writes_collectAs {content : Body} {marks : Marks} {repeated : Repetition}
    {accepts isOpen : Bool} {blockLead : Lead} (name : String) :
    Writes [.collectAs name]
      ⟨blockLead, finished, .mk content marks repeated :: outer, accepts, isOpen⟩
      ⟨blockLead, finished, .mk content { marks with collectAs := some name } repeated :: outer,
        accepts, isOpen⟩ :=
  writes_of_editBlock (fun block => block.collectAs name) (fun _ _ _ => rfl) rfl

theorem writes_addRepeat {content : Body} {marks : Marks} {accepts isOpen : Bool}
    {blockLead : Lead} {bounds : Bounds} (writable : bounds.Writable)
    (affirmed : marks.negated = false) :
    Writes [.addRepeat bounds]
      ⟨blockLead, finished, .mk content marks .once :: outer, accepts, isOpen⟩
      ⟨blockLead, finished, .mk content marks (.times bounds) :: outer, accepts, true⟩ := by
  have valid : Draft.validRepeat bounds = true :=
    Draft.validRepeat_eq_true_iff.2
      ⟨writable.atLeastOnce, fun max isMax => (writable.max_le max isMax).1⟩
  refine writes_of_editBlock (fun block => block.addRepeat bounds) (fun draft _ _ => ?_) ?_
  · change draft.addRepeat bounds = _
    rw [Draft.addRepeat, if_pos valid]
  · simp [OpenBlock.addRepeat, Node.repetition, Node.negated, Node.marks, affirmed,
      Node.withRepetition, Node.body]

theorem writes_addReference (name : String) (takes : block.Takes lead finished outer) :
    Writes [.addReference name lead] block
      ⟨block.lead, finished, lead.node (.reference name) :: outer, false, false⟩ :=
  writes_of_editBlock (fun block => block.add lead (.reference name) false) (fun _ _ _ => rfl)
    (takes.add _ _)

/-- The induction is on the criteria, behind those that the rule has already. -/
theorem writes_addCriteria {blockLead : Lead} {inclusive isOpen : Bool} {marks : Marks}
    {repeated : Repetition} (criteria done : List Criterion) :
    Writes (criteria.map .addCriterion)
      ⟨blockLead, finished, .mk (.rule ⟨inclusive, done⟩) marks repeated :: outer, true, isOpen⟩
      ⟨blockLead, finished, .mk (.rule ⟨inclusive, done ++ criteria⟩) marks repeated :: outer, true,
        isOpen⟩ := by
  induction criteria generalizing done with
  | nil =>
      rw [List.append_nil]
      exact writes_nil
  | cons criterion rest inductionHypothesis =>
      have one : Writes [.addCriterion criterion]
          ⟨blockLead, finished, .mk (.rule ⟨inclusive, done⟩) marks repeated :: outer, true, isOpen⟩
          ⟨blockLead, finished,
            .mk (.rule ⟨inclusive, done ++ [criterion]⟩) marks repeated :: outer, true, isOpen⟩ := by
        refine writes_of_editBlock (fun block => block.addCriterion criterion)
          (fun draft pattern isPattern => ?_) rfl
        change draft.addCriterion criterion = _
        simp only [Draft.addCriterion, isPattern]
      have others := inductionHypothesis (done ++ [criterion])
      rw [List.append_assoc] at others
      exact one.append others

theorem writes_rule (content : Rule) (takes : block.Takes lead finished outer) :
    Writes (Phrase.rule lead content).edits block
      ⟨block.lead, finished, lead.node (.rule content) :: outer, true, false⟩ := by
  have added : Writes [.addRule lead content.inclusive] block
      ⟨block.lead, finished, lead.node (.rule ⟨content.inclusive, []⟩) :: outer, true, false⟩ :=
    writes_of_editBlock (fun block => block.add lead (.rule ⟨content.inclusive, []⟩) true)
      (fun _ _ _ => rfl) (takes.add _ _)
  exact added.append (writes_addCriteria content.criteria [])

/-- Edits inside a block, between its braces. -/
theorem writes_block {edits : List Edit} {closed : OpenBlock} {children : List Node}
    (takes : block.Takes lead finished outer) (inside : Writes edits { lead } closed)
    (sameLead : closed.lead = lead) (holds : closed.Holds children) (begun : children ≠ []) :
    Writes (.openBlock lead :: edits ++ [.closeBlock]) block
      ⟨block.lead, finished, lead.node (.block children) :: outer, false, false⟩ := by
  intro symbols anonymous name enclosing
  have opens : Draft.apply ⟨symbols, anonymous, .pattern ⟨name, block, enclosing⟩⟩
      (.openBlock lead) = .accepted ⟨symbols, anonymous,
        .pattern ⟨name, { lead }, { block with acceptsCriteria := false } :: enclosing⟩⟩ := by
    simp only [Draft.apply, Draft.openBlock, takes.allowed]
  have closes : Draft.apply ⟨symbols, anonymous,
      .pattern ⟨name, closed, { block with acceptsCriteria := false } :: enclosing⟩⟩ .closeBlock =
      .accepted ⟨symbols, anonymous, .pattern ⟨name, ⟨block.lead, finished,
        lead.node (.block children) :: outer, false, false⟩, enclosing⟩⟩ := by
    have notEmpty := holds.isEmpty_eq_false begun
    rw [OpenBlock.Holds] at holds
    simp only [Draft.apply, Draft.closeBlock, notEmpty, holds, sameLead, takes.reopened.places]
    rfl
  rw [List.cons_append, Draft.applyAll_cons_of_accepted opens, Draft.applyAll_append_eq_ok_iff]
  exact ⟨_, inside _ _ _ _, Draft.applyAll_cons_of_accepted closes []⟩

/-- The name of a capture makes the marks of a construct those of the node. -/
theorem writes_capture {content : Body} {accepts : Bool} {blockLead : Lead} (separates : Bool)
    (marks : Marks) :
    Writes ((marks.collectAs.toList.map Phrase.collectAs).flatMap Phrase.edits)
      ⟨blockLead, finished, (Printer.lead separates marks).node content :: outer, accepts, false⟩
      ⟨blockLead, finished, .mk content marks .once :: outer, accepts, false⟩ := by
  obtain ⟨forks, optional, negated, collectAs⟩ := marks
  cases collectAs with
  | none => exact writes_nil
  | some name => exact writes_collectAs name

end Writes

/-! ## Trees -/

mutual

/-- The phrases of a node add its links to the chain of the block. -/
theorem writes_node : ∀ (node : Node) (separates : Bool) {block : OpenBlock}
    {finished outer : List Node}, node.Obeys .printable →
    block.Takes (Printer.lead separates node.marks) finished outer →
    ∃ accepts isOpen, Writes ((node.phrases separates).flatMap Phrase.edits) block
      ⟨block.lead, finished, node.links ++ outer, accepts, isOpen⟩
  | .mk content marks repeated, separates, block, finished, outer, obeys, takes => by
      obtain ⟨accepts, placed⟩ := writes_body content obeys.2.1 takes
      obtain ⟨acceptsNow, isOpen, repeats⟩ :=
        writes_repetition repeated content marks accepts obeys.2.2
      have named := placed.append (writes_capture separates marks)
      refine ⟨acceptsNow, isOpen, ?_⟩
      rw [Node.phrases, List.flatMap_append, List.flatMap_append]
      exact named.append repeats

/-- The phrases of a construct place it. -/
theorem writes_body : ∀ (content : Body) {lead : Lead} {block : OpenBlock}
    {finished outer : List Node}, content.Obeys .printable → block.Takes lead finished outer →
    ∃ accepts, Writes ((content.phrases lead).flatMap Phrase.edits) block
      ⟨block.lead, finished, lead.node content :: outer, accepts, false⟩
  | .block children, lead, block, finished, outer, ⟨firmly, allObey⟩, takes => by
      obtain ⟨first, rest, rfl, noFork⟩ := firmly
      obtain ⟨closed, inside, holds, sameLead⟩ :=
        writes_nodes (first :: rest) allObey (OpenBlock.holds_nil lead) (by simpa using noFork)
      refine ⟨false, ?_⟩
      rw [Body.phrases, List.flatMap_append]
      exact writes_block takes inside sameLead holds (by simp)
  | .rule content, lead, block, finished, outer, obeys, takes => by
      refine ⟨true, ?_⟩
      rw [Body.phrases, List.flatMap_singleton]
      exact writes_rule content takes
  | .reference name, lead, block, finished, outer, obeys, takes =>
      ⟨false, writes_addReference name takes⟩

/-- The phrases behind a construct repeat it, with its separators. -/
theorem writes_repetition : ∀ (repeated : Repetition) (content : Body) (marks : Marks)
    (accepts : Bool) {blockLead : Lead} {finished outer : List Node},
    repeated.Obeys .printable marks →
    ∃ acceptsNow isOpen, Writes (repeated.phrases.flatMap Phrase.edits)
      ⟨blockLead, finished, .mk content marks .once :: outer, accepts, false⟩
      ⟨blockLead, finished, (Node.mk content marks repeated).links ++ outer, acceptsNow, isOpen⟩
  | .once, content, marks, accepts, blockLead, finished, outer, obeys =>
      ⟨accepts, false, writes_nil⟩
  | .times bounds, content, marks, accepts, blockLead, finished, outer, obeys =>
      ⟨accepts, true, writes_addRepeat obeys.2 obeys.1⟩
  | .separated bounds separator, content, marks, accepts, blockLead, finished, outer, obeys => by
      obtain ⟨repeats, noFork, separatorObeys⟩ := obeys
      have repeated : Writes [.addRepeat bounds]
          ⟨blockLead, finished, .mk content marks .once :: outer, accepts, false⟩
          ⟨blockLead, finished, .mk content marks (.times bounds) :: outer, accepts, true⟩ :=
        writes_addRepeat repeats.2 repeats.1
      obtain ⟨acceptsNow, isOpen, separated⟩ := writes_node separator true separatorObeys
        (OpenBlock.takes_separator (by rfl) (by exact noFork))
      refine ⟨acceptsNow, isOpen, ?_⟩
      rw [Node.links, List.append_assoc]
      exact repeated.append separated

/-- The phrases of nodes add them to the children of the block. -/
theorem writes_nodes : ∀ (nodes : List Node) {block : OpenBlock} {done : List Node},
    AllObey .printable nodes → block.Holds done →
    (done = [] → ∀ first ∈ nodes.head?, first.forks = false) →
    ∃ after, Writes ((phrasesOf nodes).flatMap Phrase.edits) block after ∧
      after.Holds (done ++ nodes) ∧ after.lead = block.lead
  | [], block, done, _, holds, _ => ⟨block, writes_nil, by simpa using holds, rfl⟩
  | node :: rest, block, done, obey, holds, firmly => by
      have takes : block.Takes (Printer.lead false node.marks) done [] :=
        holds.takes (by rfl) (by
          intro forks isFirst
          have noFork := firmly isFirst node (by simp)
          exact absurd (forks.symm.trans noFork) (by simp))
      obtain ⟨accepts, isOpen, first⟩ := writes_node node false obey.1 takes
      obtain ⟨after, others, holdsAll, sameLead⟩ := writes_nodes rest obey.2
        (OpenBlock.holds_links block.lead node accepts isOpen) (by simp)
      refine ⟨after, ?_, by simpa using holdsAll, sameLead⟩
      rw [phrasesOf, List.flatMap_append]
      exact first.append others

end

/-! ## Symbols -/

/-- The name that is written above a symbol. -/
def Symbol.givenName? (symbol : Symbol) : Option String :=
  if Printer.isNumbered symbol.name then none else some symbol.name

theorem Printer.isNumbered_toString (number : Nat) : isNumbered (toString number) = true := by
  obtain ⟨first, rest, split, isDigit⟩ := exists_digit_toString number
  rw [isNumbered, split]
  exact isDigit

theorem ProperName.isNumbered_eq_false {name : String} (proper : ProperName name) :
    Printer.isNumbered name = false := by
  have begins := proper.begins
  rw [Printer.isNumbered]
  cases first : name.toList.head? with
  | none => rfl
  | some first => exact begins _ (by assumption)

theorem Symbol.givenName?_of_proper {symbol : Symbol} (proper : ProperName symbol.name) :
    symbol.givenName? = some symbol.name := by
  rw [givenName?, proper.isNumbered_eq_false]
  rfl

theorem Symbol.givenName?_of_number {symbol : Symbol} {number : Nat}
    (isNumber : symbol.name = toString number) : symbol.givenName? = none := by
  rw [givenName?, isNumber, Printer.isNumbered_toString]
  rfl

theorem Symbol.eq_name_of_givenName? {symbol : Symbol} {name : String}
    (given : symbol.givenName? = some name) : name = symbol.name := by
  rw [givenName?] at given
  split at given
  · cases given
  · exact (Option.some.inj given).symm

/-- What is said of a symbol, in order. -/
def Symbol.phrases : Symbol → List Phrase
  | .pattern found =>
      .beginPattern (Symbol.pattern found).givenName? :: phrasesOf found.children ++ [.endPattern]
  | .charset found => [.charset found.name found.criteria]

namespace Draft

/-- The draft holds these symbols, once the charset being built is stored. -/
def Settles (draft : Draft) (symbols : Table Symbol) : Prop :=
  draft.commit = .accepted ⟨symbols, draft.anonymous, .idle⟩

section Symbols

variable {draft : Draft} {symbols : Table Symbol}

theorem Settles.beginNamed (settles : draft.Settles symbols) {name : String}
    (unreserved : Keyword.reserved name = false) (unused : symbols.get? name = none)
    (construction : Construction) :
    (draft.commit.andThen fun committed => committed.beginNamed name construction) =
      .accepted ⟨symbols, draft.anonymous, construction⟩ := by
  have isFree : Draft.nameIsFree ⟨symbols, draft.anonymous, .idle⟩ name = true := by
    simp [Draft.nameIsFree, Draft.nameIsUnused, Table.contains, unreserved, unused]
  rw [settles]
  exact if_pos isFree

/-- The phrases of a pattern that has begun store it. -/
theorem applyAll_children {pattern : Pattern} {anonymous : Nat}
    (obeys : (Symbol.pattern pattern).Obeys .printable) :
    Draft.applyAll ⟨symbols, anonymous, .pattern { name := pattern.name }⟩
        ((phrasesOf pattern.children ++ [Phrase.endPattern]).flatMap Phrase.edits) =
      .ok ⟨symbols.insert pattern.name (.pattern pattern), anonymous, .idle⟩ := by
  obtain ⟨⟨first, rest, isChildren, noFork⟩, allObey⟩ := obeys
  obtain ⟨closed, inside, holds, _⟩ := writes_nodes pattern.children allObey
    (OpenBlock.holds_nil {}) (by rw [isChildren]; simpa using noFork)
  have notEmpty := holds.isEmpty_eq_false (by rw [isChildren]; simp)
  have ends : Draft.apply ⟨symbols, anonymous, .pattern ⟨pattern.name, closed, []⟩⟩ .endPattern =
      .accepted ⟨symbols.insert pattern.name (.pattern pattern), anonymous, .idle⟩ := by
    rw [OpenBlock.Holds] at holds
    simp only [Draft.apply, Draft.endPattern, notEmpty, holds]
    rfl
  rw [List.flatMap_append, applyAll_append_eq_ok_iff]
  exact ⟨_, inside _ _ _ _, applyAll_cons_of_accepted ends []⟩

theorem Settles.numbered (settles : draft.Settles symbols) {pattern : Pattern}
    (obeys : (Symbol.pattern pattern).Obeys .printable)
    (isNext : pattern.name = toString draft.anonymous) :
    draft.applyAll ((Symbol.pattern pattern).phrases.flatMap Phrase.edits) =
      .ok ⟨symbols.insert pattern.name (.pattern pattern), draft.anonymous + 1, .idle⟩ := by
  have noName : (Symbol.pattern pattern).givenName? = none := Symbol.givenName?_of_number isNext
  have begins : draft.apply (.beginPattern none) =
      .accepted ⟨symbols, draft.anonymous + 1, .pattern { name := pattern.name }⟩ := by
    rw [isNext, Draft.apply, Draft.beginPattern, settles]
    rfl
  rw [Symbol.phrases, noName]
  exact (applyAll_cons_of_accepted begins _).trans (applyAll_children obeys)

theorem Settles.named (settles : draft.Settles symbols) {pattern : Pattern}
    (obeys : (Symbol.pattern pattern).Obeys .printable) (proper : ProperName pattern.name)
    (unused : symbols.get? pattern.name = none) :
    draft.applyAll ((Symbol.pattern pattern).phrases.flatMap Phrase.edits) =
      .ok ⟨symbols.insert pattern.name (.pattern pattern), draft.anonymous, .idle⟩ := by
  have given : (Symbol.pattern pattern).givenName? = some pattern.name :=
    Symbol.givenName?_of_proper proper
  have begins : draft.apply (.beginPattern (some pattern.name)) =
      .accepted ⟨symbols, draft.anonymous, .pattern { name := pattern.name }⟩ :=
    settles.beginNamed proper.unreserved unused _
  rw [Symbol.phrases, given]
  exact (applyAll_cons_of_accepted begins _).trans (applyAll_children obeys)

/-- The induction is on the criteria, behind those that the charset has already. -/
theorem applyAll_criteria {anonymous : Nat} {name : String} (criteria done : List Criterion)
    (noLoop : .symbol name ∉ criteria) :
    Draft.applyAll ⟨symbols, anonymous, .charset ⟨name, done⟩⟩ (criteria.map .addCriterion) =
      .ok ⟨symbols, anonymous, .charset ⟨name, done ++ criteria⟩⟩ := by
  induction criteria generalizing done with
  | nil => simp [Draft.applyAll]
  | cons criterion rest inductionHypothesis =>
      have adds : Draft.apply ⟨symbols, anonymous, .charset ⟨name, done⟩⟩
          (.addCriterion criterion) =
          .accepted ⟨symbols, anonymous, .charset ⟨name, done ++ [criterion]⟩⟩ := by
        have different : criterion ≠ .symbol name := by
          rintro rfl
          exact noLoop List.mem_cons_self
        simp only [Draft.apply, Draft.addCriterion, if_neg different]
      rw [List.map_cons, applyAll_cons_of_accepted adds,
        inductionHypothesis _ fun member => noLoop (List.mem_cons_of_mem _ member),
        List.append_assoc]
      rfl

theorem Settles.charset (settles : draft.Settles symbols) {charset : Charset}
    (proper : ProperName charset.name) (unused : symbols.get? charset.name = none)
    (noLoop : .symbol charset.name ∉ charset.criteria) :
    draft.applyAll ((Symbol.charset charset).phrases.flatMap Phrase.edits) =
      .ok ⟨symbols, draft.anonymous, .charset charset⟩ := by
  have begins : draft.apply (.beginCharset charset.name) =
      .accepted ⟨symbols, draft.anonymous, .charset ⟨charset.name, []⟩⟩ :=
    settles.beginNamed proper.unreserved unused _
  rw [Symbol.phrases, List.flatMap_singleton]
  exact (applyAll_cons_of_accepted begins _).trans (applyAll_criteria charset.criteria [] noLoop)

theorem settles_charset {charset : Charset} {anonymous : Nat} (nonempty : charset.criteria ≠ []) :
    Draft.Settles ⟨symbols, anonymous, .charset charset⟩
      (symbols.insert charset.name (.charset charset)) := by
  have notEmpty : charset.criteria.isEmpty = false := by simpa using nonempty
  simp only [Draft.Settles, Draft.commit, notEmpty]
  rfl

end Symbols

end Draft

end PlainPattern
