import PlainPattern.Proofs.Numbering
import PlainPattern.Proofs.SoundDraft
import PlainPattern.Source.Compile

/-!
Contract: every schema that compiles is one that can be written down.

Owns: the step lemma `SoundlyPrintable.applyPhrase`, by which a phrase that is proper keeps every
part of a draft printable, the run lemma over phrases, and the main result
`compiled_schema_is_printable`. Edits are taken phrase by phrase, since a rule obeys its rules no
earlier than behind its last criterion: until then all that is known of it is which criteria it has
(`Sound.addCriteria`).
-/

set_option autoImplicit false

namespace PlainPattern

theorem Lead.Proper.marks {lead : Lead} (proper : lead.Proper) : lead.marks.Printable where
  optional := proper
  collectAs := by
    intro name named
    cases named

namespace OpenBlock

variable {rules : TreeRules} {last next : Node → Prop} {block : OpenBlock}

theorem Sound.mono (sound : block.Sound rules last) (implies : ∀ node, last node → next node) :
    block.Sound rules next :=
  { sound with last := fun node member => implies node (sound.last node member) }

end OpenBlock

namespace Draft

/-- Every part of the draft is printable. -/
abbrev SoundlyPrintable (draft : Draft) : Prop :=
  draft.Sound .printable (Node.Obeys .printable)

section Sound

variable {last next : Node → Prop} {draft after : Draft}

theorem Sound.mono {rules : TreeRules} (sound : draft.Sound rules last)
    (implies : ∀ node, last node → next node) : draft.Sound rules next where
  symbols := sound.symbols
  current := by
    have current := sound.current
    cases isCurrent : draft.current with
    | idle => trivial
    | pattern found =>
        rw [isCurrent] at current
        exact ⟨current.unreserved, current.innermost.mono implies, current.enclosing⟩
    | charset found =>
        rw [isCurrent] at current
        exact current

/-- Nothing has been placed in a charset. -/
theorem Sound.of_isCharset {rules : TreeRules} (sound : draft.Sound rules last) {charset : Charset}
    (isCharset : draft.current = .charset charset) : draft.Sound rules next where
  symbols := sound.symbols
  current := by
    have current := sound.current
    rw [isCharset] at current ⊢
    exact current

theorem applyAll_singleton {edit : Edit} (applied : draft.applyAll [edit] = .ok after) :
    (draft.apply edit).refusal = none ∧ after = (draft.apply edit).draft := by
  obtain ⟨accepted, same⟩ := applyAll_cons_eq_ok_iff.1 applied
  cases same
  exact ⟨accepted, rfl⟩

theorem isPattern_of_editBlock {change : OpenBlock → Except Refusal OpenBlock}
    (accepted : (draft.editBlock change).refusal = none) :
    ∃ pattern, (draft.editBlock change).draft.current = .pattern pattern := by
  unfold Draft.editBlock at accepted ⊢
  split at accepted
  · split at accepted
    · exact ⟨_, rfl⟩
    · cases accepted
  · cases accepted

theorem isCharset_of_beginCharset {name : String}
    (accepted : (draft.beginCharset name).refusal = none) :
    (draft.beginCharset name).draft.current = .charset ⟨name, []⟩ := by
  unfold Draft.beginCharset at accepted ⊢
  have begun := Revision.andThen_of_accepted accepted
  rw [begun] at accepted ⊢
  rw [beginNamed_of_accepted accepted]
  rfl

/-- A criterion is added to a rule about which something is known, or to a charset if it may stand
in a list. -/
theorem Sound.addCriterion (sound : draft.Sound .printable last) {criterion : Criterion}
    (allowed : criterion.Listable ∨ ∃ pattern, draft.current = .pattern pattern)
    (extended : ∀ rule marks repetition, last (.mk (.rule rule) marks repetition) →
      next (.mk (.rule { rule with criteria := rule.criteria ++ [criterion] }) marks repetition))
    (accepted : (draft.addCriterion criterion).refusal = none) :
    (draft.addCriterion criterion).draft.Sound .printable next := by
  unfold Draft.addCriterion at accepted ⊢
  split at accepted
  · rename_i charset isCharset
    have listable : criterion.Listable := allowed.resolve_right (by simp [isCharset])
    have current := sound.current
    rw [isCharset] at current
    split at accepted
    · cases accepted
    · rename_i different
      rw [if_neg different]
      refine ⟨sound.symbols, current.1, fun other member => ?_⟩
      rcases List.mem_append.1 member with earlier | isNew
      · exact current.2 other earlier
      · exact List.mem_singleton.1 isNew ▸ listable
  · exact sound.editBlock (fun _ _ blockSound added => blockSound.addCriterion extended added)
      accepted
  · cases accepted

theorem isPattern_of_addCriterion {criterion : Criterion}
    (isPattern : ∃ pattern, draft.current = .pattern pattern)
    (accepted : (draft.addCriterion criterion).refusal = none) :
    ∃ pattern, (draft.addCriterion criterion).draft.current = .pattern pattern := by
  obtain ⟨pattern, isCurrent⟩ := isPattern
  rw [Draft.addCriterion, isCurrent] at accepted ⊢
  exact isPattern_of_editBlock accepted

/-- The induction is on the criteria: what is known of the node placed last grows with them. -/
theorem Sound.addCriteria (known : List Criterion → Node → Prop) (done : List Criterion)
    {criteria : List Criterion}
    (extended : ∀ done criterion rule marks repetition,
      known done (.mk (.rule rule) marks repetition) →
      known (done ++ [criterion])
        (.mk (.rule { rule with criteria := rule.criteria ++ [criterion] }) marks repetition))
    (sound : draft.Sound .printable (known done))
    (allowed : (∀ criterion ∈ criteria, criterion.Listable) ∨
      ∃ pattern, draft.current = .pattern pattern)
    (applied : draft.applyAll (criteria.map .addCriterion) = .ok after) :
    after.Sound .printable (known (done ++ criteria)) := by
  induction criteria generalizing draft done with
  | nil =>
      cases applied
      rwa [List.append_nil]
  | cons criterion rest inductionHypothesis =>
      obtain ⟨accepted, goesOn⟩ := applyAll_cons_eq_ok_iff.1 applied
      have step := sound.addCriterion (allowed.imp_left fun each => each _ List.mem_cons_self)
        (extended done criterion) accepted
      have next := inductionHypothesis (done ++ [criterion]) step
        (allowed.imp (fun each other member => each other (List.mem_cons_of_mem _ member))
          fun isPattern => isPattern_of_addCriterion isPattern accepted) goesOn
      rwa [List.append_assoc, List.singleton_append] at next

/-- One phrase that is proper keeps a draft printable. -/
theorem SoundlyPrintable.applyPhrase (sound : draft.SoundlyPrintable) {phrase : Phrase}
    (proper : phrase.Proper) (applied : draft.applyAll phrase.edits = .ok after) :
    after.SoundlyPrintable := by
  cases phrase with
  | beginPattern name =>
      obtain ⟨_, rfl⟩ := applyAll_singleton applied
      exact sound.beginPattern name
  | endPattern =>
      obtain ⟨_, rfl⟩ := applyAll_singleton applied
      exact sound.endPattern
  | charset name criteria =>
      obtain ⟨accepted, goesOn⟩ := applyAll_cons_eq_ok_iff.1 applied
      have begun : (draft.beginCharset name).draft.Sound .printable fun _ => False :=
        Sound.of_isCharset (sound.beginCharset name) (isCharset_of_beginCharset accepted)
      have filled :=
        Sound.addCriteria (fun _ _ => False) [] (by simp) begun (.inl proper.2.2) goesOn
      exact filled.mono fun _ impossible => impossible.elim
  | openBlock lead =>
      obtain ⟨_, rfl⟩ := applyAll_singleton applied
      exact sound.openBlock (Lead.Proper.marks proper)
  | closeBlock =>
      obtain ⟨_, rfl⟩ := applyAll_singleton applied
      exact sound.closeBlock
  | rule lead content =>
      obtain ⟨accepted, goesOn⟩ := applyAll_cons_eq_ok_iff.1 applied
      let known := fun (done : List Criterion) (node : Node) =>
        node = lead.node (.rule ⟨content.inclusive, done⟩)
      have begun : (draft.apply (.addRule lead content.inclusive)).draft.Sound .printable
          (known []) :=
        sound.editBlock (fun _ _ blockSound added => blockSound.add rfl added) accepted
      have filled := Sound.addCriteria known []
        (by rintro done criterion rule marks repetition ⟨⟩; rfl)
        begun (.inr (isPattern_of_editBlock accepted)) goesOn
      refine filled.mono ?_
      rintro node rfl
      exact ⟨proper.1.marks, proper.2, trivial⟩
  | reference name lead =>
      obtain ⟨accepted, rfl⟩ := applyAll_singleton applied
      have obeys : (lead.node (.reference name)).Obeys .printable :=
        ⟨proper.1.marks, proper.2, trivial⟩
      exact sound.editBlock (fun _ _ blockSound added => blockSound.add obeys added) accepted
  | times bounds =>
      obtain ⟨accepted, rfl⟩ := applyAll_singleton applied
      change (draft.addRepeat bounds).refusal = none at accepted
      change (draft.addRepeat bounds).draft.SoundlyPrintable
      unfold Draft.addRepeat at accepted ⊢
      split at accepted
      · rename_i valid
        rw [if_pos valid]
        refine sound.editBlock (fun _ _ blockSound added => blockSound.addRepeat ?_ added) accepted
        intro body marks affirmed obeys
        exact ⟨obeys.1, obeys.2.1, affirmed, proper⟩
      · cases accepted
  | collectAs name =>
      obtain ⟨accepted, rfl⟩ := applyAll_singleton applied
      refine sound.editBlock (fun _ _ blockSound added => blockSound.collectAs ?_ added) accepted
      intro body marks repetition obeys
      have collected : Marks.Printable { marks with collectAs := some name } :=
        ⟨obeys.1.optional, by rintro _ ⟨⟩; exact proper⟩
      cases repetition <;> exact ⟨collected, obeys.2⟩

/-- So does a row of phrases. -/
theorem SoundlyPrintable.applyAll (sound : draft.SoundlyPrintable) {edits : List Edit}
    (phrased : Phrased edits) (applied : draft.applyAll edits = .ok after) :
    after.SoundlyPrintable := by
  obtain ⟨phrases, proper, rfl⟩ := phrased
  induction phrases generalizing draft with
  | nil =>
      cases applied
      exact sound
  | cons phrase rest inductionHypothesis =>
      obtain ⟨between, first, goesOn⟩ := applyAll_append_eq_ok_iff.1 applied
      exact inductionHypothesis (sound.applyPhrase (proper phrase List.mem_cons_self) first)
        (fun other member => proper other (List.mem_cons_of_mem _ member)) goesOn

theorem soundlyPrintable_empty : ({} : Draft).SoundlyPrintable where
  symbols := by
    intro key symbol found
    cases found
  current := trivial

end Sound

end Draft

/-- What phrases build can be written down, and its patterns without a name are numbered in the
order of the phrases. -/
theorem printable_of_phrased {edits : List Edit} {draft : Draft} {schema : Schema}
    (phrased : Phrased edits) (applied : Draft.applyAll {} edits = .ok draft)
    (finished : draft.finish = .ok schema) :
    schema.Printable (unnamedRows edits).length ∧
    ∀ (number : Nat) (row : List Edit), (unnamedRows edits)[number]? = some row →
      ∃ children, BuiltBy row children ∧
        schema.get? (toString number) = some (.pattern ⟨toString number, children⟩) := by
  obtain ⟨rfl, acyclic, ended⟩ := Draft.finish_eq_ok finished
  have committed := Draft.commit_follows draft .endPattern
  have noName : ∀ name, Edit.name? .endPattern = some name → ProperName name := by
    rintro name ⟨⟩
  have sound := (Draft.soundlyPrintable_empty.applyAll phrased applied).commit
  have keyed := (Draft.keyed_empty.applyAll phrased.namedProperly applied).follows committed noName
  obtain ⟨count, stored⟩ := Draft.rows_stored phrased.namedProperly applied ended
  simp only [Nat.zero_add] at count stored
  have inOrder : ∀ (number : Nat) (row : List Edit), (unnamedRows edits)[number]? = some row →
      ∃ children, BuiltBy row children ∧ draft.commit.draft.symbols.get? (toString number) =
        some (.pattern ⟨toString number, children⟩) := by
    intro number row isRow
    obtain ⟨children, built, keeps⟩ := stored number row isRow
    exact ⟨children, built, (keeps.follows committed noName).stored⟩
  refine ⟨⟨?_, ?_, ?_, ?_, acyclic⟩, inOrder⟩
  · intro number less
    obtain ⟨children, _, found⟩ := inOrder number _ (List.getElem?_eq_getElem less)
    exact ⟨_, found⟩
  · intro key symbol found
    have known := keyed.symbols key symbol found
    rwa [Draft.Knows, Draft.commit_anonymous, count] at known
  · exact fun key symbol found => (sound.symbols key symbol found).1
  · exact fun key symbol found => (sound.symbols key symbol found).2.2

theorem Reading.schema_eq_ok {reading : Reading} {source : List Char} {schema : Schema}
    (compiled : reading.schema source = .ok schema) :
    reading.fault = none ∧
      ∃ draft, Draft.applyAll {} reading.edits = .ok draft ∧ draft.finish = .ok schema := by
  unfold Reading.schema at compiled
  split at compiled
  · cases compiled
  · rename_i draft applied
    split at compiled
    · cases compiled
    · rename_i noFault
      split at compiled
      · rename_i sealed finished
        cases compiled
        exact ⟨noFault, draft, applied, finished⟩
      · cases compiled

/-- What is seen of a schema that a text compiles to shows that the text compiles. -/
theorem exists_of_view {Value : Type} (text : String) (view : Schema → Value) (value : Value)
    (seen : (compile text).toOption.map view = some value) :
    ∃ schema, compile text = .ok schema ∧ view schema = value := by
  cases compiled : compile text with
  | error error =>
      rw [compiled] at seen
      cases seen
  | ok schema =>
      rw [compiled] at seen
      exact ⟨schema, rfl, Option.some.inj seen⟩

theorem printable_of_compile {source : String} {schema : Schema}
    (compiled : compile source = .ok schema) :
    schema.Printable (unnamedRows (Reading.ofText source.toList).edits).length := by
  obtain ⟨noFault, draft, applied, finished⟩ := Reading.schema_eq_ok compiled
  exact (printable_of_phrased (phrased_of_reading noFault) applied finished).1

/-- A schema that compiles can be written down: its keys, its names, its literals, ranges, lists and
marks are as the language writes them. The patterns without a name have the numbers from zero on, in
the order of the text, and each has the children that its own lines build. -/
theorem compiled_schema_is_printable {source : String} {schema : Schema}
    (compiled : compile source = .ok schema) :
    schema.Printable (unnamedRows (Reading.ofText source.toList).edits).length ∧
    ∀ (number : Nat) (row : List Edit),
      (unnamedRows (Reading.ofText source.toList).edits)[number]? = some row →
      ∃ children, BuiltBy row children ∧
        schema.get? (toString number) = some (.pattern ⟨toString number, children⟩) := by
  obtain ⟨noFault, draft, applied, finished⟩ := Reading.schema_eq_ok compiled
  exact printable_of_phrased (phrased_of_reading noFault) applied finished

/-- A text with a named pattern between two without a name, and a charset. -/
def mixedSource : String :=
  "||\n(a) times 2\nafter any x, y\n||\n@pair\n||\nnot \x7bhalf\x7d as it\n||\n@half\nc to a\n" ++
    "||\nnone half\nor end\n||"

/-- The mixed text compiles, and its second pattern without a name has the number one. -/
theorem mixed_source_is_printable :
    ∃ schema, compile mixedSource = .ok schema ∧ schema.names = ["0", "1", "half", "pair"] ∧
      schema.Printable 2 := by
  have names : (compile mixedSource).toOption.map Schema.names =
      some ["0", "1", "half", "pair"] := by decide +kernel
  have count : (unnamedRows (Reading.ofText mixedSource.toList).edits).length = 2 := by
    decide +kernel
  cases compiled : compile mixedSource with
  | error error =>
      rw [compiled] at names
      cases names
  | ok schema =>
      rw [compiled] at names
      exact ⟨schema, rfl, Option.some.inj names, count ▸ (compiled_schema_is_printable compiled).1⟩

end PlainPattern
