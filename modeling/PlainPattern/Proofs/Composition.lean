import Mathlib.Tactic.Choose
import PlainPattern.Proofs.CycleReports
import PlainPattern.Proofs.Joining

/-!
Contract: a schema may be written in parts, and the parts in any order.

Owns: what charsets of two schemas have to do with each other (`AcyclicTogether`), what texts say on
consecutive lines (`spells_onLines`), what becomes of their symbols when they are reordered
(`symbolsFrom_perm`), and the main result `compilation_is_compositional`.
-/

set_option autoImplicit false

namespace PlainPattern

open Reading

/-! ## References between charsets -/

/-- The symbols that charsets name, each behind the name of the charset. They may stand
elsewhere. -/
def Schema.charsetReferences (schema : Schema) : List (String × String) :=
  schema.symbols.entries.flatMap fun entry =>
    match entry.2 with
    | .charset found => (found.criteria.filterMap Criterion.symbolName?).map (Prod.mk entry.1)
    | .pattern _ => []

/-- No charset of the two schemas leads back to itself, be it through charsets of the other one. -/
def AcyclicTogether (first second : Schema) : Prop :=
  ∀ name, ¬Relation.TransGen
    (fun name next => (name, next) ∈ first.charsetReferences ++ second.charsetReferences) name name

theorem Schema.mem_charsetReferences {schema : Schema} {name next : String} {charset : Charset}
    (found : schema.get? name = some (.charset charset)) (named : .symbol next ∈ charset.criteria) :
    (name, next) ∈ schema.charsetReferences := by
  refine List.mem_flatMap.2 ⟨(name, .charset charset), ?_, ?_⟩
  · exact (Table.mem_entries_iff _ _ _).2 found
  · exact List.mem_map_of_mem (mem_filterMap_symbolName?.2 named)

namespace Spells

variable {source other : String} {definitions more : List Definition} {schema further : Schema}

/-- Charsets keep their names when numbers are raised. -/
theorem raisedName_charset (spells : Spells source definitions)
    (compiled : compile source = .ok schema) {name : String} {charset : Charset}
    (found : schema.get? name = some (.charset charset)) (more : Nat) :
    raisedName more name = name := by
  obtain ⟨member, rfl⟩ := (spells.get?_eq_some_iff compiled).1 found
  exact ((spells.distinctlyNamed.symbolsFrom_add 0 more).2 _ member).symm

theorem acyclic_joined (spells : Spells source definitions) (compiled : compile source = .ok schema)
    (spellsMore : Spells other more) (compiledMore : compile other = .ok further)
    (apart : List.Disjoint (namesOf definitions) (namesOf more))
    (acyclic : AcyclicTogether schema further) :
    CharsetsAcyclic (schema.joined further).symbols := by
  have reference (name next : String)
      (link : CharsetLink (schema.joined further).symbols name next) :
      (name, next) ∈ schema.charsetReferences ++ further.charsetReferences := by
    obtain ⟨charset, _, found, named, _⟩ := link
    rcases (spells.get?_joined_eq_some_iff compiled spellsMore compiledMore apart).1 found with
      inFirst | ⟨old, original, isOriginal, isName, isCharset⟩
    · exact List.mem_append_left _ (Schema.mem_charsetReferences inFirst named)
    · cases original with
      | pattern => cases isCharset
      | charset inSecond =>
          cases isCharset
          rw [isName, spellsMore.raisedName_charset compiledMore isOriginal]
          exact List.mem_append_right _ (Schema.mem_charsetReferences isOriginal named)
  exact fun name returns => acyclic name (Relation.TransGen.mono reference name name returns)

end Spells

/-! ## Texts on consecutive lines -/

/-- Texts one behind the other, each on lines of its own. -/
def onLines (texts : List String) : String :=
  "\n".intercalate texts

theorem onLines_cons (text next : String) (rest : List String) :
    onLines (text :: next :: rest) = text ++ "\n" ++ onLines (next :: rest) := by
  apply String.toList_injective
  simp [onLines, String.toList_intercalate]

section Lines

variable {texts other : List String} {meaning : String → List Definition}

theorem spells_empty : Spells "" [] := by
  have nothing : ofText "".toList = ⟨[], none⟩ := onward_stop rfl
  refine ⟨?_, ?_⟩
  · rw [nothing]
  · rw [nothing]
    exact .nil

/-- The induction is on the texts: no name of the first is given in those behind it. -/
theorem spells_onLines (each : ∀ text ∈ texts, Spells text (meaning text))
    (distinct : (namesOf (texts.flatMap meaning)).Nodup) :
    Spells (onLines texts) (texts.flatMap meaning) := by
  induction texts with
  | nil => exact spells_empty
  | cons text rest inductionHypothesis =>
      obtain ⟨first, others⟩ := List.forall_mem_cons.1 each
      rw [List.flatMap_cons, namesOf_append] at distinct
      obtain ⟨_, distinctRest, apart⟩ := List.nodup_append.1 distinct
      have spellsRest := inductionHypothesis others distinctRest
      cases rest with
      | nil =>
          rw [List.flatMap_singleton]
          exact first
      | cons next rest =>
          rw [onLines_cons, List.flatMap_cons]
          exact first.append spellsRest fun name before member => apart name before name member rfl

/-- Texts that can be read one behind the other give no name twice. -/
theorem nodup_of_onLines (each : ∀ text ∈ texts, Spells text (meaning text))
    (noFault : (ofText (onLines texts).toList).fault = none) :
    (namesOf (texts.flatMap meaning)).Nodup := by
  induction texts with
  | nil => exact List.nodup_nil
  | cons text rest inductionHypothesis =>
      obtain ⟨first, others⟩ := List.forall_mem_cons.1 each
      cases rest with
      | nil =>
          rw [List.flatMap_singleton]
          exact first.distinctlyNamed.distinct
      | cons next rest =>
          rw [onLines_cons] at noFault
          obtain ⟨alone, apart⟩ := first.apart noFault
          have distinctRest := inductionHypothesis others alone
          rw [(spells_onLines others distinctRest).namesOf_eq] at apart
          rw [List.flatMap_cons, namesOf_append]
          exact first.distinctlyNamed.distinct.append distinctRest apart

end Lines

/-! ## Another order -/

/-- A definition with a name takes no number, and looks at none. -/
theorem Definition.symbol_of_named {definition : Definition} (named : definition.isUnnamed = false)
    (next : Nat) : definition.numbers = 0 ∧ definition.symbol next = definition.symbol 0 := by
  cases definition with
  | charset => exact ⟨rfl, rfl⟩
  | pattern name children =>
      cases name with
      | none => cases named
      | some name => exact ⟨rfl, rfl⟩

/-- Only definitions without a name care where they stand. -/
theorem symbolsFrom_perm_split (next : Nat) (definitions : List Definition) :
    (symbolsFrom next definitions).Perm
      ((definitions.filter fun definition => !definition.isUnnamed).map (Definition.symbol 0) ++
        symbolsFrom next (definitions.filter Definition.isUnnamed)) := by
  induction definitions generalizing next with
  | nil => exact .nil
  | cons definition rest inductionHypothesis =>
      have others := inductionHypothesis (next + definition.numbers)
      cases unnamed : definition.isUnnamed with
      | true =>
          rw [List.filter_cons_of_neg (by simp [unnamed]), List.filter_cons_of_pos unnamed]
          exact (others.cons _).trans List.perm_middle.symm
      | false =>
          obtain ⟨noNumber, same⟩ := definition.symbol_of_named unnamed next
          rw [noNumber] at others
          rw [List.filter_cons_of_pos (by simp [unnamed]),
            List.filter_cons_of_neg (by simp [unnamed]), symbolsFrom, noNumber, same]
          exact others.cons _

theorem symbolsFrom_perm {first second : List Definition} (permutation : first.Perm second)
    (sameOrder : first.filter Definition.isUnnamed = second.filter Definition.isUnnamed)
    (next : Nat) : (symbolsFrom next first).Perm (symbolsFrom next second) := by
  refine (symbolsFrom_perm_split next first).trans ?_
  refine .trans ?_ (symbolsFrom_perm_split next second).symm
  rw [sameOrder]
  exact ((permutation.filter _).map _).append_right _

/-- The text meaning something of patterns without a name. -/
def definesUnnamed (text : String) : Bool :=
  match compile text with
  | .ok schema => schema.unnamedCount != 0
  | .error _ => false

/-- A text that says nothing of them defines named symbols only. -/
theorem Spells.filter_isUnnamed {text : String} {definitions : List Definition}
    (spells : Spells text definitions) {schema : Schema} (compiled : compile text = .ok schema)
    (none : definesUnnamed text = false) : definitions.filter Definition.isUnnamed = [] := by
  rw [definesUnnamed, compiled] at none
  have count : definitions.countP Definition.isUnnamed = 0 := by
    rw [← numbersOf, ← spells.unnamedCount_eq compiled]
    simpa using none
  rw [List.countP_eq_length_filter] at count
  exact List.eq_nil_of_length_eq_zero count

theorem flatMap_filter {texts : List String} {keeps : String → Bool}
    {meaning : String → List Definition}
    (nothing : ∀ text ∈ texts, keeps text = false → meaning text = []) :
    (texts.filter keeps).flatMap meaning = texts.flatMap meaning := by
  induction texts with
  | nil => rfl
  | cons text rest inductionHypothesis =>
      obtain ⟨first, others⟩ := List.forall_mem_cons.1 nothing
      cases kept : keeps text with
      | true => rw [List.filter_cons_of_pos kept, List.flatMap_cons, List.flatMap_cons,
          inductionHypothesis others]
      | false => rw [List.filter_cons_of_neg (by simp [kept]), List.flatMap_cons, first kept,
          inductionHypothesis others, List.nil_append]

theorem compile_onLines_perm {texts reordered : List String}
    (each : ∀ text ∈ texts, ∃ schema, compile text = .ok schema)
    (permutation : texts.Perm reordered)
    (sameOrder : texts.filter definesUnnamed = reordered.filter definesUnnamed) {schema : Schema}
    (compiled : compile (onLines texts) = .ok schema) :
    compile (onLines reordered) = .ok schema := by
  have spelled : ∀ text ∈ texts, ∃ definitions, Spells text definitions := by
    intro text member
    obtain ⟨_, compiledText⟩ := each text member
    exact exists_spells compiledText
  choose! meaning spells using spelled
  have spellsAlso : ∀ text ∈ reordered, Spells text (meaning text) :=
    fun text member => spells text (permutation.mem_iff.2 member)
  have permuted := permutation.flatMap_right meaning
  have distinct := nodup_of_onLines spells (Reading.schema_eq_ok compiled).1
  have distinctAlso : (namesOf (reordered.flatMap meaning)).Nodup :=
    (permuted.filterMap _).nodup_iff.1 distinct
  have unnamed : (texts.flatMap meaning).filter Definition.isUnnamed =
      (reordered.flatMap meaning).filter Definition.isUnnamed := by
    have nothing : ∀ text ∈ texts, definesUnnamed text = false →
        (meaning text).filter Definition.isUnnamed = [] := by
      intro text member none
      obtain ⟨schema, compiledText⟩ := each text member
      exact (spells text member).filter_isUnnamed compiledText none
    rw [List.filter_flatMap, List.filter_flatMap, ← flatMap_filter nothing, sameOrder]
    exact flatMap_filter fun text member => nothing text (permutation.mem_iff.2 member)
  have whole := spells_onLines spells distinct
  obtain ⟨acyclic, rfl⟩ := whole.compile_eq_ok_iff.1 compiled
  refine (spells_onLines spellsAlso distinctAlso).compile_eq_ok_iff.2 ⟨acyclic, ?_⟩
  rw [Table.storing_perm (symbolsFrom_perm permuted unnamed 0)
    (whole.distinctlyNamed.nodup_names 0)]

/-- A schema may be written in parts. Two texts that compile, with no name given in both and no
cycle of charsets through both, compile one behind the other to their schemas as one: what is in the
first is in it as it is, and what is in the second too, but that the patterns without a name are
numbered behind those of the first. Two texts that give the same name do not compile one behind the
other. And texts that compile may be put in any order, as long as those with patterns without a name
keep theirs. -/
theorem compilation_is_compositional :
    (∀ {first second : String} {earlier later : Schema},
      compile first = .ok earlier → compile second = .ok later →
      (List.Disjoint earlier.properNames later.properNames → AcyclicTogether earlier later →
        compile (first ++ "\n" ++ second) = .ok (earlier.joined later) ∧
        ∀ name symbol, (earlier.joined later).get? name = some symbol ↔
          earlier.get? name = some symbol ∨ ∃ old original, later.get? old = some original ∧
            name = raisedName earlier.unnamedCount old ∧
            symbol = original.raised earlier.unnamedCount) ∧
      (¬List.Disjoint earlier.properNames later.properNames →
        ∃ error, compile (first ++ "\n" ++ second) = .error error)) ∧
    (∀ {texts reordered : List String}, (∀ text ∈ texts, ∃ schema, compile text = .ok schema) →
      texts.Perm reordered → texts.filter definesUnnamed = reordered.filter definesUnnamed →
      ∀ schema, compile (onLines texts) = .ok schema ↔
        compile (onLines reordered) = .ok schema) := by
  refine ⟨?_, ?_⟩
  · intro first second earlier later compiled compiledLater
    obtain ⟨definitions, spells⟩ := exists_spells compiled
    obtain ⟨more, spellsMore⟩ := exists_spells compiledLater
    have sameNames : List.Disjoint earlier.properNames later.properNames ↔
        List.Disjoint (namesOf definitions) (namesOf more) := by
      simp only [List.Disjoint, spells.mem_properNames_iff compiled,
        spellsMore.mem_properNames_iff compiledLater]
    rw [sameNames]
    refine ⟨fun apart acyclic => ⟨?_, ?_⟩, fun shared => ?_⟩
    · have acyclicJoined :=
        spells.acyclic_joined compiled spellsMore compiledLater apart acyclic
      exact (spells.append spellsMore apart).compile_eq_ok_iff.2
        ⟨acyclicJoined, spells.joined_eq compiled spellsMore compiledLater⟩
    · exact fun _ _ => spells.get?_joined_eq_some_iff compiled spellsMore compiledLater apart
    · cases outcome : compile (first ++ "\n" ++ second) with
      | error error => exact ⟨error, rfl⟩
      | ok schema =>
          have together := (spells.apart (Reading.schema_eq_ok outcome).1).2
          rw [spellsMore.namesOf_eq] at together
          exact absurd together shared
  · intro texts reordered each permutation sameOrder schema
    have eachAlso : ∀ text ∈ reordered, ∃ schema, compile text = .ok schema :=
      fun text member => each text (permutation.mem_iff.2 member)
    exact ⟨compile_onLines_perm each permutation sameOrder,
      compile_onLines_perm eachAlso permutation.symm sameOrder.symm⟩

/-- A pattern without a name, and a charset that is still open where the text ends in a comment. -/
def vowelSource : String :=
  "||\nround\n(x)\n||\n@vowel\na, e # front"

/-- A second pattern without a name, which refers to the first, and a charset that names another. -/
def roundSource : String :=
  "||\n0\n||\n@round\no, vowel"

def pairSource : String :=
  "@pair\n||\nround\nround\n||"

/-- The second pattern without a name becomes number one behind the first, and still names number
zero. A third text, in which every symbol has a name, may stand in front of them or between them. -/
theorem sources_compile_in_parts :
    ∃ vowels rounds whole, compile vowelSource = .ok vowels ∧ compile roundSource = .ok rounds ∧
      compile (vowelSource ++ "\n" ++ roundSource) = .ok (vowels.joined rounds) ∧
      (vowels.joined rounds).names = ["0", "1", "round", "vowel"] ∧
      (∃ original, rounds.get? "0" = some original ∧
        (vowels.joined rounds).get? "1" = some (original.raised 1)) ∧
      (∃ error, compile (vowelSource ++ "\n" ++ vowelSource) = .error error) ∧
      compile (onLines [vowelSource, pairSource, roundSource]) = .ok whole ∧
      compile (onLines [pairSource, vowelSource, roundSource]) = .ok whole := by
  obtain ⟨vowels, compiled, vowelsSeen⟩ := exists_of_view vowelSource
    (fun schema => (schema.properNames, schema.charsetReferences, schema.unnamedCount))
    (["vowel"], [], 1) (by decide +kernel)
  obtain ⟨rounds, compiledRounds, roundsSeen⟩ := exists_of_view roundSource
    (fun schema => (schema.properNames, schema.charsetReferences, (schema.get? "0").isSome))
    (["round"], [("round", "vowel")], true) (by decide +kernel)
  obtain ⟨both, compiledBoth, bothNames⟩ := exists_of_view (vowelSource ++ "\n" ++ roundSource)
    Schema.names ["0", "1", "round", "vowel"] (by decide +kernel)
  obtain ⟨whole, compiledWhole, _⟩ := exists_of_view
    (onLines [vowelSource, pairSource, roundSource]) Schema.size 5 (by decide +kernel)
  obtain ⟨pairs, compiledPairs, noneUnnamed⟩ := exists_of_view pairSource
    Schema.unnamedCount 0 (by decide +kernel)
  simp only [Prod.mk.injEq] at vowelsSeen roundsSeen
  obtain ⟨vowelNames, vowelReferences, vowelCount⟩ := vowelsSeen
  obtain ⟨roundNames, roundReferences, zeroFound⟩ := roundsSeen
  have apart : List.Disjoint vowels.properNames rounds.properNames := by
    rw [vowelNames, roundNames]
    exact List.disjoint_singleton.2 (by decide)
  have acyclic : AcyclicTogether vowels rounds := by
    refine not_returns_of_rank (fun name => if name = "round" then 1 else 0) fun name next => ?_
    rw [vowelReferences, roundReferences]
    simp only [List.nil_append, List.mem_singleton, Prod.mk.injEq]
    rintro ⟨rfl, rfl⟩
    decide
  obtain ⟨joins, _⟩ := compilation_is_compositional.1 compiled compiledRounds
  obtain ⟨compiledJoined, lookups⟩ := joins apart acyclic
  obtain ⟨original, found⟩ := Option.isSome_iff_exists.1 zeroFound
  obtain ⟨_, clashes⟩ := compilation_is_compositional.1 compiled compiled
  have shared : ¬List.Disjoint vowels.properNames vowels.properNames := by
    rw [vowelNames]
    exact fun apart => apart List.mem_cons_self List.mem_cons_self
  have each : ∀ text ∈ [vowelSource, pairSource, roundSource],
      ∃ schema, compile text = .ok schema := by
    simp only [List.forall_mem_cons, List.not_mem_nil, false_imp_iff, implies_true, and_true]
    exact ⟨⟨vowels, compiled⟩, ⟨pairs, compiledPairs⟩, ⟨rounds, compiledRounds⟩⟩
  have namesOnly : definesUnnamed pairSource = false := by
    rw [definesUnnamed, compiledPairs]
    simp [noneUnnamed]
  have sameOrder : [vowelSource, pairSource, roundSource].filter definesUnnamed =
      [pairSource, vowelSource, roundSource].filter definesUnnamed := by
    simp [List.filter_cons, namesOnly]
  have permutation : [vowelSource, pairSource, roundSource].Perm
      [pairSource, vowelSource, roundSource] := .swap pairSource vowelSource _
  have reordered := compilation_is_compositional.2 each permutation sameOrder whole
  have isJoined : both = vowels.joined rounds :=
    Except.ok.inj (compiledBoth.symm.trans compiledJoined)
  refine ⟨vowels, rounds, whole, compiled, compiledRounds, compiledJoined, isJoined ▸ bothNames,
    ⟨original, found, ?_⟩, clashes shared, compiledWhole, reordered.1 compiledWhole⟩
  refine (lookups "1" _).2 (.inr ⟨"0", original, found, ?_, ?_⟩)
  · rw [vowelCount]
    decide +kernel
  · rw [vowelCount]

end PlainPattern
