import PlainPattern.Proofs.Definitions
import PlainPattern.Proofs.RoundTrip

/-!
Contract: a schema is made of the definitions of its text, one after another.

Owns: the symbols that definitions become when those without a name are numbered (`symbolsFrom`);
the run over their rows of edits (`Draft.Settles.definesAll`); what it is for a text to spell
definitions out (`Spells`); and the main results: a text that compiles spells definitions out
(`exists_spells`), and what it compiles to are their symbols (`Spells.compile_eq_ok_iff`).
-/

set_option autoImplicit false

namespace PlainPattern

/-- The symbols that are defined. Those without a name are numbered from `next` on. -/
def symbolsFrom : Nat → List Definition → List Symbol
  | _, [] => []
  | next, definition :: rest =>
      definition.symbol next :: symbolsFrom (next + definition.numbers) rest

def namesOf (definitions : List Definition) : List String :=
  definitions.filterMap Definition.name?

/-- How many numbers the definitions take. -/
def numbersOf (definitions : List Definition) : Nat :=
  definitions.countP Definition.isUnnamed

/-- The names that are given are proper ones, and no two symbols have the same. -/
structure DistinctlyNamed (definitions : List Definition) : Prop where
  proper : ∀ name ∈ namesOf definitions, ProperName name
  distinct : (namesOf definitions).Nodup

section Definitions

variable {next : Nat} {definition : Definition} {definitions rest : List Definition}

theorem namesOf_append (first second : List Definition) :
    namesOf (first ++ second) = namesOf first ++ namesOf second :=
  List.filterMap_append

theorem namesOf_cons (definition : Definition) (rest : List Definition) :
    namesOf (definition :: rest) = definition.name?.toList ++ namesOf rest := by
  cases named : definition.name? <;> simp [namesOf, named]

theorem mem_namesOf {name : String} :
    name ∈ namesOf definitions ↔ ∃ definition ∈ definitions, definition.name? = some name :=
  List.mem_filterMap

theorem numbersOf_cons (definition : Definition) (rest : List Definition) :
    numbersOf (definition :: rest) = definition.numbers + numbersOf rest := by
  rw [numbersOf, List.countP_cons, Definition.numbers, numbersOf, Nat.add_comm]

theorem symbolsFrom_append (next : Nat) (first second : List Definition) :
    symbolsFrom next (first ++ second) =
      symbolsFrom next first ++ symbolsFrom (next + numbersOf first) second := by
  induction first generalizing next with
  | nil => rfl
  | cons definition rest inductionHypothesis =>
      simp only [List.cons_append, symbolsFrom, inductionHypothesis, numbersOf_cons, Nat.add_assoc]

theorem DistinctlyNamed.tail (named : DistinctlyNamed (definition :: rest)) :
    DistinctlyNamed rest where
  proper := by
    intro name member
    apply named.proper
    rw [namesOf_cons]
    exact List.mem_append_right _ member
  distinct := by
    have distinct := named.distinct
    rw [namesOf_cons] at distinct
    exact (List.nodup_append.1 distinct).2.1

/-- A symbol has the name that it is given, or a number. -/
theorem Definition.name_symbol (definition : Definition) (number : Nat) :
    (definition.name? = some (definition.symbol number).name ∧ definition.numbers = 0) ∨
      (definition.name? = none ∧ (definition.symbol number).name = toString number ∧
        definition.numbers = 1) := by
  cases definition with
  | pattern name children =>
      cases name with
      | none => exact Or.inr ⟨rfl, rfl, rfl⟩
      | some name => exact Or.inl ⟨rfl, rfl⟩
  | charset found => exact Or.inl ⟨rfl, rfl⟩

theorem name_of_mem_symbolsFrom {symbol : Symbol}
    (member : symbol ∈ symbolsFrom next definitions) :
    symbol.name ∈ namesOf definitions ∨
      ∃ number, next ≤ number ∧ symbol.name = toString number := by
  induction definitions generalizing next with
  | nil => cases member
  | cons definition rest inductionHypothesis =>
      rw [namesOf_cons, List.mem_append]
      rcases List.mem_cons.1 member with rfl | inRest
      · rcases definition.name_symbol next with ⟨given, _⟩ | ⟨_, isNumber, _⟩
        · exact Or.inl (Or.inl (by simp [given]))
        · exact Or.inr ⟨next, Nat.le_refl next, isNumber⟩
      · rcases inductionHypothesis inRest with given | ⟨number, atLeast, isNumber⟩
        · exact Or.inl (Or.inr given)
        · exact Or.inr ⟨number, by omega, isNumber⟩

/-- No two symbols have the same name: names differ from each other and from numbers, and no number
is given twice. -/
theorem DistinctlyNamed.nodup_names (named : DistinctlyNamed definitions) (next : Nat) :
    ((symbolsFrom next definitions).map Symbol.name).Nodup := by
  induction definitions generalizing next with
  | nil => exact List.nodup_nil
  | cons definition rest inductionHypothesis =>
      refine List.nodup_cons.2 ⟨?_, inductionHypothesis named.tail _⟩
      intro again
      obtain ⟨symbol, member, same⟩ := List.mem_map.1 again
      have proper := named.proper
      have distinct := named.distinct
      rw [namesOf_cons] at proper distinct
      rcases definition.name_symbol next with ⟨given, _⟩ | ⟨_, isNumber, one⟩
      · rw [given] at proper distinct
        rcases name_of_mem_symbolsFrom member with inRest | ⟨number, _, isNumber⟩
        · exact (List.nodup_cons.1 distinct).1 (same ▸ inRest)
        · exact (proper _ List.mem_cons_self).ne_toString number (same ▸ isNumber)
      · rcases name_of_mem_symbolsFrom member with inRest | ⟨number, atLeast, isOther⟩
        · have properName := proper _ (List.mem_append_right _ inRest)
          exact properName.ne_toString next (same.trans isNumber)
        · have sameNumber : number = next := toString_inj (isOther.symm.trans (same.trans isNumber))
          omega

end Definitions

/-! ## Tables -/

namespace Table

variable {symbols : Table Symbol} {more other : List Symbol}

/-- Behind others, symbols of different names are found under their names, and nothing else has
changed. -/
theorem get?_storing_eq_some_iff (distinct : (more.map Symbol.name).Nodup) {name : String}
    {symbol : Symbol} : (symbols.storing more).get? name = some symbol ↔
      (symbol ∈ more ∧ symbol.name = name) ∨
        (name ∉ more.map Symbol.name ∧ symbols.get? name = some symbol) := by
  induction more generalizing symbols with
  | nil => simp [storing]
  | cons head rest inductionHypothesis =>
      obtain ⟨notAgain, distinctRest⟩ := List.nodup_cons.1 distinct
      show ((symbols.insert head.name head).storing rest).get? name = some symbol ↔ _
      rw [inductionHypothesis distinctRest, get?_insert]
      by_cases isHead : name = head.name
      · have onlyHead : symbol ∈ head :: rest ∧ symbol.name = name ↔ head = symbol := by
          constructor
          · rintro ⟨member, named⟩
            rcases List.mem_cons.1 member with rfl | inRest
            · rfl
            · have same : symbol.name = head.name := named.trans isHead
              exact absurd (same ▸ List.mem_map_of_mem inRest) notAgain
          · rintro rfl
            exact ⟨List.mem_cons_self, isHead.symm⟩
        have notInRest : ¬(symbol ∈ rest ∧ symbol.name = name) := by
          rintro ⟨member, named⟩
          have same : symbol.name = head.name := named.trans isHead
          exact notAgain (same ▸ List.mem_map_of_mem member)
        have notAmong : name ∉ rest.map Symbol.name := isHead ▸ notAgain
        have atHead : name ∈ (head :: rest).map Symbol.name := isHead ▸ List.mem_cons_self
        rw [if_pos isHead, onlyHead]
        simp only [notInRest, notAmong, atHead, Option.some.injEq, not_true, not_false_eq_true,
          true_and, false_and, false_or, or_false]
      · have notHead : symbol ∈ head :: rest ∧ symbol.name = name ↔
            symbol ∈ rest ∧ symbol.name = name := by
          refine and_congr_left fun named => ?_
          rw [List.mem_cons, or_iff_right]
          rintro rfl
          exact isHead named.symm
        rw [notHead]
        simp [isHead]

/-- Symbols of different names may be stored in any order. -/
theorem storing_perm (permutation : more.Perm other) (distinct : (more.map Symbol.name).Nodup) :
    symbols.storing more = symbols.storing other := by
  have otherDistinct := (permutation.map Symbol.name).nodup_iff.1 distinct
  refine Table.ext_get? fun name => Option.ext fun symbol => ?_
  rw [get?_storing_eq_some_iff distinct, get?_storing_eq_some_iff otherDistinct,
    permutation.mem_iff, (permutation.map Symbol.name).mem_iff]

end Table

namespace Draft

variable {draft : Draft} {symbols : Table Symbol}

/-- The rows of definitions store their symbols, one behind the other. -/
theorem Settles.definesAll {edits : List Edit} {definitions : List Definition}
    (settles : draft.Settles symbols) (defines : DefinesAll edits definitions)
    (named : DistinctlyNamed definitions)
    (unused : ∀ name ∈ namesOf definitions, symbols.get? name = none) :
    ∃ after, draft.applyAll edits = .ok after ∧
      after.Settles (symbols.storing (symbolsFrom draft.anonymous definitions)) := by
  induction defines generalizing draft symbols with
  | nil => exact ⟨draft, rfl, settles⟩
  | @cons row rest definition definitions defines _ inductionHypothesis =>
      have proper := named.proper
      have distinct := named.distinct
      rw [namesOf_cons] at proper distinct unused
      have fits : definition.Fits symbols := by
        intro name given
        have member : name ∈ definition.name?.toList ++ namesOf definitions := by simp [given]
        exact ⟨(proper name member).unreserved, unused name member⟩
      obtain ⟨between, stored, settlesNow, count⟩ := defines.stores settles fits
      have stillUnused : ∀ name ∈ namesOf definitions,
          (symbols.insert (definition.symbol draft.anonymous).name
            (definition.symbol draft.anonymous)).get? name = none := by
        intro name member
        have different : name ≠ (definition.symbol draft.anonymous).name := by
          rintro rfl
          rcases definition.name_symbol draft.anonymous with ⟨given, _⟩ | ⟨_, isNumber, _⟩
          · rw [given] at distinct
            exact (List.nodup_cons.1 distinct).1 member
          · exact (proper _ (List.mem_append_right _ member)).ne_toString _ isNumber
        rw [Table.get?_insert, if_neg different]
        exact unused name (List.mem_append_right _ member)
      obtain ⟨after, goesOn, settled⟩ := inductionHypothesis settlesNow named.tail stillUnused
      refine ⟨after, applyAll_append_eq_ok_iff.2 ⟨between, stored, goesOn⟩, ?_⟩
      rw [count] at settled
      exact settled

end Draft

/-- The text is read without a fault, and its edits are rows, one for each definition. -/
structure Spells (source : String) (definitions : List Definition) : Prop where
  noFault : (Reading.ofText source.toList).fault = none
  rows : DefinesAll (Reading.ofText source.toList).edits definitions

theorem exists_spells {source : String} {schema : Schema}
    (compiled : compile source = .ok schema) : ∃ definitions, Spells source definitions := by
  obtain ⟨noFault, draft, applied, finished⟩ := Reading.schema_eq_ok compiled
  have sealed : draft.commit.refusal = none := by
    cases refused : draft.commit.refusal with
    | none => rfl
    | some refusal =>
        rw [Draft.finish, refused] at finished
        cases finished
  obtain ⟨definitions, rows⟩ := Draft.exists_definitions rfl applied sealed
  exact ⟨definitions, noFault, rows⟩

namespace Spells

variable {source : String} {definitions : List Definition}

theorem namesOf_eq (spells : Spells source definitions) :
    givenNames (Reading.ofText source.toList).edits = namesOf definitions :=
  spells.rows.givenNames_eq

/-- The reader takes proper names only, and takes no name twice. -/
theorem distinctlyNamed (spells : Spells source definitions) : DistinctlyNamed definitions where
  proper := by
    intro name member
    rw [← spells.namesOf_eq] at member
    obtain ⟨edit, isEdit, named⟩ := List.mem_filterMap.1 member
    exact (phrased_of_reading spells.noFault).namedProperly edit isEdit name named
  distinct := by
    rw [← spells.namesOf_eq]
    exact (reads_of_reading spells.noFault).fresh.1

/-- A text that spells definitions out compiles exactly if no charset leads back to itself, and then
to their symbols. -/
theorem compile_eq_ok_iff (spells : Spells source definitions) {schema : Schema} :
    compile source = .ok schema ↔ CharsetsAcyclic schema.symbols ∧
      schema = ⟨Table.storing ∅ (symbolsFrom 0 definitions)⟩ := by
  have settles : ({} : Draft).Settles ∅ := rfl
  obtain ⟨draft, applied, settled⟩ :=
    settles.definesAll spells.rows spells.distinctlyNamed fun _ _ => rfl
  constructor
  · intro compiled
    obtain ⟨_, last, appliedAgain, finished⟩ := Reading.schema_eq_ok compiled
    obtain rfl : draft = last := Except.ok.inj (applied.symm.trans appliedAgain)
    obtain ⟨rfl, acyclic, _⟩ := Draft.finish_eq_ok finished
    refine ⟨acyclic, ?_⟩
    rw [Draft.Settles] at settled
    rw [settled]
    rfl
  · rintro ⟨acyclic, rfl⟩
    rw [compile, Reading.schema]
    simp only [applied, spells.noFault, settled.finish acyclic]

end Spells

end PlainPattern
