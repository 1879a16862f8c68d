import Mathlib.Data.List.Nodup
import PlainPattern.Proofs.Assembly
import PlainPattern.Proofs.LayoutReading

/-!
Contract: what two texts say one behind the other is what each of them says.

Owns: two schemas as one (`Schema.joined`), in which the patterns without a name of the second are
numbered behind those of the first, and what that is in terms of definitions (`Spells.joined_eq`);
how a text is read behind another one (`ofText_behind`), and what follows from it for the
definitions of both (`Spells.append`, `Spells.apart`). What a text leaves open when it ends, be it a
charset or a comment, is closed by the newline behind it, so nothing of it reaches the next text but
the names that it has declared.
-/

set_option autoImplicit false

namespace PlainPattern

open Lexeme Reading

/-! ## Two schemas as one -/

/-- The name of a pattern without a name, with so many more before it. Other names stay. -/
def raisedName (more : Nat) (name : String) : String :=
  if Printer.isNumbered name then toString (decimalValue name.toList + more) else name

def Symbol.raised (more : Nat) : Symbol → Symbol
  | .pattern found => .pattern { found with name := raisedName more found.name }
  | .charset found => .charset found

namespace Schema

/-- How many patterns have no name. -/
def unnamedCount (schema : Schema) : Nat :=
  schema.names.countP Printer.isNumbered

def properNames (schema : Schema) : List String :=
  schema.names.filter fun name => !Printer.isNumbered name

/-- Both schemas, with the patterns without a name of the second one behind those of the first. -/
def joined (first second : Schema) : Schema :=
  ⟨second.symbols.entries.foldl (fun symbols entry =>
    symbols.insert (raisedName first.unnamedCount entry.1) (entry.2.raised first.unnamedCount))
    first.symbols⟩

end Schema

section Numbers

variable {next more : Nat} {definition : Definition} {definitions other : List Definition}

theorem raisedName_toString (number : Nat) :
    raisedName more (toString number) = toString (number + more) := by
  rw [raisedName, if_pos (Printer.isNumbered_toString number), decimalValue_toString]

theorem ProperName.raisedName_eq {name : String} (proper : ProperName name) :
    raisedName more name = name := by
  rw [raisedName, proper.isNumbered_eq_false]
  rfl

/-- A definition takes any number alike. -/
theorem Definition.symbol_add (definition : Definition) (next more : Nat)
    (proper : ∀ name, definition.name? = some name → ProperName name) :
    definition.symbol (next + more) = (definition.symbol next).raised more ∧
      ((definition.symbol next).raised more).name =
        raisedName more (definition.symbol next).name := by
  cases definition with
  | charset found => exact ⟨rfl, ((proper found.name rfl).raisedName_eq).symm⟩
  | pattern name children =>
      refine ⟨?_, rfl⟩
      cases name with
      | none =>
          show Symbol.pattern ⟨toString (next + more), children⟩ =
            .pattern ⟨raisedName more (toString next), children⟩
          rw [raisedName_toString]
      | some name => simp [symbol, Symbol.raised, (proper name rfl).raisedName_eq]

theorem DistinctlyNamed.symbolsFrom_add (named : DistinctlyNamed definitions) (next more : Nat) :
    symbolsFrom (next + more) definitions =
        (symbolsFrom next definitions).map (Symbol.raised more) ∧
      ∀ symbol ∈ symbolsFrom next definitions,
        (symbol.raised more).name = raisedName more symbol.name := by
  induction definitions generalizing next with
  | nil => exact ⟨rfl, by simp [symbolsFrom]⟩
  | cons definition rest inductionHypothesis =>
      have proper : ∀ name, definition.name? = some name → ProperName name := by
        intro name given
        exact named.proper name (mem_namesOf.2 ⟨definition, List.mem_cons_self, given⟩)
      obtain ⟨first, firstName⟩ := definition.symbol_add next more proper
      obtain ⟨others, otherNames⟩ := inductionHypothesis named.tail (next + definition.numbers)
      refine ⟨?_, List.forall_mem_cons.2 ⟨firstName, otherNames⟩⟩
      rw [Nat.add_right_comm] at others
      rw [symbolsFrom, first, others]
      rfl

/-- Names that are numbers are those of the patterns without a name. -/
theorem DistinctlyNamed.countP_names (named : DistinctlyNamed definitions) (next : Nat) :
    ((symbolsFrom next definitions).map Symbol.name).countP Printer.isNumbered =
      numbersOf definitions := by
  induction definitions generalizing next with
  | nil => rfl
  | cons definition rest inductionHypothesis =>
      have others := inductionHypothesis named.tail (next + definition.numbers)
      rw [symbolsFrom, List.map_cons, List.countP_cons, others, numbersOf_cons]
      rcases definition.name_symbol next with ⟨given, none⟩ | ⟨_, isNumber, one⟩
      · have proper := named.proper _ (mem_namesOf.2 ⟨definition, List.mem_cons_self, given⟩)
        simp [proper.isNumbered_eq_false, none]
      · rw [isNumber, one, Printer.isNumbered_toString, Nat.add_comm]
        rfl

theorem exists_symbol_of_mem_namesOf {name : String} (member : name ∈ namesOf definitions)
    (next : Nat) : ∃ symbol ∈ symbolsFrom next definitions, symbol.name = name := by
  induction definitions generalizing next with
  | nil => cases member
  | cons definition rest inductionHypothesis =>
      rw [namesOf_cons] at member
      rcases List.mem_append.1 member with isFirst | inRest
      · have given := Option.mem_toList.1 isFirst
        rcases definition.name_symbol next with ⟨named, _⟩ | ⟨unnamed, _⟩
        · exact ⟨_, List.mem_cons_self, Option.some.inj (named.symm.trans given)⟩
        · rw [unnamed] at given
          cases given
      · obtain ⟨symbol, inSymbols, named⟩ := inductionHypothesis inRest (next + definition.numbers)
        exact ⟨symbol, List.mem_cons_of_mem _ inSymbols, named⟩

theorem DistinctlyNamed.mem_namesOf_iff (named : DistinctlyNamed definitions) {name : String} :
    name ∈ namesOf definitions ↔
      name ∈ (symbolsFrom next definitions).map Symbol.name ∧ Printer.isNumbered name = false := by
  constructor
  · intro member
    obtain ⟨symbol, inSymbols, rfl⟩ := exists_symbol_of_mem_namesOf member next
    exact ⟨List.mem_map_of_mem inSymbols, (named.proper _ member).isNumbered_eq_false⟩
  · rintro ⟨member, notNumbered⟩
    obtain ⟨symbol, inSymbols, rfl⟩ := List.mem_map.1 member
    refine (name_of_mem_symbolsFrom inSymbols).resolve_right ?_
    rintro ⟨number, _, isNumber⟩
    rw [isNumber, Printer.isNumbered_toString] at notNumbered
    cases notNumbered

end Numbers

/-! ### What a text says of its schema -/

namespace Spells

variable {source other : String} {definitions more : List Definition} {schema further : Schema}

theorem get?_eq_some_iff (spells : Spells source definitions)
    (compiled : compile source = .ok schema) {name : String} {symbol : Symbol} :
    schema.get? name = some symbol ↔ symbol ∈ symbolsFrom 0 definitions ∧ symbol.name = name := by
  obtain ⟨_, rfl⟩ := spells.compile_eq_ok_iff.1 compiled
  rw [Schema.get?, Table.get?_storing_eq_some_iff (spells.distinctlyNamed.nodup_names 0)]
  simp

/-- The symbols of the schema are those of the definitions, in another order. -/
theorem symbols_perm (spells : Spells source definitions) (compiled : compile source = .ok schema) :
    (schema.symbols.entries.map Prod.snd).Perm (symbolsFrom 0 definitions) ∧
      schema.names.Perm ((symbolsFrom 0 definitions).map Symbol.name) := by
  have found {name : String} {symbol : Symbol} : (name, symbol) ∈ schema.symbols.entries ↔
      symbol ∈ symbolsFrom 0 definitions ∧ symbol.name = name :=
    (Table.mem_entries_iff _ _ _).trans (spells.get?_eq_some_iff compiled)
  have sameNames : schema.names = (schema.symbols.entries.map Prod.snd).map Symbol.name := by
    rw [Schema.names, Table.names, List.map_map]
    exact List.map_congr_left fun entry member => ((found.1 member).2).symm
  have distinct : ((schema.symbols.entries.map Prod.snd).map Symbol.name).Nodup :=
    sameNames ▸ schema.symbols.nodup_names
  have same : (schema.symbols.entries.map Prod.snd).Perm (symbolsFrom 0 definitions) := by
    have distinctAlso := spells.distinctlyNamed.nodup_names 0
    refine (List.perm_ext_iff_of_nodup (List.Nodup.of_map _ distinct)
      (List.Nodup.of_map _ distinctAlso)).2 fun symbol => ?_
    rw [List.mem_map]
    constructor
    · rintro ⟨⟨name, _⟩, member, rfl⟩
      exact (found.1 member).1
    · intro member
      exact ⟨(symbol.name, symbol), found.2 ⟨member, rfl⟩, rfl⟩
  exact ⟨same, sameNames ▸ same.map Symbol.name⟩

theorem unnamedCount_eq (spells : Spells source definitions)
    (compiled : compile source = .ok schema) : schema.unnamedCount = numbersOf definitions := by
  rw [Schema.unnamedCount, (spells.symbols_perm compiled).2.countP_eq,
    spells.distinctlyNamed.countP_names]

theorem mem_properNames_iff (spells : Spells source definitions)
    (compiled : compile source = .ok schema) {name : String} :
    name ∈ schema.properNames ↔ name ∈ namesOf definitions := by
  rw [spells.distinctlyNamed.mem_namesOf_iff, Schema.properNames, List.mem_filter,
    (spells.symbols_perm compiled).2.mem_iff, Bool.not_eq_true']

/-- The schemas of two texts as one are made of all their definitions, one behind the other. -/
theorem joined_eq (spells : Spells source definitions) (compiled : compile source = .ok schema)
    (spellsMore : Spells other more) (compiledMore : compile other = .ok further) :
    schema.joined further = ⟨Table.storing ∅ (symbolsFrom 0 (definitions ++ more))⟩ := by
  have named := spellsMore.distinctlyNamed
  obtain ⟨raised, raisedNames⟩ := named.symbolsFrom_add 0 schema.unnamedCount
  have permuted := (spellsMore.symbols_perm compiledMore).1.map (Symbol.raised schema.unnamedCount)
  rw [← raised, Nat.zero_add] at permuted
  have distinct : (symbolsFrom schema.unnamedCount more |>.map Symbol.name).Nodup :=
    named.nodup_names _
  have stored : schema.joined further = ⟨schema.symbols.storing
      ((further.symbols.entries.map Prod.snd).map (Symbol.raised schema.unnamedCount))⟩ := by
    rw [Schema.joined, Table.storing, List.foldl_map, List.foldl_map]
    congr 1
    refine List.foldl_ext _ _ _ fun symbols entry member => ?_
    have stored := (spellsMore.get?_eq_some_iff compiledMore).1
      ((Table.mem_entries_iff _ entry.1 entry.2).1 member)
    rw [raisedNames entry.2 stored.1, stored.2]
  rw [stored, Table.storing_perm permuted ((permuted.map Symbol.name).nodup_iff.2 distinct),
    spells.unnamedCount_eq compiled]
  obtain ⟨_, rfl⟩ := spells.compile_eq_ok_iff.1 compiled
  rw [symbolsFrom_append, Nat.zero_add, Table.storing, Table.storing, Table.storing,
    List.foldl_append]

end Spells

/-! ## Texts one behind the other -/

/-- Behind a text and a newline the reader stands where it began, but knows the names before. -/
theorem ofText_behind {source : List Char} (noFault : (ofText source).fault = none)
    (more : List Char) :
    ofText (source ++ '\n' :: more) =
      (onward (givenNames (ofText source).edits).reverse (.top none) more).behind
        (ofText source).edits := by
  have ends := endsLine_newline more
  have relaid : Relaid ('\n' :: more) source (source ++ '\n' :: more) := by
    simpa using Relaid.append (.finish .nothing) source
  have read := (reads_of_reading noFault).relaid ends (relaid.opens ends)
  rwa [List.append_nil, onward_top_newline] at read

theorem toList_behind (source more : String) :
    (source ++ "\n" ++ more).toList = source.toList ++ '\n' :: more.toList := by
  simp

namespace Spells

variable {source other : String} {definitions more : List Definition}

theorem append (spells : Spells source definitions) (spellsMore : Spells other more)
    (apart : List.Disjoint (namesOf definitions) (namesOf more)) :
    Spells (source ++ "\n" ++ other) (definitions ++ more) := by
  have unused : ∀ name ∈ givenNames (ofText other.toList).edits,
      name ∉ (givenNames (ofText source.toList).edits).reverse := by
    intro name member before
    rw [List.mem_reverse, spells.namesOf_eq] at before
    rw [spellsMore.namesOf_eq] at member
    exact apart before member
  have read : ofText (source ++ "\n" ++ other).toList =
      (ofText other.toList).behind (ofText source.toList).edits := by
    rw [toList_behind, ofText_behind spells.noFault, onward_among spellsMore.noFault unused]
  refine ⟨?_, ?_⟩
  · rw [read]
    exact spellsMore.noFault
  · rw [read]
    exact spells.rows.append spellsMore.rows

/-- Where two texts can be read one behind the other, so can the second alone, and no name is given
in both. -/
theorem apart (spells : Spells source definitions)
    (noFault : (ofText (source ++ "\n" ++ other).toList).fault = none) :
    (ofText other.toList).fault = none ∧
      List.Disjoint (namesOf definitions) (givenNames (ofText other.toList).edits) := by
  rw [toList_behind, ofText_behind spells.noFault] at noFault
  obtain ⟨alone, unused⟩ := apart_of_onward noFault
  refine ⟨alone, fun name before member => unused name member ?_⟩
  rw [List.mem_reverse, spells.namesOf_eq]
  exact before

/-- Where no name is given in both, a symbol of the joined schema is one of the first, or one of the
second with its number raised. -/
theorem get?_joined_eq_some_iff (spells : Spells source definitions) {schema further : Schema}
    (compiled : compile source = .ok schema) (spellsMore : Spells other more)
    (compiledMore : compile other = .ok further)
    (apart : List.Disjoint (namesOf definitions) (namesOf more)) {name : String} {symbol : Symbol} :
    (schema.joined further).get? name = some symbol ↔ schema.get? name = some symbol ∨
      ∃ old original, further.get? old = some original ∧
        name = raisedName schema.unnamedCount old ∧
        symbol = original.raised schema.unnamedCount := by
  have distinct := (spells.append spellsMore apart).distinctlyNamed.nodup_names 0
  obtain ⟨raised, raisedNames⟩ :=
    spellsMore.distinctlyNamed.symbolsFrom_add 0 (numbersOf definitions)
  rw [spells.joined_eq compiled spellsMore compiledMore, Schema.get?,
    Table.get?_storing_eq_some_iff distinct, Table.get?_empty, symbolsFrom_append,
    List.mem_append, or_and_right, ← spells.get?_eq_some_iff compiled, raised,
    spells.unnamedCount_eq compiled]
  simp only [reduceCtorEq, and_false, or_false]
  refine or_congr_right ?_
  constructor
  · rintro ⟨member, rfl⟩
    obtain ⟨original, isOriginal, rfl⟩ := List.mem_map.1 member
    refine ⟨original.name, original, ?_, raisedNames original isOriginal, rfl⟩
    exact (spellsMore.get?_eq_some_iff compiledMore).2 ⟨isOriginal, rfl⟩
  · rintro ⟨old, original, found, rfl, rfl⟩
    obtain ⟨isOriginal, rfl⟩ := (spellsMore.get?_eq_some_iff compiledMore).1 found
    exact ⟨List.mem_map_of_mem isOriginal, raisedNames original isOriginal⟩

end Spells

end PlainPattern
