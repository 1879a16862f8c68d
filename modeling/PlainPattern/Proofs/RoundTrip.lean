import PlainPattern.Proofs.CompiledTrees
import PlainPattern.Proofs.PrintedSymbols

/-!
Contract: a schema that can be written down compiles from its own text.

Owns: the order in which symbols are printed (`InOrder`), by which every pattern without a name is
given the number that it has already; the run of the edits of all symbols, which fills an empty
table with the symbols of the schema (`Draft.Settles.storing`); and the main result
`printed_schema_compiles`.
-/

set_option autoImplicit false

namespace PlainPattern

/-! ## Symbols one after another -/

/-- The patterns without a name are numbered from `next` on, and all other names are proper. -/
inductive InOrder : Nat → List Symbol → Prop
  | nil {next : Nat} : InOrder next []
  | numbered {next : Nat} {found : Pattern} {rest : List Symbol} :
      found.name = toString next → InOrder (next + 1) rest →
      InOrder next (.pattern found :: rest)
  | named {next : Nat} {symbol : Symbol} {rest : List Symbol} :
      ProperName symbol.name → InOrder next rest → InOrder next (symbol :: rest)

theorem InOrder.wellNamed {next : Nat} {symbols : List Symbol} (inOrder : InOrder next symbols) :
    ∀ symbol ∈ symbols, symbol.WellNamed := by
  induction inOrder with
  | nil => simp
  | numbered isNumber _ inductionHypothesis =>
      exact List.forall_mem_cons.2 ⟨.inr ⟨_, _, rfl, isNumber⟩, inductionHypothesis⟩
  | named proper _ inductionHypothesis =>
      exact List.forall_mem_cons.2 ⟨.inl proper, inductionHypothesis⟩

theorem inOrder_of_proper {next : Nat} {symbols : List Symbol}
    (proper : ∀ symbol ∈ symbols, ProperName symbol.name) : InOrder next symbols := by
  induction symbols with
  | nil => exact .nil
  | cons symbol rest inductionHypothesis =>
      obtain ⟨first, others⟩ := List.forall_mem_cons.1 proper
      exact .named first (inductionHypothesis others)

/-- Further symbols that a table can take under their names. -/
structure Table.Takes (symbols : Table Symbol) (more : List Symbol) : Prop where
  obey : ∀ symbol ∈ more, symbol.Obeys .printable
  distinct : (more.map Symbol.name).Nodup
  unused : ∀ symbol ∈ more, symbols.get? symbol.name = none
  noLoop : ∀ charset, Symbol.charset charset ∈ more → .symbol charset.name ∉ charset.criteria

/-- The table with further symbols under their names. -/
def Table.storing (symbols : Table Symbol) (more : List Symbol) : Table Symbol :=
  more.foldl (fun table symbol => table.insert symbol.name symbol) symbols

namespace Table

variable {symbols : Table Symbol} {symbol : Symbol} {more rest : List Symbol}

theorem Takes.tail (takes : symbols.Takes (symbol :: rest)) :
    (symbols.insert symbol.name symbol).Takes rest where
  obey := fun other member => takes.obey other (List.mem_cons_of_mem _ member)
  distinct := (List.nodup_cons.1 takes.distinct).2
  unused := by
    intro other member
    have different : other.name ≠ symbol.name := fun same =>
      (List.nodup_cons.1 takes.distinct).1 (same ▸ List.mem_map_of_mem member)
    rw [Table.get?_insert, if_neg different]
    exact takes.unused other (List.mem_cons_of_mem _ member)
  noLoop := fun charset member => takes.noLoop charset (List.mem_cons_of_mem _ member)

/-- Symbols of one schema, stored under their names, are found as in that schema. -/
theorem get?_storing {schema : Schema}
    (same : ∀ symbol ∈ more, schema.get? symbol.name = some symbol) (name : String) :
    (symbols.storing more).get? name =
      if name ∈ more.map Symbol.name then schema.get? name else symbols.get? name := by
  induction more generalizing symbols with
  | nil => rfl
  | cons symbol rest inductionHypothesis =>
      obtain ⟨first, others⟩ := List.forall_mem_cons.1 same
      change ((symbols.insert symbol.name symbol).storing rest).get? name = _
      rw [inductionHypothesis others, Table.get?_insert, List.map_cons]
      by_cases isFirst : name = symbol.name
      · simp [isFirst, first]
      · simp [isFirst]

end Table

namespace Draft

variable {draft : Draft} {symbols : Table Symbol}

/-- What is said of a symbol with a proper name stores it, when the draft is committed at the
latest. -/
theorem Settles.proper (settles : draft.Settles symbols) {symbol : Symbol} {rest : List Symbol}
    (takes : symbols.Takes (symbol :: rest)) (proper : ProperName symbol.name) :
    ∃ after, draft.applyAll (symbol.phrases.flatMap Phrase.edits) = .ok after ∧
      after.Settles (symbols.insert symbol.name symbol) ∧ after.anonymous = draft.anonymous := by
  have obeys := takes.obey symbol List.mem_cons_self
  have unused := takes.unused symbol List.mem_cons_self
  cases symbol with
  | pattern found => exact ⟨_, settles.named obeys proper unused, rfl, rfl⟩
  | charset found =>
      have noLoop := takes.noLoop found List.mem_cons_self
      exact ⟨_, settles.charset proper unused noLoop, settles_charset obeys.1, rfl⟩

/-- The induction follows the order of the symbols: the number that the draft gives next is the one
that the next pattern without a name has. -/
theorem Settles.storing {next : Nat} {more : List Symbol} (inOrder : InOrder next more)
    (settles : draft.Settles symbols) (isNext : draft.anonymous = next)
    (takes : symbols.Takes more) :
    ∃ after, draft.applyAll ((more.flatMap Symbol.phrases).flatMap Phrase.edits) = .ok after ∧
      after.Settles (symbols.storing more) := by
  induction inOrder generalizing draft symbols with
  | nil => exact ⟨draft, rfl, settles⟩
  | @numbered next found rest isNumber _ inductionHypothesis =>
      have stored := settles.numbered (takes.obey _ List.mem_cons_self)
        (by rw [isNumber, isNext] : found.name = toString draft.anonymous)
      have settlesNow : Draft.Settles
          ⟨symbols.insert found.name (.pattern found), draft.anonymous + 1, .idle⟩
          (symbols.insert found.name (.pattern found)) := rfl
      obtain ⟨after, goesOn, settled⟩ :=
        inductionHypothesis settlesNow (congrArg Nat.succ isNext) takes.tail
      refine ⟨after, ?_, settled⟩
      rw [List.flatMap_cons, List.flatMap_append, applyAll_append_eq_ok_iff]
      exact ⟨_, stored, goesOn⟩
  | named proper _ inductionHypothesis =>
      obtain ⟨between, stored, settlesNow, sameNext⟩ := settles.proper takes proper
      obtain ⟨after, goesOn, settled⟩ :=
        inductionHypothesis settlesNow (sameNext.trans isNext) takes.tail
      refine ⟨after, ?_, settled⟩
      rw [List.flatMap_cons, List.flatMap_append, applyAll_append_eq_ok_iff]
      exact ⟨between, stored, goesOn⟩

theorem Settles.finish (settles : draft.Settles symbols) (acyclic : CharsetsAcyclic symbols) :
    draft.finish = .ok ⟨symbols⟩ := by
  rw [Settles] at settles
  rw [Draft.finish, settles]
  simp only [Revision.accepted, findCharsetCycle?_eq_none_iff.2 acyclic]

end Draft

/-! ## The order of a schema -/

namespace Schema.Printable

variable {schema : Schema} {unnamed : Nat} {name : String}

theorem exists_symbol (printable : schema.Printable unnamed) (member : name ∈ schema.names) :
    ∃ symbol, schema.get? name = some symbol ∧ symbol.name = name := by
  obtain ⟨symbol, found⟩ := Option.isSome_iff_exists.1 ((Table.mem_names_iff _ name).1 member)
  exact ⟨symbol, found, printable.named name symbol found⟩

theorem isNumbered_iff (printable : schema.Printable unnamed) (member : name ∈ schema.names) :
    Printer.isNumbered name = true ↔ ∃ number < unnamed, toString number = name := by
  constructor
  · intro isNumber
    obtain ⟨symbol, found, _⟩ := printable.exists_symbol member
    rcases printable.keys name symbol found with proper | ⟨number, less, isName⟩
    · rw [proper.isNumbered_eq_false] at isNumber
      cases isNumber
    · exact ⟨number, less, isName.symm⟩
  · rintro ⟨number, _, rfl⟩
    exact Printer.isNumbered_toString number

/-- The numbers among the names, as numbers, in another order. -/
theorem numbers_perm (printable : schema.Printable unnamed) :
    ((List.range unnamed).map toString).Perm (schema.names.filter Printer.isNumbered) := by
  have distinct : ((List.range unnamed).map (toString : Nat → String)).Nodup :=
    List.pairwise_map.2 (List.nodup_range.imp fun different same => different (toString_inj same))
  have distinctNames := schema.symbols.nodup_names.filter Printer.isNumbered
  refine (List.perm_ext_iff_of_nodup distinct distinctNames).2 fun name => ?_
  simp only [List.mem_map, List.mem_range, List.mem_filter]
  constructor
  · rintro ⟨number, less, rfl⟩
    obtain ⟨found, isStored⟩ := printable.numbered number less
    exact ⟨Table.mem_names_of_get? isStored, Printer.isNumbered_toString number⟩
  · rintro ⟨member, isNumber⟩
    exact (printable.isNumbered_iff member).1 isNumber

theorem printedNames_eq (printable : schema.Printable unnamed) :
    schema.printedNames = (List.range unnamed).map toString ++
      schema.names.filter fun name => !Printer.isNumbered name := by
  have count : schema.names.countP Printer.isNumbered = unnamed := by
    rw [List.countP_eq_length_filter, ← printable.numbers_perm.length_eq, List.length_map,
      List.length_range]
  rw [printedNames, count]

theorem printedNames_perm (printable : schema.Printable unnamed) :
    schema.printedNames.Perm schema.names := by
  rw [printable.printedNames_eq]
  exact (printable.numbers_perm.append_right _).trans (List.filter_append_perm _ _)

theorem get?_of_mem_printedSymbols (printable : schema.Printable unnamed) {symbol : Symbol}
    (member : symbol ∈ schema.printedSymbols) : schema.get? symbol.name = some symbol := by
  obtain ⟨name, _, found⟩ := List.mem_filterMap.1 member
  rw [printable.named name symbol found]
  exact found

theorem map_name_printedSymbols (printable : schema.Printable unnamed) :
    schema.printedSymbols.map Symbol.name = schema.printedNames := by
  rw [printedSymbols, List.map_filterMap]
  have each : ∀ name ∈ schema.printedNames, (schema.get? name).map Symbol.name = some name := by
    intro name member
    obtain ⟨symbol, found, same⟩ :=
      printable.exists_symbol (printable.printedNames_perm.mem_iff.1 member)
    rw [found, Option.map_some, same]
  rw [List.filterMap_congr each, List.filterMap_some]

/-- The induction is on the number of patterns that still have no name. -/
theorem inOrder_numbers (printable : schema.Printable unnamed) {rest : List Symbol} (count : Nat)
    {next : Nat} (isLast : next + count = unnamed) (goesOn : InOrder unnamed rest) :
    InOrder next (((List.range' next count).map toString).filterMap schema.get? ++ rest) := by
  induction count generalizing next with
  | zero =>
      cases isLast
      exact goesOn
  | succ count inductionHypothesis =>
      obtain ⟨found, isStored⟩ := printable.numbered next (by omega)
      have isNumber : found.name = toString next := printable.named _ _ isStored
      rw [List.range'_succ, List.map_cons, List.filterMap_cons_some isStored, List.cons_append]
      exact .numbered isNumber (inductionHypothesis (by omega))

theorem inOrder_printedSymbols (printable : schema.Printable unnamed) :
    InOrder 0 schema.printedSymbols := by
  rw [printedSymbols, printable.printedNames_eq, List.filterMap_append, List.range_eq_range']
  refine printable.inOrder_numbers unnamed (Nat.zero_add unnamed) ?_
  have proper : ∀ symbol ∈ (schema.names.filter fun name => !Printer.isNumbered name).filterMap
      schema.get?, ProperName symbol.name := by
    intro symbol member
    obtain ⟨name, isName, found⟩ := List.mem_filterMap.1 member
    obtain ⟨_, notNumbered⟩ := List.mem_filter.1 isName
    rw [printable.named name symbol found]
    refine (printable.keys name symbol found).resolve_right ?_
    rintro ⟨number, _, rfl⟩
    rw [Printer.isNumbered_toString] at notNumbered
    cases notNumbered
  exact inOrder_of_proper proper

theorem takes_printedSymbols (printable : schema.Printable unnamed) :
    Table.Takes ∅ schema.printedSymbols where
  obey := fun symbol member =>
    printable.obeys _ symbol (printable.get?_of_mem_printedSymbols member)
  distinct := by
    rw [printable.map_name_printedSymbols]
    exact printable.printedNames_perm.nodup_iff.2 schema.symbols.nodup_names
  unused := fun _ _ => rfl
  noLoop := by
    intro charset member namesItself
    have found := printable.get?_of_mem_printedSymbols member
    exact printable.acyclic charset.name (.single ⟨charset, charset, found, namesItself, found⟩)

/-- The symbols of a schema make up its table. -/
theorem storing_printedSymbols (printable : schema.Printable unnamed) :
    Table.storing ∅ schema.printedSymbols = schema.symbols := by
  refine Table.ext_get? fun name => ?_
  rw [Table.get?_storing fun symbol member => printable.get?_of_mem_printedSymbols member,
    printable.map_name_printedSymbols]
  split
  · rfl
  · rename_i notPrinted
    cases found : schema.symbols.get? name with
    | none => rfl
    | some symbol =>
        have member : name ∈ schema.names := Table.mem_names_of_get? found
        exact absurd (printable.printedNames_perm.mem_iff.2 member) notPrinted

theorem read_printed (printable : schema.Printable unnamed) :
    Reading.ofText schema.printed.toList =
      ⟨(schema.printedSymbols.flatMap Symbol.phrases).flatMap Phrase.edits, none⟩ := by
  have takes := printable.takes_printedSymbols
  rw [printed, String.toList_ofList, Reading.ofText]
  exact Reading.read_symbols takes.obey printable.inOrder_printedSymbols.wellNamed takes.distinct
    (by simp)

end Schema.Printable

/-- A schema that can be written down is what its own text compiles to. -/
theorem printed_schema_compiles {schema : Schema} {unnamed : Nat}
    (printable : schema.Printable unnamed) : compile schema.printed = .ok schema := by
  have settles : ({} : Draft).Settles ∅ := rfl
  obtain ⟨draft, applied, settled⟩ :=
    settles.storing printable.inOrder_printedSymbols rfl printable.takes_printedSymbols
  rw [printable.storing_printedSymbols] at settled
  have finished : draft.finish = .ok schema := settled.finish printable.acyclic
  rw [compile, printable.read_printed, Reading.schema]
  simp only [applied, finished]

/-- A text with escapes, a range from high to low, a separator that is a block, and a charset. -/
def looseSource : String :=
  "||\nany \\u0020 to |, (a\\nb\\() as x times 3\nafter not \x7b\n start\nor pair\n\x7d\n||\n" ++
    "@pair\nz to a"

/-- The loose text as the schema that it compiles to is printed. -/
def tidySource : String :=
  "||\nany \\u0020 to \\u007c, (a\\nb\\() as x\ntimes 3 to 3\nafter not \x7b\n" ++
    "start\nor pair\n\x7d\n||\n@pair\na to z\n"

/-- The loose text and the tidy one compile to the same schema. -/
theorem loose_and_tidy_sources_compile_alike :
    ∃ schema, compile looseSource = .ok schema ∧ schema.Printable 1 ∧
      schema.printed = tidySource ∧ compile tidySource = .ok schema := by
  have printed : (compile looseSource).toOption.map Schema.printed = some tidySource := by
    decide +kernel
  have count : (unnamedRows (Reading.ofText looseSource.toList).edits).length = 1 := by
    decide +kernel
  cases compiled : compile looseSource with
  | error error =>
      rw [compiled] at printed
      cases printed
  | ok schema =>
      rw [compiled] at printed
      have isTidy : schema.printed = tidySource := Option.some.inj printed
      obtain ⟨noFault, draft, applied, finished⟩ := Reading.schema_eq_ok compiled
      have printable : schema.Printable 1 :=
        count ▸ (printable_of_phrased (phrased_of_reading noFault) applied finished).1
      exact ⟨schema, rfl, printable, isTidy, isTidy ▸ printed_schema_compiles printable⟩

end PlainPattern
