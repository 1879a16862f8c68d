import PlainPattern.Proofs.CompiledTrees
import PlainPattern.Proofs.DeclaredNames
import PlainPattern.Proofs.Rebuilding

/-!
Contract: edits that build a schema come in rows, one for each of its symbols.

Owns: definitions, which are symbols that have not been numbered yet; what it is for a row of edits
to define one, in whatever draft it is applied (`Defines`); and the main result
`exists_definitions`: edits that are accepted from the first to the last, and leave a draft that can
be committed, are such rows and nothing else.
-/

set_option autoImplicit false

namespace PlainPattern

/-- What is said of one symbol. A pattern may have no name. -/
inductive Definition where
  | pattern (name : Option String) (children : List Node)
  | charset (charset : Charset)

namespace Definition

def name? : Definition → Option String
  | .pattern name _ => name
  | .charset found => some found.name

/-- The symbol that is defined. This number is its name if it has none. -/
def symbol (number : Nat) : Definition → Symbol
  | .pattern name children => .pattern ⟨name.getD (toString number), children⟩
  | .charset found => .charset found

/-- The definition has no name, so it takes a number. -/
def isUnnamed (definition : Definition) : Bool :=
  definition.name?.isNone

/-- How many numbers the definition takes. -/
def numbers (definition : Definition) : Nat :=
  if definition.isUnnamed then 1 else 0

/-- The name may be given to a symbol behind these ones. A pattern without a name always may be. -/
def Fits (definition : Definition) (symbols : Table Symbol) : Prop :=
  ∀ name, definition.name? = some name →
    Keyword.reserved name = false ∧ symbols.get? name = none

end Definition

/-- Edits that store one symbol behind all others, and give no name but that of the symbol. -/
structure Defines (edits : List Edit) (definition : Definition) : Prop where
  names : givenNames edits = definition.name?.toList
  stores : ∀ {draft : Draft} {symbols : Table Symbol}, draft.Settles symbols →
    definition.Fits symbols → ∃ after, draft.applyAll edits = .ok after ∧
      after.Settles (symbols.insert (definition.symbol draft.anonymous).name
        (definition.symbol draft.anonymous)) ∧
      after.anonymous = draft.anonymous + definition.numbers

/-- Rows of edits, one for each definition. -/
inductive DefinesAll : List Edit → List Definition → Prop where
  | nil : DefinesAll [] []
  | cons {row rest : List Edit} {definition : Definition} {definitions : List Definition} :
      Defines row definition → DefinesAll rest definitions →
      DefinesAll (row ++ rest) (definition :: definitions)

theorem DefinesAll.append {first second : List Edit} {earlier later : List Definition}
    (defines : DefinesAll first earlier) (definesLater : DefinesAll second later) :
    DefinesAll (first ++ second) (earlier ++ later) := by
  induction defines with
  | nil => exact definesLater
  | cons row _ inductionHypothesis =>
      rw [List.append_assoc]
      exact .cons row inductionHypothesis

theorem DefinesAll.givenNames_eq {edits : List Edit} {definitions : List Definition}
    (defines : DefinesAll edits definitions) :
    givenNames edits = definitions.filterMap Definition.name? := by
  induction defines with
  | nil => rfl
  | @cons row rest definition definitions defines _ inductionHypothesis =>
      rw [givenNames_append, defines.names, inductionHypothesis]
      cases named : definition.name? <;> simp [named]

namespace Draft

section Rows

variable {draft after : Draft} {pattern : OpenPattern} {edit : Edit} {edits : List Edit}

/-! ## Patterns -/

/-- Inside a pattern no edit gives a name. -/
theorem name?_of_open (isOpen : draft.current = .pattern pattern)
    (accepted : (draft.apply edit).refusal = none) : edit.name? = none := by
  cases edit with
  | beginPattern | beginCharset => exact absurd accepted (refused_of_open isOpen)
  | endPattern | openBlock | closeBlock | addRule | addReference | addCriterion | addRepeat
  | collectAs => rfl

theorem givenNames_patternEdits (isOpen : draft.current = .pattern pattern)
    (applied : draft.applyAll edits = .ok after) : givenNames (patternEdits edits) = [] := by
  induction edits generalizing draft pattern with
  | nil => rfl
  | cons edit rest inductionHypothesis =>
      obtain ⟨accepted, goesOn⟩ := applyAll_cons_eq_ok_iff.1 applied
      by_cases isEnd : edit = .endPattern
      · simp [patternEdits, isEnd, givenNames]
      · obtain ⟨changed, alike⟩ := apply_open isOpen isEnd accepted
        rw [alike draft pattern.name isOpen] at goesOn
        have later := inductionHypothesis (by rfl) goesOn
        have noName := name?_of_open isOpen accepted
        rw [patternEdits, List.takeWhile_cons_of_pos (by simpa using isEnd)]
        show List.filterMap Edit.name? (edit :: patternEdits rest) = []
        rw [List.filterMap_cons_none noName]
        exact later

/-- A pattern begins behind the symbols before it, with its name or with the next number. -/
theorem Settles.beginPattern {symbols : Table Symbol} (settles : draft.Settles symbols)
    {name : Option String} {children : List Node}
    (fits : (Definition.pattern name children).Fits symbols) :
    draft.apply (.beginPattern name) = .accepted
      ⟨symbols, draft.anonymous + (Definition.pattern name children).numbers,
        .pattern { name := name.getD (toString draft.anonymous) }⟩ := by
  cases name with
  | none =>
      show draft.beginPattern none = _
      rw [Draft.beginPattern, settles]
      rfl
  | some name =>
      obtain ⟨unreserved, unused⟩ := fits name rfl
      exact settles.beginNamed unreserved unused _

/-- What stands between the beginning and the end of a pattern makes a definition together with
them. -/
theorem defines_pattern {name : Option String} {children : List Node}
    (names : givenNames edits = [])
    (builds : ∀ (twin : Draft) (name : String), twin.current = .pattern { name } →
      twin.applyAll (edits ++ [.endPattern]) = .ok { twin with
        symbols := twin.symbols.insert name (.pattern ⟨name, children⟩), current := .idle }) :
    Defines (.beginPattern name :: (edits ++ [.endPattern])) (.pattern name children) where
  names := by
    show givenNames ([.beginPattern name] ++ (edits ++ [.endPattern])) = name.toList
    rw [givenNames_append, givenNames_append, names]
    cases name <;> rfl
  stores := by
    intro draft symbols settles fits
    rw [applyAll_cons_of_accepted (settles.beginPattern fits), builds _ _ rfl]
    exact ⟨_, rfl, rfl, rfl⟩

/-! ## Charsets -/

/-- Outside patterns there are only the beginnings of symbols and the criteria of charsets. -/
theorem apply_outside (outside : ∀ pattern, draft.current ≠ .pattern pattern)
    (accepted : (draft.apply edit).refusal = none) :
    (∃ name, edit = .beginPattern name) ∨ (∃ name, edit = .beginCharset name) ∨
      ∃ criterion, edit = .addCriterion criterion := by
  have refused {change : OpenBlock → Except Refusal OpenBlock} :
      (draft.editBlock change).refusal ≠ none := by
    unfold Draft.editBlock
    split
    · rename_i pattern isPattern
      exact absurd isPattern (outside pattern)
    · exact Option.some_ne_none _
  cases edit with
  | beginPattern name => exact .inl ⟨name, rfl⟩
  | beginCharset name => exact .inr (.inl ⟨name, rfl⟩)
  | addCriterion criterion => exact .inr (.inr ⟨criterion, rfl⟩)
  | addRule | addReference | collectAs => exact absurd accepted refused
  | addRepeat bounds =>
      change (draft.addRepeat bounds).refusal = none at accepted
      rw [Draft.addRepeat] at accepted
      split at accepted
      · exact absurd accepted refused
      · cases accepted
  | endPattern =>
      change draft.endPattern.refusal = none at accepted
      unfold Draft.endPattern at accepted
      split at accepted
      · rename_i pattern isPattern
        exact absurd isPattern (outside pattern)
      · cases accepted
  | openBlock lead =>
      change (draft.openBlock lead).refusal = none at accepted
      unfold Draft.openBlock at accepted
      split at accepted
      · rename_i pattern isPattern
        exact absurd isPattern (outside pattern)
      · cases accepted
  | closeBlock =>
      change draft.closeBlock.refusal = none at accepted
      unfold Draft.closeBlock at accepted
      split at accepted
      · rename_i pattern isPattern
        exact absurd isPattern (outside pattern)
      · cases accepted

/-- A charset takes every criterion but itself. -/
theorem addCriterion_charset {charset : Charset} (isOpen : draft.current = .charset charset)
    {criterion : Criterion} (accepted : (draft.apply (.addCriterion criterion)).refusal = none) :
    criterion ≠ .symbol charset.name ∧ (draft.apply (.addCriterion criterion)).draft = { draft with
      current := .charset { charset with criteria := charset.criteria ++ [criterion] } } := by
  change (draft.addCriterion criterion).refusal = none at accepted
  show _ ∧ (draft.addCriterion criterion).draft = _
  rw [Draft.addCriterion, isOpen] at accepted ⊢
  simp only at accepted ⊢
  split at accepted
  · cases accepted
  · rename_i different
    rw [if_neg different]
    exact ⟨different, rfl⟩

/-- What begins a symbol commits what has been built before, and then does not look at it. -/
theorem begins_eq_andThen {charset : Charset} (isOpen : draft.current = .charset charset)
    (accepted : (draft.apply edit).refusal = none)
    (noCriterion : ∀ criterion, edit ≠ .addCriterion criterion) :
    ∃ continuation, ∀ twin : Draft, twin.apply edit = twin.commit.andThen continuation := by
  have outside : ∀ pattern, draft.current ≠ .pattern pattern := by simp [isOpen]
  rcases apply_outside outside accepted with ⟨name, rfl⟩ | ⟨name, rfl⟩ | ⟨criterion, rfl⟩
  · cases name with
    | some name => exact ⟨fun next => next.beginNamed name (.pattern { name }), fun _ => rfl⟩
    | none =>
        exact ⟨fun next => .accepted ⟨next.symbols, next.anonymous + 1,
          .pattern { name := toString next.anonymous }⟩, fun _ => rfl⟩
  · exact ⟨fun next => next.beginNamed name (.charset ⟨name, []⟩), fun _ => rfl⟩
  · exact absurd rfl (noCriterion criterion)

/-- A charset that can be committed is not empty. -/
theorem commit_of_charset {name : String} {done : List Criterion}
    (isOpen : draft.current = .charset ⟨name, done⟩) (accepted : draft.commit.refusal = none) :
    done ≠ [] ∧ draft.commit = .accepted { draft with
      symbols := draft.symbols.insert name (.charset ⟨name, done⟩), current := .idle } := by
  rw [Draft.commit, isOpen] at accepted ⊢
  cases done with
  | nil => cases accepted
  | cons => exact ⟨List.cons_ne_nil _ _, rfl⟩

/-- A charset that has begun is filled, up to the end of the edits or to where the next symbol
begins. From there the edits go on as if it had been stored at once. -/
theorem criteria_of_charset {name : String} {done : List Criterion}
    (isOpen : draft.current = .charset ⟨name, done⟩) (applied : draft.applyAll edits = .ok after)
    (sealed : after.commit.refusal = none) :
    ∃ criteria later stored, edits = criteria.map .addCriterion ++ later ∧
      done ++ criteria ≠ [] ∧ .symbol name ∉ criteria ∧
      Draft.applyAll { draft with
        symbols := draft.symbols.insert name (.charset ⟨name, done ++ criteria⟩)
        current := .idle } later = .ok stored ∧ stored.commit.refusal = none := by
  induction edits generalizing draft done with
  | nil =>
      cases applied
      obtain ⟨nonempty, _⟩ := commit_of_charset isOpen sealed
      exact ⟨[], [], _, rfl, by simpa using nonempty, by simp, by rw [List.append_nil]; rfl, rfl⟩
  | cons edit rest inductionHypothesis =>
      obtain ⟨accepted, goesOn⟩ := applyAll_cons_eq_ok_iff.1 applied
      by_cases adds : ∃ criterion, edit = .addCriterion criterion
      · obtain ⟨criterion, rfl⟩ := adds
        obtain ⟨different, added⟩ := addCriterion_charset isOpen accepted
        rw [added] at goesOn
        obtain ⟨criteria, later, stored, split, nonempty, noLoop, continues, ends⟩ :=
          inductionHypothesis (by rfl) goesOn
        refine ⟨criterion :: criteria, later, stored, by rw [split]; rfl, by simp, ?_, ?_, ends⟩
        · simpa [different.symm] using noLoop
        · simpa using continues
      · -- What begins here begins in the same way behind the charset that is stored already.
        obtain ⟨next, begins⟩ := begins_eq_andThen isOpen accepted (not_exists.1 adds)
        have committed : draft.commit.refusal = none := by
          rw [begins, Revision.andThen] at accepted
          split at accepted
          · assumption
          · exact accepted
        obtain ⟨nonempty, stores⟩ := commit_of_charset isOpen committed
        refine ⟨[], edit :: rest, after, rfl, by simpa using nonempty, by simp, ?_, sealed⟩
        rw [List.append_nil]
        rw [begins, stores] at accepted goesOn
        rw [applyAll_cons_eq_ok_iff, begins]
        exact ⟨accepted, goesOn⟩

theorem defines_charset {name : String} {criteria : List Criterion} (nonempty : criteria ≠ [])
    (noLoop : .symbol name ∉ criteria) :
    Defines (.beginCharset name :: criteria.map .addCriterion) (.charset ⟨name, criteria⟩) where
  names := by
    have noNames : givenNames (criteria.map .addCriterion) = [] := by
      simp [givenNames, Edit.name?]
    show givenNames ([.beginCharset name] ++ criteria.map .addCriterion) = _
    rw [givenNames_append, noNames]
    rfl
  stores := by
    intro draft symbols settles fits
    obtain ⟨unreserved, unused⟩ := fits name rfl
    have begins : draft.apply (.beginCharset name) =
        .accepted ⟨symbols, draft.anonymous, .charset ⟨name, []⟩⟩ :=
      settles.beginNamed unreserved unused _
    rw [applyAll_cons_of_accepted begins, applyAll_criteria criteria [] noLoop]
    exact ⟨_, rfl, settles_charset nonempty, rfl⟩

/-! ## All symbols -/

theorem isPattern_of_beginPattern {name : Option String}
    (accepted : (draft.beginPattern name).refusal = none) :
    ∃ given, (draft.beginPattern name).draft.current = .pattern { name := given } := by
  unfold Draft.beginPattern at accepted ⊢
  have begun := Revision.andThen_of_accepted accepted
  rw [begun] at accepted ⊢
  cases name with
  | none => exact ⟨_, rfl⟩
  | some name =>
      refine ⟨name, ?_⟩
      show (draft.commit.draft.beginNamed name _).draft.current = _
      rw [beginNamed_of_accepted accepted]
      rfl

/-- The first edit begins a symbol, and the edits of this symbol are the first row. The others go on
from a draft in which nothing has begun. -/
theorem first_row {rest : List Edit} (idle : draft.current = .idle)
    (applied : draft.applyAll (edit :: rest) = .ok after) (sealed : after.commit.refusal = none) :
    ∃ row later definition, edit :: rest = row ++ later ∧ later.length ≤ rest.length ∧
      Defines row definition ∧
      ∃ next last : Draft, next.current = .idle ∧ next.applyAll later = .ok last ∧
        last.commit.refusal = none := by
  obtain ⟨accepted, goesOn⟩ := applyAll_cons_eq_ok_iff.1 applied
  have outside : ∀ pattern, draft.current ≠ .pattern pattern := by simp [idle]
  rcases apply_outside outside accepted with ⟨name, rfl⟩ | ⟨name, rfl⟩ | ⟨criterion, rfl⟩
  · obtain ⟨given, isOpen⟩ := isPattern_of_beginPattern accepted
    have ended : ∀ other, after.current ≠ .pattern other := by
      intro other isPattern
      rw [Draft.commit, isPattern] at sealed
      cases sealed
    obtain ⟨children, later, split, continues, builds⟩ := row_of_open isOpen goesOn ended
    have names := givenNames_patternEdits isOpen goesOn
    refine ⟨.beginPattern name :: (patternEdits rest ++ [.endPattern]), later, _, ?_, ?_,
      defines_pattern names builds, _, after, rfl, continues, sealed⟩
    · simpa using split
    · rw [split]
      simp only [List.length_append, List.length_cons]
      omega
  · have isOpen : (draft.apply (.beginCharset name)).draft.current = .charset ⟨name, []⟩ :=
      isCharset_of_beginCharset accepted
    obtain ⟨criteria, later, last, split, nonempty, noLoop, continues, ends⟩ :=
      criteria_of_charset isOpen goesOn sealed
    refine ⟨.beginCharset name :: criteria.map .addCriterion, later, _, ?_, ?_,
      defines_charset nonempty noLoop, _, last, rfl, continues, ends⟩
    · rw [split, List.cons_append]
    · rw [split]
      simp only [List.length_append]
      omega
  · simp [Draft.apply, Draft.addCriterion, idle, Revision.refused] at accepted

/-- Edits that build a draft from nothing, and leave one that can be committed, define symbols, row
by row. The induction is on how many edits there are, since a row takes several. -/
theorem exists_definitions (idle : draft.current = .idle)
    (applied : draft.applyAll edits = .ok after) (sealed : after.commit.refusal = none) :
    ∃ definitions, DefinesAll edits definitions := by
  induction isCount : edits.length using Nat.strong_induction_on generalizing draft after edits with
  | _ count inductionHypothesis =>
      cases edits with
      | nil => exact ⟨[], .nil⟩
      | cons edit rest =>
          obtain ⟨row, later, definition, split, shorter, defines, next, last, nextIdle, continues,
            ends⟩ := first_row idle applied sealed
          have less : later.length < count := by
            rw [← isCount, List.length_cons]
            omega
          obtain ⟨definitions, definesLater⟩ :=
            inductionHypothesis later.length less nextIdle continues ends rfl
          exact ⟨definition :: definitions, split ▸ .cons defines definesLater⟩

end Rows

end Draft

end PlainPattern
