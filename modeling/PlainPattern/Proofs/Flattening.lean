import PlainPattern.Proofs.Exclusion
import PlainPattern.Proofs.Occurrences
import PlainPattern.Proofs.Termination

/-!
Contract: a charset that a rule names may be written out in its place.

Owns: the flat form of a list of criteria (`Schema.flat`), in which every criterion that names a
charset has been replaced by what the charset holds, and so on as far as there are charsets to open;
its recursion equation `flat_eq`, in which no depth appears; and the main result
`charsets_may_be_inlined`. At each depth opening a charset keeps the choice between the criteria
(`firstOf_flatTo`). That the depth suffices is shown as for evaluators: along a link fewer names can
be reached.
-/

set_option autoImplicit false

namespace PlainPattern

open Evaluator

/-! ## Flat criteria -/

namespace Schema

/-- The charset of the schema that a criterion names. -/
def namedCharset? (schema : Schema) : Criterion → Option Charset
  | .symbol name => (schema.charset name).toOption
  | .literal _ | .valueOf _ | .range _ _ | .endpoint _ => none

/-- What a criterion stands for, where charsets are opened to this depth. -/
def flatTo (schema : Schema) : Nat → Criterion → List Criterion
  | 0, criterion => [criterion]
  | depth + 1, criterion =>
      match schema.namedCharset? criterion with
      | some charset => charset.criteria.flatMap (schema.flatTo depth)
      | none => [criterion]

/-- The criteria with all charsets written out. A chain of charsets that does not close is no longer
than the schema has symbols. -/
def flat (schema : Schema) (criteria : List Criterion) : List Criterion :=
  criteria.flatMap (schema.flatTo schema.size)

section Flat

variable {schema : Schema} {criterion : Criterion} {charset : Charset} {name : String} {depth : Nat}

theorem namedCharset?_eq_some_iff :
    schema.namedCharset? criterion = some charset ↔
      ∃ name, criterion = .symbol name ∧ schema.get? name = some (.charset charset) := by
  cases criterion with
  | symbol name =>
      simp only [namedCharset?, Criterion.symbol.injEq, exists_eq_left', ← charset_eq_ok_iff]
      cases schema.charset name <;> simp [Except.toOption]
  | literal | valueOf | range | endpoint => simp [namedCharset?]

theorem flatTo_of_unnamed (unnamed : schema.namedCharset? criterion = none) (depth : Nat) :
    schema.flatTo depth criterion = [criterion] := by
  cases depth with
  | zero => rfl
  | succ depth => rw [flatTo, unnamed]

theorem flatTo_of_named (named : schema.namedCharset? criterion = some charset) (depth : Nat) :
    schema.flatTo (depth + 1) criterion = charset.criteria.flatMap (schema.flatTo depth) := by
  rw [flatTo, named]

/-- The induction is on the depth, which is never less than the number of names that can still be
reached: where it is used up, nothing is left to open. -/
theorem flatTo_of_card (acyclic : CharsetsAcyclic schema.symbols)
    (deep : (Depths.reachable (CharsetNames schema) schema.names name).card ≤ depth) :
    schema.flatTo (depth + 1) (.symbol name) = schema.flatTo depth (.symbol name) ∧
      ∀ inner ∈ schema.flatTo depth (.symbol name), schema.namedCharset? inner = none := by
  induction depth generalizing name with
  | zero =>
      cases named : schema.namedCharset? (.symbol name) with
      | none => simp [flatTo_of_unnamed named, named]
      | some charset =>
          obtain ⟨_, ⟨⟩, found⟩ := namedCharset?_eq_some_iff.1 named
          have reached : name ∈ Depths.reachable (CharsetNames schema) schema.names name :=
            Depths.mem_reachable.2 ⟨Table.mem_names_of_get? found, .refl⟩
          have positive := Finset.card_pos.2 ⟨name, reached⟩
          omega
  | succ depth inductionHypothesis =>
      cases named : schema.namedCharset? (.symbol name) with
      | none => simp [flatTo_of_unnamed named, named]
      | some charset =>
          obtain ⟨_, ⟨⟩, found⟩ := namedCharset?_eq_some_iff.1 named
          have isDefined : name ∈ schema.names := Table.mem_names_of_get? found
          have each : ∀ criterion ∈ charset.criteria,
              schema.flatTo (depth + 1) criterion = schema.flatTo depth criterion ∧
                ∀ inner ∈ schema.flatTo depth criterion, schema.namedCharset? inner = none := by
            intro criterion member
            cases unnamed : schema.namedCharset? criterion with
            | none => simp [flatTo_of_unnamed unnamed, unnamed]
            | some next =>
                obtain ⟨other, rfl, _⟩ := namedCharset?_eq_some_iff.1 unnamed
                have fewer := Depths.card_reachable_lt isDefined
                  (reachesNoCycle_of_acyclic acyclic name) ⟨charset, found, member⟩
                exact inductionHypothesis (by omega)
          rw [flatTo_of_named named, flatTo_of_named named]
          refine ⟨List.flatMap_congr fun criterion member => (each criterion member).1, ?_⟩
          intro inner member
          obtain ⟨criterion, outer, isInner⟩ := List.mem_flatMap.1 member
          exact (each criterion outer).2 inner isInner

theorem flatTo_size (acyclic : CharsetsAcyclic schema.symbols) (criterion : Criterion) :
    schema.flatTo (schema.size + 1) criterion = schema.flatTo schema.size criterion ∧
      ∀ inner ∈ schema.flatTo schema.size criterion, schema.namedCharset? inner = none := by
  cases named : schema.namedCharset? criterion with
  | none => simp [flatTo_of_unnamed named, named]
  | some charset =>
      obtain ⟨name, rfl, _⟩ := namedCharset?_eq_some_iff.1 named
      refine flatTo_of_card acyclic (Nat.le_trans Depths.card_reachable_le ?_)
      exact Nat.le_of_eq (List.length_map _)

/-- Each criterion that names a charset is replaced in its place by what the charset holds, and that
is written out in the same way. -/
theorem flat_eq (acyclic : CharsetsAcyclic schema.symbols) (criteria : List Criterion) :
    schema.flat criteria = criteria.flatMap fun criterion =>
      match schema.namedCharset? criterion with
      | some charset => schema.flat charset.criteria
      | none => [criterion] := by
  refine List.flatMap_congr fun criterion _ => ?_
  rw [← (flatTo_size acyclic criterion).1]
  rfl

theorem namedCharset?_of_mem_flat (acyclic : CharsetsAcyclic schema.symbols)
    {criteria : List Criterion} (member : criterion ∈ schema.flat criteria) :
    schema.namedCharset? criterion = none := by
  obtain ⟨outer, _, inner⟩ := List.mem_flatMap.1 member
  exact (flatTo_size acyclic outer).2 criterion inner

end Flat

end Schema

/-! ## Choices between criteria -/

namespace Evaluator

theorem firstOf_singleton (evaluator : Evaluator) : firstOf [evaluator] = evaluator := by
  funext state
  rw [firstOf]
  cases evaluator state with
  | undecided error after => rfl
  | answer matched after => cases matched <;> rfl

theorem firstOf_append (first second : List Evaluator) (state : State) :
    firstOf (first ++ second) state =
      match firstOf first state with
      | .answer true after => .answer true after
      | .answer false after => firstOf second after
      | .undecided error after => .undecided error after := by
  induction first generalizing state with
  | nil => rfl
  | cons evaluator others inductionHypothesis =>
      rw [List.cons_append, firstOf, firstOf]
      cases evaluator state with
      | undecided error after => rfl
      | answer matched after =>
          cases matched with
          | true => rfl
          | false => exact inductionHypothesis after

/-- A choice between rows of evaluators is a choice between the choices that the rows come to. -/
theorem firstOf_flatMap {Item : Type} (rows : Item → List Evaluator) (items : List Item) :
    firstOf (items.flatMap rows) = firstOf (items.map fun item => firstOf (rows item)) := by
  funext state
  induction items generalizing state with
  | nil => rfl
  | cons item others inductionHypothesis =>
      rw [List.flatMap_cons, List.map_cons, firstOf_append, firstOf]
      cases firstOf (rows item) state with
      | undecided error after => rfl
      | answer matched after =>
          cases matched with
          | true => rfl
          | false => exact inductionHypothesis after

end Evaluator

namespace Scene

variable {scene : Scene} {criterion : Criterion} {charset : Charset}

/-- Where no charset leads back to itself, the depth to which names may be followed drops out. -/
theorem charset_eq_charsetWith (acyclic : CharsetsAcyclic scene.schema.symbols) {name : String}
    (found : scene.schema.get? name = some (.charset charset)) :
    scene.charset name = scene.charsetWith scene.charset charset := by
  have constant := (scene.charset_certain acyclic name).constant _ (Nat.le_succ _)
  funext entry
  rw [Scene.charset, ← constant, charsetTo, Schema.charset_eq_ok_iff.2 found]
  rfl

/-- A criterion that names a charset comes to the choice between the criteria of the charset. Names
of character classes go before those of charsets, so `apart` asks that they are not the same. -/
theorem criterion_of_named (acyclic : CharsetsAcyclic scene.schema.symbols)
    (apart : ∀ characterClass : CharacterClass, scene.schema.get? characterClass.name = none)
    (named : scene.schema.namedCharset? criterion = some charset) :
    scene.criterion criterion = firstOf (charset.criteria.map scene.criterion) := by
  obtain ⟨name, rfl, found⟩ := Schema.namedCharset?_eq_some_iff.1 named
  have noClass : CharacterClass.ofName? name = none := by
    cases isClass : CharacterClass.ofName? name with
    | none => rfl
    | some characterClass =>
        rw [CharacterClass.ofName?_eq_some_iff.1 isClass, apart] at found
        cases found
  funext entry
  simp only [Scene.criterion, criterionWith, noClass]
  rw [charset_eq_charsetWith acyclic found]
  rfl

theorem firstOf_flatTo (acyclic : CharsetsAcyclic scene.schema.symbols)
    (apart : ∀ characterClass : CharacterClass, scene.schema.get? characterClass.name = none)
    (depth : Nat) (criterion : Criterion) :
    firstOf ((scene.schema.flatTo depth criterion).map scene.criterion) =
      scene.criterion criterion := by
  induction depth generalizing criterion with
  | zero => exact firstOf_singleton _
  | succ depth inductionHypothesis =>
      cases named : scene.schema.namedCharset? criterion with
      | none =>
          rw [Schema.flatTo_of_unnamed named]
          exact firstOf_singleton _
      | some charset =>
          rw [Schema.flatTo_of_named named, List.map_flatMap, firstOf_flatMap,
            criterion_of_named acyclic apart named]
          simp only [inductionHypothesis]

theorem firstOf_flat (acyclic : CharsetsAcyclic scene.schema.symbols)
    (apart : ∀ characterClass : CharacterClass, scene.schema.get? characterClass.name = none)
    (criteria : List Criterion) :
    firstOf ((scene.schema.flat criteria).map scene.criterion) =
      firstOf (criteria.map scene.criterion) := by
  rw [Schema.flat, List.map_flatMap, firstOf_flatMap]
  simp only [firstOf_flatTo acyclic apart]

/-- At the end of the text a rule is asked for its shape alone, and so is its flat form: `shape`
says that they answer alike. -/
theorem rule_flat (acyclic : CharsetsAcyclic scene.schema.symbols)
    (apart : ∀ characterClass : CharacterClass, scene.schema.get? characterClass.name = none)
    {rule : Rule}
    (shape : scene.schema.flat rule.criteria = [.endpoint .finish] ↔
      rule.criteria = [.endpoint .finish]) :
    scene.rule ⟨rule.inclusive, scene.schema.flat rule.criteria⟩ = scene.rule rule := by
  obtain ⟨inclusive, criteria⟩ := rule
  funext entry
  have inclusively : entry.atEnd scene.text = false →
      scene.rule ⟨true, scene.schema.flat criteria⟩ entry = scene.rule ⟨true, criteria⟩ entry := by
    intro inside
    rw [rule_inclusive inside, rule_inclusive inside, firstOf_flat acyclic apart]
  cases ended : entry.atEnd scene.text with
  | true => simp only [Scene.rule, ended, if_true, shape]
  | false =>
      cases inclusive with
      | true => exact inclusively ended
      | false => rw [rule_exclusive ended, rule_exclusive ended, inclusively ended]

end Scene

/-! ## Flat rules of printable schemas -/

namespace Schema

variable {schema : Schema} {criterion : Criterion} {unnamed : Nat}

/-- No symbol has the name of a character class, since that is a reserved word. -/
theorem Printable.get?_className (printable : schema.Printable unnamed)
    (characterClass : CharacterClass) : schema.get? characterClass.name = none := by
  have reserved : Keyword.reserved characterClass.name = true := by
    cases characterClass <;> decide
  cases found : schema.get? characterClass.name with
  | none => rfl
  | some symbol =>
      have unreserved : Keyword.reserved characterClass.name = false := by
        rcases printable.keys _ symbol found with proper | ⟨number, _, same⟩
        · exact proper.unreserved
        · rw [same]
          exact Keyword.reserved_toString number
      rw [unreserved] at reserved
      cases reserved

theorem Printable.listable_flatTo (printable : schema.Printable unnamed)
    (listable : criterion.Listable) (depth : Nat) :
    ∀ inner ∈ schema.flatTo depth criterion, inner.Listable := by
  induction depth generalizing criterion with
  | zero =>
      intro inner member
      exact List.mem_singleton.1 member ▸ listable
  | succ depth inductionHypothesis =>
      cases named : schema.namedCharset? criterion with
      | none =>
          rw [flatTo_of_unnamed named]
          intro inner member
          exact List.mem_singleton.1 member ▸ listable
      | some charset =>
          obtain ⟨name, _, found⟩ := namedCharset?_eq_some_iff.1 named
          have elements := (printable.obeys name _ found).2
          rw [flatTo_of_named named]
          intro inner member
          obtain ⟨element, isElement, inside⟩ := List.mem_flatMap.1 member
          exact inductionHypothesis (elements element isElement) inner inside

theorem ne_finish_of_listable {criteria : List Criterion}
    (listable : ∀ criterion ∈ criteria, criterion.Listable) :
    criteria ≠ [.endpoint .finish] := by
  rintro rfl
  exact listable (.endpoint .finish) (List.mem_singleton_self _)

/-- An endpoint stands in no list, so a rule asks for the end of the text alone exactly if its flat
form does. -/
theorem Printable.flat_eq_finish_iff (printable : schema.Printable unnamed) {rule : Rule}
    (isPrintable : rule.Printable) :
    schema.flat rule.criteria = [.endpoint .finish] ↔ rule.criteria = [.endpoint .finish] := by
  rcases isPrintable with ⟨endpoint, rfl⟩ | ⟨_, listable⟩
  · have alone : schema.flat [.endpoint endpoint] = [.endpoint endpoint] := by
      rw [flat, List.flatMap_singleton, flatTo_of_unnamed rfl]
    rw [alone]
  · have flatListable : ∀ criterion ∈ schema.flat rule.criteria, criterion.Listable := by
      intro criterion member
      obtain ⟨outer, isOuter, inside⟩ := List.mem_flatMap.1 member
      exact printable.listable_flatTo (listable outer isOuter) schema.size criterion inside
    exact iff_of_false (ne_finish_of_listable flatListable) (ne_finish_of_listable listable)

end Schema

/-- In a schema that compiles, writing out a list of criteria replaces each one that names a charset
by the criteria of the charset, written out in the same way, and leaves none that names a charset.
Every rule of the schema comes to what it comes to with its criteria written out, whether inclusive
or exclusive, in every text and from every state: the same answer or error, in the same state. -/
theorem charsets_may_be_inlined {source : String} {schema : Schema}
    (compiled : compile source = .ok schema) :
    (∀ criteria, schema.flat criteria = criteria.flatMap fun criterion =>
      match schema.namedCharset? criterion with
      | some charset => schema.flat charset.criteria
      | none => [criterion]) ∧
    (∀ criteria name, .symbol name ∈ schema.flat criteria →
      ∀ charset, schema.get? name ≠ some (.charset charset)) ∧
    ∀ rule ∈ schema.rules, ∀ (text : Array Char) (supplied : Bindings) (entry : State),
      let scene : Scene := ⟨schema, text, supplied⟩
      scene.rule ⟨rule.inclusive, schema.flat rule.criteria⟩ entry = scene.rule rule entry := by
  have printable := printable_of_compile compiled
  refine ⟨Schema.flat_eq printable.acyclic, ?_, ?_⟩
  · intro criteria name member charset found
    have unnamed := Schema.namedCharset?_of_mem_flat printable.acyclic member
    rw [Schema.namedCharset?_eq_some_iff.2 ⟨name, rfl, found⟩] at unnamed
    cases unnamed
  · intro rule member text supplied entry scene
    have isPrintable : rule.Printable := Schema.rule_of_obeys printable.obeys member
    exact congrFun (Scene.rule_flat printable.acyclic printable.get?_className
      (printable.flat_eq_finish_iff isPrintable)) entry

/-- Two rules over a charset that names another one, which the rules name as well. -/
def sharedCharsetSource : String :=
  "||\nnone half, few\nany (cat), half, missing\n||\n@half\na to c, few, ($word)\n@few\n(dot), digit"

/-- The inner charset is written out wherever it is named. The variable in the outer charset has no
value, and that is the error of a rule and of its flat form alike; the name that leads to no symbol
stays where it is, behind the variable. -/
theorem shared_charset_is_inlined :
    let few : List Criterion := [.literal "dot", .symbol "digit"]
    let half : List Criterion := .range 'a' 'c' :: few ++ [.valueOf "word"]
    ∃ schema, compile sharedCharsetSource = .ok schema ∧
      schema.rules.map (fun rule => schema.flat rule.criteria) =
        [half ++ few, .literal "cat" :: half ++ [.symbol "missing"]] ∧
      ∀ rule ∈ schema.rules, ∀ text supplied entry,
        let scene : Scene := ⟨schema, text, supplied⟩
        scene.rule ⟨rule.inclusive, schema.flat rule.criteria⟩ entry = scene.rule rule entry := by
  intro few half
  obtain ⟨schema, compiled, flat⟩ := exists_of_view sharedCharsetSource
    (fun schema => schema.rules.map fun rule => schema.flat rule.criteria)
    [half ++ few, .literal "cat" :: half ++ [.symbol "missing"]] (by decide +kernel)
  exact ⟨schema, compiled, flat, (charsets_may_be_inlined compiled).2.2⟩

end PlainPattern
