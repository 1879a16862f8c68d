import PlainPattern.Proofs.PrintedReading

/-!
Contract: printed symbols, one after another, are read as what is said of them.

Owns: the line above a symbol, the bars around a pattern, the elements of a charset, and with them
`read_symbol`; `read_symbols` is the induction over all symbols. Names that have been declared grow
with the reading, so no name may come twice.
-/

set_option autoImplicit false

namespace PlainPattern

open Text Lexeme

/-- A number names patterns only, and a proper name any symbol. -/
def Symbol.WellNamed (symbol : Symbol) : Prop :=
  ProperName symbol.name ∨ ∃ (pattern : Pattern) (number : Nat),
    symbol = .pattern pattern ∧ pattern.name = toString number

namespace Reading

variable {declared : List String} {rest : List Char}

theorem finishLine_newline (rest : List Char) : finishLine ('\n' :: rest) = .ok rest := rfl

theorem topMove_declaration (pending : Option String) (rest : List Char) :
    (Place.top pending).move declared ('@' :: rest) =
      Place.declarationMove declared pending rest := rfl

/-- The line above a symbol declares its name. -/
theorem onward_heading {name : String} (proper : ProperName name) (fresh : name ∉ declared)
    (rest : List Char) :
    onward declared (.top none) (Printer.heading name ++ rest) =
      onward (name :: declared) (.top (some name)) rest := by
  have shape : Printer.heading name ++ rest = '@' :: (name.toList ++ '\n' :: rest) := by
    simp [Printer.heading, proper.isNumbered_eq_false]
  have ends := endsWord_newline rest
  have noDigit : (name.toList ++ '\n' :: rest).head?.any Char.isDigit = false := by
    obtain ⟨first, others, split, _⟩ := IsWord.exists_cons proper.word
    rw [split]
    exact proper.begins first (by rw [split]; rfl)
  have free : (Keyword.reserved name || declared.contains name) = false := by
    simp [proper.unreserved, fresh]
  rw [shape]
  apply onward_declare
  rw [topMove_declaration, Place.declarationMove]
  simp only [word_append proper.word ends, afterWord_append proper.word ends, noDigit, free,
    Nat.not_lt.2 proper.long, finishLine_newline]
  rfl

theorem onward_openingBars {pending : Option String} :
    onward declared (.top pending) ('|' :: '|' :: '\n' :: rest) =
      (onward declared (.rules 0) rest).behind [.beginPattern pending] :=
  onward_go (by rfl)

theorem onward_closingBars :
    onward declared (.rules 0) ('|' :: '|' :: '\n' :: rest) =
      (onward declared (.top none) rest).behind [.endPattern] :=
  onward_go (by rfl)

theorem onward_top_newline {pending : Option String} :
    onward declared (.top pending) ('\n' :: rest) = onward declared (.top pending) rest :=
  onward_congr (by rfl)

theorem elementMove_ne_declare (owner : Owner) (rest : List Char) (name : String)
    (after : List Char) : Place.elementMove owner rest ≠ .declare name after := by
  unfold Place.elementMove
  split
  · simp
  · split <;> simp

/-- Elements behind a name are the charset of that name. -/
theorem onward_charset {name : String} {criteria : List Criterion}
    (listed : ListOfElements criteria) (rest : List Char) :
    onward declared (.top (some name)) (Printer.elements criteria ++ rest) =
      (onward declared (.elements .charset) (Printer.elements criteria ++ rest)).behind
        [.beginCharset name] := by
  obtain ⟨first, others, split, visible, noName, noBar, noComment⟩ :=
    Element.exists_cons_elements listed
  have moved : (Place.top (some name)).move declared (Printer.elements criteria ++ rest) =
      ((Place.elements .charset).move declared (Printer.elements criteria ++ rest)).behind
        [.beginCharset name] := by
    have skipped : skipBlanks (first :: (others ++ rest)) = first :: (others ++ rest) := by
      simp [skipBlanks, visible]
    rw [split, List.cons_append]
    simp only [Place.move, Place.topMove, skipped, if_neg noName, if_neg noBar, if_neg noComment]
  cases element : (Place.elements .charset).move declared (Printer.elements criteria ++ rest) with
  | stop edits fault =>
      rw [element] at moved
      rw [onward_stop element, onward_stop moved]
      rfl
  | go edits next after =>
      rw [element] at moved
      rw [onward_go element, onward_go moved, behind_behind]
  | declare other after => exact absurd element (elementMove_ne_declare _ _ _ _)

/-- A symbol is read as what is said of it, and its name is declared. -/
theorem read_symbol {symbol : Symbol} (obeys : symbol.Obeys .printable)
    (named : symbol.WellNamed) (fresh : symbol.name ∉ declared) (rest : List Char) :
    onward declared (.top none) (Printer.symbol symbol ++ rest) =
      (onward (symbol.givenName?.toList ++ declared) (.top none) rest).behind
        (symbol.phrases.flatMap Phrase.edits) := by
  cases symbol with
  | pattern found =>
      have shape : Printer.symbol (.pattern found) ++ rest = Printer.heading found.name ++
          '|' :: '|' :: '\n' :: (Printer.nodes found.children ++ '|' :: '|' :: '\n' :: rest) := by
        simp [Printer.symbol]
      have body (declared : List String) (pending : Option String) :
          onward declared (.top pending) ('|' :: '|' :: '\n' :: (Printer.nodes found.children ++
            '|' :: '|' :: '\n' :: rest)) = (onward declared (.top none) rest).behind
              ((Phrase.beginPattern pending :: phrasesOf found.children ++
                [Phrase.endPattern]).flatMap Phrase.edits) := by
        rw [onward_openingBars, read_nodes found.children 0 _ obeys.2, onward_closingBars,
          behind_behind, behind_behind, List.flatMap_append]
        rfl
      rcases named with proper | ⟨pattern, number, isPattern, isNumber⟩
      · have isProper : ProperName found.name := proper
        have given : (Symbol.pattern found).givenName? = some found.name :=
          Symbol.givenName?_of_proper proper
        have isFresh : found.name ∉ declared := fresh
        rw [shape, onward_heading isProper isFresh, body, Symbol.phrases, given]
        rfl
      · cases isPattern
        have noName : (Symbol.pattern found).givenName? = none :=
          Symbol.givenName?_of_number isNumber
        have noHeading : Printer.heading found.name = [] := by
          rw [Printer.heading, isNumber, Printer.isNumbered_toString]
          rfl
        rw [shape, noHeading, List.nil_append, body, Symbol.phrases, noName]
        rfl
  | charset found =>
      have proper : ProperName found.name := named.resolve_right (by simp)
      have shape : Printer.symbol (.charset found) ++ rest =
          Printer.heading found.name ++ (Printer.elements found.criteria ++ '\n' :: rest) := by
        simp [Printer.symbol]
      have given : (Symbol.charset found).givenName? = some found.name :=
        Symbol.givenName?_of_proper proper
      have isFresh : found.name ∉ declared := fresh
      rw [shape, onward_heading proper isFresh, onward_charset obeys,
        onward_elements obeys (endsElements_newline rest), behind_behind, given, Symbol.phrases,
        List.flatMap_singleton]
      change (onward _ (.top none) ('\n' :: rest)).behind _ = _
      rw [onward_top_newline]
      rfl

/-- The induction is on the symbols. The names of those still to come stay undeclared, since no two
symbols share a name. -/
theorem read_symbols {symbols : List Symbol} {declared : List String}
    (obey : ∀ symbol ∈ symbols, symbol.Obeys .printable)
    (named : ∀ symbol ∈ symbols, symbol.WellNamed)
    (distinct : (symbols.map Symbol.name).Nodup)
    (fresh : ∀ symbol ∈ symbols, symbol.name ∉ declared) :
    onward declared (.top none) (symbols.flatMap Printer.symbol) =
      ⟨(symbols.flatMap Symbol.phrases).flatMap Phrase.edits, none⟩ := by
  induction symbols generalizing declared with
  | nil => exact onward_stop (by rfl)
  | cons symbol rest inductionHypothesis =>
      obtain ⟨notAgain, distinctRest⟩ := List.nodup_cons.1 distinct
      have freshRest : ∀ other ∈ rest, other.name ∉ symbol.givenName?.toList ++ declared := by
        intro other member declaredNow
        rcases List.mem_append.1 declaredNow with isNew | isOld
        · have same := Symbol.eq_name_of_givenName? (Option.mem_toList.1 isNew)
          exact notAgain (same ▸ List.mem_map_of_mem member)
        · exact fresh other (List.mem_cons_of_mem _ member) isOld
      rw [List.flatMap_cons, read_symbol (obey _ List.mem_cons_self) (named _ List.mem_cons_self)
          (fresh _ List.mem_cons_self),
        inductionHypothesis (fun other member => obey other (List.mem_cons_of_mem _ member))
          (fun other member => named other (List.mem_cons_of_mem _ member)) distinctRest freshRest,
        List.flatMap_cons, List.flatMap_append]
      rfl

end Reading

end PlainPattern
