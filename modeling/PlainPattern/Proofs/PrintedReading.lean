import Mathlib.Data.List.DropRight
import PlainPattern.Proofs.PrintedLexemes
import PlainPattern.Proofs.Rebuilding
import PlainPattern.Source.Reading

/-!
Contract: the lines of a printed tree are read as the phrases of that tree.

Owns: what a reader does with each piece that the printer puts on a line, and, by recursion on the
tree, with a whole node (`read_node`). Every lemma says how the reading of a piece with something
behind it is the reading of what is behind, with the edits of the piece in front, so pieces are
joined by rewriting from left to right.
-/

set_option autoImplicit false

namespace PlainPattern

open Text Lexeme

namespace Reading

/-! ## Readings -/

theorem behind_nil (reading : Reading) : reading.behind [] = reading := rfl

theorem behind_behind (reading : Reading) (first second : List Edit) :
    (reading.behind second).behind first = reading.behind (first ++ second) := by
  simp [behind]

/-- A reading sees its place and its text only through the move. -/
theorem onward_congr {declared : List String} {place other : Place} {rest text : List Char}
    (same : place.move declared rest = other.move declared text) :
    onward declared place rest = onward declared other text := by
  cases moved : place.move declared rest with
  | stop edits fault => rw [onward_stop moved, onward_stop (same.symm.trans moved)]
  | go edits next after => rw [onward_go moved, onward_go (same.symm.trans moved)]
  | declare name after => rw [onward_declare moved, onward_declare (same.symm.trans moved)]

variable {declared : List String} {depth : Nat} {slot : Slot} {lead : Lead} {rest : List Char}

theorem skipInlineBlanks_skipInlineBlanks (rest : List Char) :
    skipInlineBlanks (skipInlineBlanks rest) = skipInlineBlanks rest :=
  List.dropWhile_idempotent _ _

/-- Blanks on a line do not matter. -/
theorem onward_line_skip (declared : List String) (depth : Nat) (slot : Slot) (rest : List Char) :
    onward declared (.line depth slot) (skipInlineBlanks rest) =
      onward declared (.line depth slot) rest := by
  apply onward_congr
  change Place.lineMove depth slot _ = Place.lineMove depth slot _
  rw [Place.lineMove, skipInlineBlanks_skipInlineBlanks, Place.lineMove]

theorem onward_line_blank : onward declared (.line depth slot) (' ' :: rest) =
    onward declared (.line depth slot) rest := by
  rw [← onward_line_skip, skipInlineBlanks_blank, onward_line_skip]

theorem onward_line {next : Place} {after : List Char} {edits : List Edit}
    (moved : Place.lineMove depth slot rest = .go edits next after) :
    onward declared (.line depth slot) rest = (onward declared next after).behind edits :=
  onward_go moved

/-- The end of a line that has its construct. -/
theorem onward_newline : onward declared (.line depth .filled) ('\n' :: rest) =
    onward declared (.rules depth) rest := by
  have moved : Place.lineMove depth .filled ('\n' :: rest) = .go [] (.rules depth) rest := rfl
  rw [onward_line moved, behind_nil]

/-- The end of a line in front of further lines is skipped. -/
theorem onward_rules_newline : onward declared (.rules depth) ('\n' :: rest) =
    onward declared (.rules depth) rest :=
  onward_congr (by rfl)

theorem onward_openBlock : onward declared (.line depth (.awaiting lead)) ('\x7b' :: rest) =
    (onward declared (.rules (depth + 1)) rest).behind [.openBlock lead] :=
  onward_go (by rfl)

theorem onward_closeBlock : onward declared (.rules (depth + 1)) ('\x7d' :: rest) =
    (onward declared (.line depth .filled) rest).behind [.closeBlock] :=
  onward_go (by rfl)

/-! ## Words -/

theorem lineMove_word {name : String} (isWord : IsWord name) (rest : List Char) :
    Place.lineMove depth slot (name.toList ++ rest) =
      Place.wordMove depth slot (name.toList ++ rest) := by
  obtain ⟨first, others, split, isFirst⟩ := IsWord.exists_cons isWord
  have skipped := skipInlineBlanks_word isWord rest
  have notMark (mark : Char) (isOut : isWordCharacter mark = false) : first ≠ mark :=
    ne_of_class isWordCharacter isFirst isOut
  rw [Place.lineMove, skipped, split]
  simp only [List.cons_append, if_neg (notMark '\n' (by decide)),
    if_neg (notMark '\x7d' (by decide)), if_neg (notMark '#' (by decide)),
    if_neg (notMark '(' (by decide)), if_neg (notMark '\x7b' (by decide)), if_pos isFirst]

theorem lineMove_keyword (keyword : Keyword) (ends : EndsWord rest) :
    Place.lineMove depth slot (keyword.spelling.toList ++ rest) =
      Place.keywordMove depth slot keyword keyword.spelling rest := by
  have isWord := isWord_spelling keyword
  rw [lineMove_word isWord, Place.wordMove]
  simp only [word_append isWord ends, afterWord_append isWord ends, Keyword.ofWord?_spelling]

theorem keywordMove_times (written : String) (after : List Char) :
    Place.keywordMove depth slot .times written after = Place.repeatMove depth slot after := rfl

theorem keywordMove_collectAs (written : String) (after : List Char) :
    Place.keywordMove depth slot .collectAs written after = Place.collectMove depth slot after :=
  rfl

theorem onward_reference {name : String} (isWord : IsWord name)
    (unreserved : Keyword.reserved name = false) (ends : EndsWord rest) :
    onward declared (.line depth (.awaiting lead)) (name.toList ++ rest) =
      (onward declared (.line depth .filled) rest).behind [.addReference name lead] := by
  apply onward_line
  rw [lineMove_word isWord, Place.wordMove]
  simp only [word_append isWord ends, afterWord_append isWord ends, ofWord?_eq_none unreserved]
  rfl

/-- A modifier is read where it is printed, and skipped where it is not. -/
theorem onward_modifier (lead extended : Lead) (keyword : Keyword) (flag : Bool)
    (reads : flag = true → ∀ after, Place.keywordMove depth (.awaiting lead) keyword
      keyword.spelling after = .go [] (.line depth (.awaiting extended)) after)
    (keeps : flag = false → extended = lead) (rest : List Char) :
    onward declared (.line depth (.awaiting lead))
        ((if flag then Printer.keyword keyword else []) ++ rest) =
      onward declared (.line depth (.awaiting extended)) rest := by
  cases flag with
  | false =>
      rw [keeps rfl]
      rfl
  | true =>
      have moved : Place.lineMove depth (.awaiting lead)
          (keyword.spelling.toList ++ ' ' :: rest) =
          .go [] (.line depth (.awaiting extended)) (' ' :: rest) :=
        (lineMove_keyword keyword (endsWord_blank rest)).trans (reads rfl _)
      have shape : Printer.keyword keyword ++ rest = keyword.spelling.toList ++ ' ' :: rest := by
        simp [Printer.keyword]
      rw [if_pos rfl, shape, onward_line moved, behind_nil, onward_line_blank]

theorem onward_modifiers (proper : lead.Proper)
    (noFork : lead.separates = true → lead.forks = false) (rest : List Char) :
    onward declared (.line depth (.awaiting {})) (Printer.modifiers lead ++ rest) =
      onward declared (.line depth (.awaiting lead)) rest := by
  obtain ⟨forks, optional, separates, negated⟩ := lead
  have together : (separates && forks) = false := by simpa using noFork
  have apart : (negated && optional) = false := by simpa [Lead.Proper] using proper
  simp only [Printer.modifiers, List.append_assoc]
  rw [onward_modifier {} { separates } .after separates
      (by rintro rfl after; rfl) (by rintro rfl; rfl),
    onward_modifier { separates } { separates, forks } .orElse forks
      (by rintro rfl after; simp [Place.keywordMove, Place.modifierMove, together])
      (by rintro rfl; rfl),
    onward_modifier { separates, forks } { separates, forks, optional } .optionally optional
      (by rintro rfl after; simp [Place.keywordMove, Place.modifierMove, together])
      (by rintro rfl; rfl),
    onward_modifier { separates, forks, optional } { separates, forks, optional, negated } .negated
      negated (by rintro rfl after; simp [Place.keywordMove, Place.modifierMove, together, apart])
      (by rintro rfl; rfl)]

/-! ## Elements -/

theorem onward_elements_blank {owner : Owner} :
    onward declared (.elements owner) (' ' :: rest) = onward declared (.elements owner) rest :=
  onward_congr (by rfl)

/-- What may follow a list of elements. -/
structure EndsElements (rest : List Char) : Prop where
  word : EndsWord rest
  noComma : ∀ character ∈ (skipInlineBlanks rest).head?, character ≠ ','

theorem endsElements_newline (rest : List Char) : EndsElements ('\n' :: rest) where
  word := endsWord_newline rest
  noComma := by
    rintro _ ⟨⟩
    decide

theorem onward_lastElement {owner : Owner} {criterion : Criterion} (listable : criterion.Listable)
    (ends : EndsElements rest) :
    onward declared (.elements owner) (Printer.element criterion ++ rest) =
      (onward declared owner.place (skipInlineBlanks rest)).behind [.addCriterion criterion] := by
  apply onward_go
  change Place.elementMove owner _ = _
  rw [Place.elementMove, Element.skipInlineBlanks_element listable,
    Element.element_printed listable ends.word]
  simp only
  split
  · rename_i tail atComma
    exact absurd rfl (ends.noComma ',' (by rw [atComma]; rfl))
  · rfl

theorem onward_elementComma {owner : Owner} {criterion : Criterion}
    (listable : criterion.Listable) (rest : List Char) :
    onward declared (.elements owner) (Printer.element criterion ++ ',' :: rest) =
      (onward declared (.elements owner) rest).behind [.addCriterion criterion] := by
  apply onward_go
  change Place.elementMove owner _ = _
  rw [Place.elementMove, Element.skipInlineBlanks_element listable,
    Element.element_printed listable (endsWord_cons (by decide) rest)]
  rfl

/-- The induction is on the list of elements. -/
theorem onward_elements {owner : Owner} : ∀ {criteria : List Criterion}, ListOfElements criteria →
    EndsElements rest → onward declared (.elements owner) (Printer.elements criteria ++ rest) =
      (onward declared owner.place (skipInlineBlanks rest)).behind (criteria.map .addCriterion)
  | [], listed, _ => absurd rfl listed.1
  | [criterion], listed, ends =>
      onward_lastElement (listed.2 criterion List.mem_cons_self) ends
  | criterion :: next :: others, listed, ends => by
      have shape : Printer.elements (criterion :: next :: others) ++ rest =
          Printer.element criterion ++ ',' :: ' ' ::
            (Printer.elements (next :: others) ++ rest) := by
        simp [Printer.elements]
      have remaining : ListOfElements (next :: others) :=
        ⟨by simp, fun other member => listed.2 other (List.mem_cons_of_mem _ member)⟩
      rw [shape, onward_elementComma (listed.2 criterion List.mem_cons_self),
        onward_elements_blank, onward_elements remaining ends, behind_behind]
      rfl

/-! ## Constructs and what follows them -/

theorem onward_endpoint (place : Endpoint) (ends : EndsWord rest) :
    onward declared (.line depth (.awaiting lead))
        ((Printer.endpoint place).spelling.toList ++ rest) =
      (onward declared (.line depth .filled) rest).behind
        [.addRule lead true, .addCriterion (.endpoint place)] := by
  apply onward_line
  rw [lineMove_keyword _ ends]
  cases place <;> rfl

theorem onward_list {inclusive : Bool} {criteria : List Criterion}
    (listed : ListOfElements criteria) (ends : EndsElements rest) :
    onward declared (.line depth (.awaiting lead))
        (Printer.keyword (if inclusive then .anyOf else .noneOf) ++ Printer.elements criteria ++
          rest) =
      (onward declared (.line depth .filled) rest).behind
        (.addRule lead inclusive :: criteria.map .addCriterion) := by
  have moved (tail : List Char) : Place.lineMove depth (.awaiting lead)
      ((if inclusive then Keyword.anyOf else Keyword.noneOf).spelling.toList ++ ' ' :: tail) =
      .go [.addRule lead inclusive] (.elements (.rule depth)) (' ' :: tail) := by
    rw [lineMove_keyword _ (endsWord_blank tail)]
    cases inclusive <;> rfl
  have shape : Printer.keyword (if inclusive then .anyOf else .noneOf) ++
      Printer.elements criteria ++ rest =
      (if inclusive then Keyword.anyOf else Keyword.noneOf).spelling.toList ++
        ' ' :: (Printer.elements criteria ++ rest) := by
    simp [Printer.keyword]
  rw [shape, onward_line (moved _), onward_elements_blank, onward_elements listed ends, Owner.place,
    onward_line_skip, behind_behind]
  rfl

theorem rule_of_list {content : Rule} (listed : ListOfElements content.criteria) :
    Printer.rule content = Printer.keyword (if content.inclusive then .anyOf else .noneOf) ++
      Printer.elements content.criteria := by
  obtain ⟨inclusive, criteria⟩ := content
  unfold Printer.rule
  split
  · rename_i place single
    cases single
    exact (listed.2 _ List.mem_cons_self).elim
  · rename_i same
    cases same
    rfl

theorem onward_rule {content : Rule} (printable : content.Printable) (ends : EndsElements rest) :
    onward declared (.line depth (.awaiting lead)) (Printer.rule content ++ rest) =
      (onward declared (.line depth .filled) rest).behind (Phrase.rule lead content).edits := by
  rcases printable with ⟨place, rfl⟩ | listed
  · exact onward_endpoint place ends.word
  · rw [rule_of_list listed]
    exact onward_list listed ends

theorem onward_capture {collectAs : Option String}
    (isWord : ∀ name, collectAs = some name → IsWord name) (ends : EndsWord rest) :
    onward declared (.line depth .filled) (Printer.capture collectAs ++ rest) =
      (onward declared (.line depth .filled) rest).behind
        ((collectAs.toList.map Phrase.collectAs).flatMap Phrase.edits) := by
  cases collectAs with
  | none => exact (behind_nil _).symm
  | some name =>
      have isName := isWord name rfl
      have shape : Printer.capture (some name) ++ rest =
          ' ' :: (Keyword.collectAs.spelling.toList ++ ' ' :: (name.toList ++ rest)) := by
        simp [Printer.capture, Printer.keyword]
      have notEmpty : name.isEmpty = false := by simpa [Bool.eq_false_iff] using isName.1
      have moved : Place.lineMove depth .filled
          (Keyword.collectAs.spelling.toList ++ ' ' :: (name.toList ++ rest)) =
          .go [.collectAs name] (.line depth .filled) rest := by
        rw [lineMove_keyword _ (endsWord_blank _), keywordMove_collectAs, Place.collectMove]
        simp only [skipInlineBlanks_blank, skipInlineBlanks_word isName, word_append isName ends,
          afterWord_append isName ends, notEmpty]
        rfl
      rw [shape, onward_line_blank, onward_line moved]
      rfl

/-! ## Lines -/

/-- A text that begins with a line, not with a bar, a brace that closes or a comment. -/
def BeginsLine (text : List Char) : Prop :=
  ∃ first others, text = first :: others ∧ (isWordCharacter first ∨ first = '\x7b')

theorem BeginsLine.append {text : List Char} (begins : BeginsLine text) (rest : List Char) :
    BeginsLine (text ++ rest) := by
  obtain ⟨first, others, rfl, opens⟩ := begins
  exact ⟨first, others ++ rest, rfl, opens⟩

theorem beginsLine_word {name : String} (isWord : IsWord name) : BeginsLine name.toList := by
  obtain ⟨first, others, split, isFirst⟩ := IsWord.exists_cons isWord
  exact ⟨first, others, split, .inl isFirst⟩

theorem onward_beginsLine {text : List Char} (begins : BeginsLine text) :
    onward declared (.rules depth) text = onward declared (.line depth (.awaiting {})) text := by
  obtain ⟨first, others, rfl, opens⟩ := begins
  apply onward_congr
  change Place.rulesMove depth _ = Place.lineMove depth _ _
  rcases opens with isWord | rfl
  · have notMark (mark : Char) (isOut : isWordCharacter mark = false) : first ≠ mark :=
      ne_of_class isWordCharacter isWord isOut
    have visible : skipBlanks (first :: others) = first :: others := by
      simp [skipBlanks, isBlank_of_isWordCharacter isWord]
    rw [Place.rulesMove, visible]
    simp only [if_neg (notMark '|' (by decide)), if_neg (notMark '#' (by decide)),
      if_neg (notMark '\x7d' (by decide))]
  · rfl

theorem onward_times {bounds : Bounds} (writable : bounds.Writable) (rest : List Char) :
    onward declared (.rules depth) (Printer.times bounds ++ rest) =
      (onward declared (.rules depth) rest).behind [.addRepeat bounds] := by
  have shape : Printer.times bounds ++ rest = Keyword.times.spelling.toList ++ ' ' ::
      ((toString bounds.min).toList ++ ' ' :: (Keyword.upTo.spelling.toList ++
        ' ' :: ((Printer.maximum bounds.max).toList ++ '\n' :: rest))) := by
    simp [Printer.times, Printer.keyword]
  have moved : Place.lineMove depth (.awaiting {}) (Printer.times bounds ++ rest) =
      .go [.addRepeat bounds] (.line depth .filled) ('\n' :: rest) := by
    rw [shape, lineMove_keyword _ (endsWord_blank _), keywordMove_times, Place.repeatMove,
      if_pos (.inr rfl), RepeatBounds.bounds_printed writable (endsWord_newline rest)]
  have begins : BeginsLine (Printer.times bounds ++ rest) := by
    rw [shape]
    exact (beginsLine_word (isWord_spelling .times)).append _
  rw [onward_beginsLine begins, onward_line moved, onward_newline]

theorem endsElements_capture (collectAs : Option String) (rest : List Char) :
    EndsElements (Printer.capture collectAs ++ '\n' :: rest) := by
  cases collectAs with
  | none => exact endsElements_newline rest
  | some name =>
      refine ⟨endsWord_blank _, ?_⟩
      rintro _ ⟨⟩
      decide

theorem beginsLine_keyword (keyword : Keyword) : BeginsLine (Printer.keyword keyword) :=
  (beginsLine_word (isWord_spelling keyword)).append [' ']

theorem beginsLine_body {content : Body} (obeys : content.Obeys .printable) :
    BeginsLine (Printer.body content) := by
  cases content with
  | block children => exact ⟨_, _, rfl, .inr rfl⟩
  | rule content =>
      rcases obeys with ⟨place, rfl⟩ | listed
      · exact beginsLine_word (isWord_spelling _)
      · rw [Printer.body, rule_of_list listed]
        exact (beginsLine_keyword _).append _
  | reference name => exact beginsLine_word obeys.1

theorem beginsLine_flag {flag : Bool} {keyword : Keyword} {text : List Char}
    (begins : BeginsLine text) :
    BeginsLine ((if flag then Printer.keyword keyword else []) ++ text) := by
  cases flag with
  | true => exact (beginsLine_keyword keyword).append text
  | false => exact begins

theorem beginsLine_modifiers (lead : Lead) {text : List Char} (begins : BeginsLine text) :
    BeginsLine (Printer.modifiers lead ++ text) := by
  simp only [Printer.modifiers, List.append_assoc]
  exact beginsLine_flag (beginsLine_flag (beginsLine_flag (beginsLine_flag begins)))

/-! ## Trees -/

mutual

/-- The lines of a node are read as what is said of it. -/
theorem read_node : ∀ (node : Node) (separates : Bool) (depth : Nat) (rest : List Char),
    node.Obeys .printable → (separates = true → node.forks = false) →
    onward declared (.rules depth) (Printer.node separates node ++ rest) =
      (onward declared (.rules depth) rest).behind ((node.phrases separates).flatMap Phrase.edits)
  | .mk content marks repeated, separates, depth, rest, ⟨marked, obeys, repeatObeys⟩, noFork => by
      have shape : Printer.node separates (.mk content marks repeated) ++ rest =
          Printer.modifiers (Printer.lead separates marks) ++ (Printer.body content ++
            (Printer.capture marks.collectAs ++ '\n' ::
              (Printer.repetition repeated ++ rest))) := by
        simp [Printer.node]
      have begins := (beginsLine_body obeys).append (Printer.capture marks.collectAs ++ '\n' ::
        (Printer.repetition repeated ++ rest))
      have proper : (Printer.lead separates marks).Proper := marked.optional
      rw [shape, onward_beginsLine (beginsLine_modifiers _ begins), onward_modifiers proper noFork,
        read_body content (Printer.lead separates marks) depth _ obeys
          (endsElements_capture marks.collectAs _),
        onward_capture marked.collectAs (endsWord_newline _), onward_newline,
        read_repetition repeated marks depth rest repeatObeys, behind_behind, behind_behind,
        Node.phrases, List.flatMap_append, List.flatMap_append, List.append_assoc]

/-- A construct is read on a line that has its modifiers. -/
theorem read_body : ∀ (content : Body) (lead : Lead) (depth : Nat) (rest : List Char),
    content.Obeys .printable → EndsElements rest →
    onward declared (.line depth (.awaiting lead)) (Printer.body content ++ rest) =
      (onward declared (.line depth .filled) rest).behind
        ((content.phrases lead).flatMap Phrase.edits)
  | .block children, lead, depth, rest, obeys, _ => by
      have shape : Printer.body (.block children) ++ rest =
          '\x7b' :: '\n' :: (Printer.nodes children ++ '\x7d' :: rest) := by
        simp [Printer.body]
      rw [shape, onward_openBlock, onward_rules_newline,
        read_nodes children (depth + 1) _ obeys.2, onward_closeBlock, behind_behind, behind_behind,
        Body.phrases, List.flatMap_append]
      rfl
  | .rule content, lead, depth, rest, obeys, ends => by
      rw [Printer.body, onward_rule obeys ends, Body.phrases, List.flatMap_singleton]
  | .reference name, lead, depth, rest, obeys, ends =>
      onward_reference obeys.1 obeys.2 ends.word

/-- A repeat and its separator are read on the lines behind a node. -/
theorem read_repetition : ∀ (repeated : Repetition) (marks : Marks) (depth : Nat)
    (rest : List Char), repeated.Obeys .printable marks →
    onward declared (.rules depth) (Printer.repetition repeated ++ rest) =
      (onward declared (.rules depth) rest).behind (repeated.phrases.flatMap Phrase.edits)
  | .once, _, _, _, _ => rfl
  | .times bounds, marks, depth, rest, obeys => onward_times obeys.2 rest
  | .separated bounds separator, marks, depth, rest, obeys => by
      obtain ⟨repeats, noFork, separatorObeys⟩ := obeys
      rw [Printer.repetition, List.append_assoc, onward_times repeats.2,
        read_node separator true depth rest separatorObeys fun _ => noFork, behind_behind]
      rfl

theorem read_nodes : ∀ (nodes : List Node) (depth : Nat) (rest : List Char),
    AllObey .printable nodes →
    onward declared (.rules depth) (Printer.nodes nodes ++ rest) =
      (onward declared (.rules depth) rest).behind ((phrasesOf nodes).flatMap Phrase.edits)
  | [], _, _, _ => rfl
  | node :: others, depth, rest, obey => by
      rw [Printer.nodes, List.append_assoc, read_node node false depth _ obey.1 (by simp),
        read_nodes others depth rest obey.2, behind_behind, phrasesOf, List.flatMap_append]

end

end Reading

end PlainPattern
