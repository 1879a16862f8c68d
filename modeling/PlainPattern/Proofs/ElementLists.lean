import PlainPattern.Proofs.BlindMoves
import PlainPattern.Proofs.CompiledTrees
import PlainPattern.Proofs.ElementEnds

/-!
Contract: what stands behind a list of elements in a text that compiles.

Owns: the elements that a reading meets at its stations (`Reading.elements`); what ends a list
cleanly (`Owner.EndsCleanly`), and what is certain to end it (`Owner.EndsWith`). A list of elements
has no end of its own: it stops where no comma follows, and what else may follow is up to the place
where the reading goes on (`Owner.ends_of_noFault`).
-/

set_option autoImplicit false

namespace PlainPattern

open Text Lexeme Element

/-! ## Elements of a reading -/

/-- Where a reading goes on without a fault, no move complains. -/
theorem Reading.move_of_noFault {declared : List String} {place : Place} {rest : List Char}
    (noFault : (onward declared place rest).fault = none) (edits : List Edit) (fault : Fault) :
    place.move declared rest ≠ .stop edits (some fault) := by
  intro moved
  rw [onward_stop moved] at noFault
  cases noFault

/-- The element that stands here, and what its list belongs to. The first element of a charset
stands behind the name, where no other symbol and no comment begins. -/
def Place.listed? : Place → List Char → Option (Owner × List Char)
  | .elements owner, rest => some (owner, skipInlineBlanks rest)
  | .top (some _), rest =>
      match skipBlanks rest with
      | [] => none
      | character :: tail =>
          if character = '@' ∨ character = '|' ∨ character = '#' then none
          else some (.charset, character :: tail)
  | _, _ => none

/-- Every element that is read in a text, with the text from there on. -/
def Reading.elements (source : List Char) : List (Owner × List Char) :=
  (stations [] (.top none) source).filterMap fun station => station.place.listed? station.rest

/-! ## What may follow a list -/

/-- The end of the text or of a line, or a comment. -/
def EndsLineOrComment (rest : List Char) : Prop :=
  ∀ character ∈ rest.head?, character = '\n' ∨ character = '#'

/-- The whole word for a repeat or for a capture, in any letter case. -/
def GoesOnWithRule (rest : List Char) : Prop :=
  Keyword.ofWord? (word rest) = some .times ∨ Keyword.ofWord? (word rest) = some .collectAs

namespace Owner

/-- What ends a list of elements: nothing more on the line, or inside a pattern the end of a block
or what else belongs to the rule. -/
def Ends : Owner → List Char → Prop
  | .charset, rest => EndsLineOrComment rest
  | .rule depth, rest =>
      EndsLineOrComment rest ∨ (rest.head? = some '\x7d' ∧ depth ≠ 0) ∨ GoesOnWithRule rest

/-- Another symbol begins on the line of a charset. -/
def SharesLine (owner : Owner) (rest : List Char) : Prop :=
  owner = .charset ∧ (rest.head? = some '@' ∨ rest.head? = some '|')

variable {declared : List String} {depth : Nat} {rest : List Char}

theorem endsLineOrComment_cons {character : Char} (isEnd : character = '\n' ∨ character = '#')
    (tail : List Char) : EndsLineOrComment (character :: tail) := by
  rintro _ ⟨⟩
  exact isEnd

/-- Behind a construct no word goes on with the line but those two. -/
theorem wordMove_filled (other : ¬GoesOnWithRule rest) :
    ∃ fault, Place.wordMove depth .filled rest = .stop [] (some fault) := by
  obtain ⟨notTimes, notAs⟩ := not_or.1 other
  unfold Place.wordMove
  simp only
  split
  · rename_i keyword isKeyword
    cases keyword with
    | times => exact absurd isKeyword notTimes
    | collectAs => exact absurd isKeyword notAs
    | _ => exact ⟨_, rfl⟩
  · exact ⟨_, rfl⟩

/-- A line whose construct has been read goes on, or ends, in no other way. -/
theorem ends_of_lineMove (visible : skipInlineBlanks rest = rest) :
    (∃ fault, Place.lineMove depth .filled rest = .stop [] (some fault)) ∨
      (Owner.rule depth).Ends rest := by
  unfold Place.lineMove
  rw [visible]
  cases rest with
  | nil => exact .inl ⟨_, rfl⟩
  | cons character tail =>
      simp only
      split
      · rename_i isNewline
        exact .inr (.inl (endsLineOrComment_cons (.inl isNewline) tail))
      · split
        · rename_i isBrace
          cases depth with
          | zero => exact .inl ⟨_, rfl⟩
          | succ => exact .inr (.inr (.inl ⟨congrArg some isBrace, Nat.succ_ne_zero _⟩))
        · split
          · rename_i isComment
            exact .inr (.inl (endsLineOrComment_cons (.inr isComment) tail))
          · split
            · exact .inl ⟨_, rfl⟩
            · split
              · exact .inl ⟨_, rfl⟩
              · split
                · by_cases goesOn : GoesOnWithRule (character :: tail)
                  · exact .inr (.inr (.inr goesOn))
                  · exact .inl (wordMove_filled goesOn)
                · exact .inl ⟨_, rfl⟩

/-- Between symbols a visible character ends the line, or begins a symbol. -/
theorem ends_of_topMove (visible : skipInlineBlanks rest = rest) :
    (∃ fault, Place.topMove declared none rest = .stop [] (some fault)) ∨
      Owner.charset.Ends rest ∨ Owner.charset.SharesLine rest := by
  cases rest with
  | nil => exact .inr (.inl (by rintro _ ⟨⟩))
  | cons character tail =>
      by_cases isEnd : character = '\n' ∨ character = '#'
      · exact .inr (.inl (endsLineOrComment_cons isEnd tail))
      · obtain ⟨notNewline, notComment⟩ := not_or.1 isEnd
        have notInline : ¬isInlineBlank character = true :=
          List.dropWhile_eq_self_iff.1 visible (Nat.succ_pos _)
        have notBlank : isBlank character = false := by
          simpa [isInlineBlank, notNewline] using notInline
        have skipped : skipBlanks (character :: tail) = character :: tail := by
          simp [skipBlanks, notBlank]
        unfold Place.topMove
        rw [skipped]
        simp only [notComment, if_false]
        split
        · rename_i declares
          exact .inr (.inr ⟨rfl, .inl (congrArg some declares)⟩)
        · split
          · rename_i begins
            exact .inr (.inr ⟨rfl, .inr (congrArg some begins)⟩)
          · exact .inl ⟨_, rfl⟩

theorem ends_of_noFault {owner : Owner} (visible : skipInlineBlanks rest = rest)
    (noFault : (Reading.onward declared owner.place rest).fault = none) :
    owner.Ends rest ∨ owner.SharesLine rest := by
  cases owner with
  | charset =>
      rcases ends_of_topMove visible with ⟨fault, moved⟩ | ends
      · exact absurd moved (Reading.move_of_noFault noFault _ _)
      · exact ends
  | rule depth =>
      rcases ends_of_lineMove visible with ⟨fault, moved⟩ | ends
      · exact absurd moved (Reading.move_of_noFault noFault _ _)
      · exact .inl ends

theorem skipInlineBlanks_of_word (isWord : ¬EndsWord rest) : skipInlineBlanks rest = rest := by
  cases rest with
  | nil => rfl
  | cons character tail =>
      cases isIn : isWordCharacter character with
      | false => exact absurd (endsWord_cons isIn tail) isWord
      | true => exact skipInlineBlanks_of_visible (isBlank_of_isWordCharacter isIn) tail

/-- A word behind a list goes on with its rule. -/
theorem goesOn_of_word {owner : Owner} (ends : owner.Ends rest ∨ owner.SharesLine rest)
    (isWord : ¬EndsWord rest) : owner ≠ .charset ∧ GoesOnWithRule rest := by
  have noMark (mark : Char) (other : isWordCharacter mark = false) : rest.head? ≠ some mark := by
    intro isMark
    refine isWord fun character isHead => ?_
    rw [isMark] at isHead
    cases isHead
    exact other
  have noEnd : ¬EndsLineOrComment rest := by
    intro ends
    refine isWord fun character isHead => ?_
    rcases ends character isHead with rfl | rfl <;> decide
  rcases ends with ends | ⟨_, declares | begins⟩
  · cases owner with
    | charset => exact absurd ends noEnd
    | rule depth =>
        rcases ends with ends | ⟨isBrace, _⟩ | goesOn
        · exact absurd ends noEnd
        · exact absurd isBrace (noMark _ (by decide))
        · exact ⟨by simp, goesOn⟩
  · exact absurd declares (noMark _ (by decide))
  · exact absurd begins (noMark _ (by decide))

end Owner

/-! ## Lists in a text that compiles -/

namespace Place

variable {owner : Owner} {rest : List Char}

/-- An element is not read, or is followed by a comma, or is the last of its list. -/
theorem elementMove_cases (owner : Owner) (rest : List Char) :
    (∃ fault, elementMove owner rest = .stop [] (some fault)) ∨
      ∃ criterion after, element (skipInlineBlanks rest) = .ok (criterion, after) ∧
        ((skipInlineBlanks after).head? = some ',' ∨
          elementMove owner rest =
            .go [.addCriterion criterion] owner.place (skipInlineBlanks after)) := by
  unfold elementMove
  split
  · exact .inl ⟨_, rfl⟩
  · rename_i criterion after read
    refine .inr ⟨criterion, after, read, ?_⟩
    split
    · rename_i atComma
      exact .inl (by rw [atComma]; rfl)
    · exact .inr rfl

/-- What is known of an element in a reading without a fault. -/
theorem read_of_listed {declared : List String} {place : Place} {text : List Char}
    (listed : place.listed? text = some (owner, rest))
    (noFault : (Reading.onward declared place text).fault = none) :
    ∃ criterion after, element rest = .ok (criterion, after) ∧
      ((skipInlineBlanks after).head? = some ',' ∨ ∃ edits : List Edit,
        place.move declared text = .go edits owner.place (skipInlineBlanks after)) := by
  have sound := Reading.move_of_noFault noFault
  cases place with
  | rules | line => cases listed
  | elements found =>
      cases listed
      rcases elementMove_cases owner text with ⟨fault, moved⟩ | ⟨criterion, after, read, ends⟩
      · exact absurd moved (sound _ _)
      · exact ⟨criterion, after, read, ends.imp_right fun moved => ⟨_, moved⟩⟩
  | top pending =>
      cases pending with
      | none => cases listed
      | some name =>
          simp only [listed?] at listed
          split at listed
          · cases listed
          · rename_i character tail skipped
            split at listed
            · cases listed
            · rename_i other
              cases listed
              obtain ⟨noDeclaration, noBars, noComment⟩ := by simpa only [not_or] using other
              have moves : (Place.top (some name)).move declared text =
                  (elementMove .charset (character :: tail)).behind [.beginCharset name] := by
                change topMove declared (some name) text = _
                unfold topMove
                rw [skipped]
                simp only [noDeclaration, noBars, noComment, if_false]
              have visible := skipInlineBlanks_of_visible (isBlank_of_skipBlanks skipped) tail
              rcases elementMove_cases .charset (character :: tail) with
                ⟨fault, moved⟩ | ⟨criterion, after, read, ends⟩
              · exact absurd (moves.trans (congrArg _ moved)) (sound _ _)
              · rw [visible] at read
                exact ⟨criterion, after, read,
                  ends.imp_right fun moved => ⟨_, moves.trans (congrArg _ moved)⟩⟩

end Place

/-- A list of elements has the rest of its line to itself, but for what belongs to the same rule or
block, and a word character at its end is the last of its word. -/
structure Owner.EndsCleanly (owner : Owner) (rest after : List Char) : Prop where
  ends : owner.Ends (skipInlineBlanks after)
  apart : endsBare (written rest after) = true → EndsWord (following rest after)

/-- What is certain behind the last element of a list. Behind a charset the next symbol may begin
on the same line, and the end of a range may run into the word that goes on with the rule. -/
structure Owner.EndsWith (owner : Owner) (criterion : Criterion) (rest after : List Char) :
    Prop where
  ends : owner.Ends (skipInlineBlanks after) ∨ owner.SharesLine (skipInlineBlanks after)
  apart : endsBare (written rest after) = true → EndsWord (following rest after) ∨
    ((∃ low high, criterion = .range low high) ∧ owner ≠ .charset ∧
      GoesOnWithRule (following rest after))

/-- Every element that is met in a text that compiles is read, and is followed by a comma or is the
last of its list. Behind the last one nothing more stands on the line, or inside a pattern the end
of the block or the rest of the rule; the two exceptions are a symbol that begins on the line of a
charset and a range that the rest of its rule is written on to without a blank. -/
theorem element_lists_end {source : String} {schema : Schema}
    (compiled : compile source = .ok schema) {owner : Owner} {rest : List Char}
    (listed : (owner, rest) ∈ Reading.elements source.toList) :
    ∃ criterion after, element rest = .ok (criterion, after) ∧
      ((skipInlineBlanks after).head? = some ',' ∨ owner.EndsWith criterion rest after) := by
  obtain ⟨noFault, _⟩ := Reading.schema_eq_ok compiled
  obtain ⟨⟨declared, place, text⟩, isStation, listed⟩ := List.mem_filterMap.1 listed
  have sameFault := Reading.fault_of_mem_stations [] (.top none) _ isStation
  have noFaultThere : (Reading.onward declared place text).fault = none := sameFault ▸ noFault
  obtain ⟨criterion, after, read, comma | ⟨edits, moved⟩⟩ :=
    Place.read_of_listed listed noFaultThere
  · exact ⟨criterion, after, read, .inl comma⟩
  · rw [Reading.onward_go moved] at noFaultThere
    have ends :=
      Owner.ends_of_noFault (Reading.skipInlineBlanks_skipInlineBlanks after) noFaultThere
    refine ⟨criterion, after, read, .inr ⟨ends, fun bare => ?_⟩⟩
    by_cases wordEnds : EndsWord (following rest after)
    · exact .inl wordEnds
    · obtain ⟨same, isRange⟩ := (following_element read bare).resolve_left wordEnds
      rw [same] at wordEnds ⊢
      rw [Owner.skipInlineBlanks_of_word wordEnds] at ends
      exact .inr ⟨isRange, Owner.goesOn_of_word ends wordEnds⟩

/-- The list of a charset with a comment behind it, and one of a rule that goes on. -/
def listedSource : String :=
  "@vowel\na, e to i # and u\n||\nany vowel, y times 2\n||"

/-- Four elements are met in two lists, and each list ends as it may. -/
theorem listed_source_ends :
    (Reading.elements listedSource.toList).map Prod.fst =
      [.charset, .charset, .rule 0, .rule 0] ∧
    ∀ listed ∈ Reading.elements listedSource.toList,
      ∃ criterion after, element listed.2 = .ok (criterion, after) ∧
        ((skipInlineBlanks after).head? = some ',' ∨
          listed.1.EndsWith criterion listed.2 after) := by
  have compiles : (compile listedSource).toOption.map Schema.names = some ["0", "vowel"] := by
    decide +kernel
  obtain ⟨schema, compiled, _⟩ := exists_of_view listedSource Schema.names _ compiles
  exact ⟨by decide +kernel, fun listed member => element_lists_end compiled member⟩

/-- Two symbols on one line. -/
def sharedLine : String :=
  "@vowel\na @other\nb"

/-- A range and its repeat without a blank between them. -/
def gluedRange : String :=
  "||\nany a to btimes 2\n||"

/-- A text compiles in which the next symbol begins on the line of a charset, and one in which the
upper bound of a range is written as the first letter of a longer word. -/
theorem lists_need_not_end_cleanly :
    (∃ schema, compile sharedLine = .ok schema ∧
      ∃ rest after, (Owner.charset, rest) ∈ Reading.elements sharedLine.toList ∧
        element rest = .ok (.literal "a", after) ∧ (skipInlineBlanks after).head? = some '@' ∧
        ¬Owner.charset.EndsCleanly rest after) ∧
    ∃ schema, compile gluedRange = .ok schema ∧
      ∃ rest after, (Owner.rule 0, rest) ∈ Reading.elements gluedRange.toList ∧
        element rest = .ok (.range 'a' 'b', after) ∧ (skipInlineBlanks after).head? = some 't' ∧
        ¬(Owner.rule 0).EndsCleanly rest after := by
  have shared : (compile sharedLine).toOption.map Schema.names = some ["other", "vowel"] := by
    decide +kernel
  have glued : (compile gluedRange).toOption.map Schema.names = some ["0"] := by decide +kernel
  constructor
  · obtain ⟨schema, compiled, _⟩ := exists_of_view sharedLine Schema.names _ shared
    refine ⟨schema, compiled, "a @other\nb".toList, "@other\nb".toList, by decide +kernel,
      by decide +kernel, by decide +kernel, fun clean => ?_⟩
    rcases clean.ends '@' (by decide) with isNewline | isComment
    · cases isNewline
    · cases isComment
  · obtain ⟨schema, compiled, _⟩ := exists_of_view gluedRange Schema.names _ glued
    refine ⟨schema, compiled, "a to btimes 2\n||".toList, "times 2\n||".toList, by decide +kernel,
      by decide +kernel, by decide +kernel, fun clean => ?_⟩
    have isWord := clean.apart (by decide +kernel) 't' (by decide +kernel)
    cases isWord

end PlainPattern
