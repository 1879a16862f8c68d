import PlainPattern.Proofs.Printable
import PlainPattern.Source.Reading

/-!
Contract: a text that is read without a fault is a row of phrases.

Owns: phrases, the stretches of schema text that say one thing each, and the edits that a phrase
spells out; what is proper in a phrase; and, move by move, that a reader leaves no phrase unfinished
(`Place.move_yields`). Between two elements a phrase is only half read, so what is still to come
depends on the place (`Place.Awaits`). `phrased_of_reading` puts the moves together.
-/

set_option autoImplicit false

namespace PlainPattern

open Text Lexeme

/-! ## What the readers answer with -/

theorem Criterion.between_listable (first second : Char) :
    (Criterion.between first second).Listable := by
  unfold Criterion.between
  split
  · assumption
  · rename_i backwards
    exact (Char.le_total first second).resolve_left backwards

namespace Element

theorem variableName_listable {criterion : Criterion} {rest after : List Char}
    (read : variableName rest = .ok (criterion, after)) : criterion.Listable := by
  unfold variableName at read
  simp only at read
  split at read
  · cases read
  · rename_i nonempty
    split at read
    · cases read
      exact isWord_word (Bool.eq_false_iff.2 nonempty)
    · cases read

theorem literalBody_listable (text rest : List Char) :
    ∀ {criterion : Criterion} {after : List Char},
      literalBody text rest = .ok (criterion, after) → criterion.Listable := by
  fun_induction literalBody text rest with
  | case4 text tail nonempty =>
      intro criterion after read
      cases read
      intro empty
      exact nonempty (List.isEmpty_iff.2 (String.ofList_eq_empty_iff.1 empty))
  | case5 =>
      intro criterion after read
      exact variableName_listable read
  | case7 _ _ _ _ _ _ _ _ inductionHypothesis =>
      intro criterion after read
      exact inductionHypothesis read
  | case9 _ _ _ _ _ _ _ _ inductionHypothesis =>
      intro criterion after read
      exact inductionHypothesis read
  | _ =>
      intro criterion after read
      cases read

theorem characterOrRange_listable {character : Char} {criterion : Criterion}
    {tail after : List Char} (read : characterOrRange character tail = .ok (criterion, after)) :
    criterion.Listable := by
  unfold characterOrRange at read
  split at read
  · cases read
  · rename_i first _ _
    split at read
    · cases read
      intro empty
      have noCharacters := congrArg String.toList empty
      rw [Char.toString, String.toList_singleton] at noCharacters
      cases noCharacters
    · split at read
      · cases read
        exact Criterion.between_listable _ _
      · cases read

/-- Two word characters in a row begin a word that can name a symbol. -/
theorem word_listable {character : Char} {tail : List Char} (isWord : isWordCharacter character)
    (meets : tail.head?.any isWordCharacter) :
    (Criterion.symbol (word (character :: tail))).Listable := by
  cases tail with
  | nil => cases meets
  | cons next rest =>
      have nextIsWord : isWordCharacter next := meets
      have spelled : word (character :: next :: rest) =
          String.ofList (character :: next :: rest.takeWhile isWordCharacter) := by
        rw [word, List.takeWhile_cons_of_pos isWord, List.takeWhile_cons_of_pos nextIsWord]
      refine ⟨isWord_word ?_, ?_⟩
      · rw [Bool.eq_false_iff, Ne, String.isEmpty_iff, spelled, String.ofList_eq_empty_iff]
        exact List.cons_ne_nil _ _
      · rw [spelled, String.length_ofList]
        exact Nat.le_add_left 2 _

theorem element_listable {criterion : Criterion} {rest after : List Char}
    (read : element rest = .ok (criterion, after)) : criterion.Listable := by
  unfold element at read
  split at read
  · cases read
  · rename_i character tail
    split at read
    · cases read
    · split at read
      · cases read
      · split at read
        · exact literalBody_listable _ _ read
        · split at read
          · rename_i wordsMeet
            cases read
            exact word_listable wordsMeet.1 wordsMeet.2
          · split at read
            · exact characterOrRange_listable read
            · cases read

end Element

theorem Lexeme.count_le {rest after : List Char} {value : Nat}
    (read : count rest = .ok (value, after)) : value ≤ maxCount := by
  unfold count at read
  simp only at read
  split at read
  · cases read
  · split at read
    · cases read
    · rename_i small
      cases read
      exact Nat.le_of_not_lt small

namespace RepeatBounds

theorem upperBound_writable {min : Nat} {found : Bounds} {rest after : List Char}
    (positive : 1 ≤ min) (small : min ≤ maxCount)
    (read : upperBound min rest = .ok (found, after)) : found.Writable := by
  unfold upperBound at read
  split at read
  · cases read
    exact ⟨positive, small, by simp⟩
  · split at read
    · cases read
    · rename_i max behindMax counted
      split at read
      · cases read
      · rename_i forwards
        cases read
        refine ⟨positive, small, ?_⟩
        rintro _ ⟨⟩
        exact ⟨Nat.le_of_not_lt forwards, count_le counted⟩

theorem bounds_writable {found : Bounds} {rest after : List Char}
    (read : bounds rest = .ok (found, after)) : found.Writable := by
  unfold bounds at read
  split at read
  · cases read
    exact ⟨Nat.le_refl 1, by decide, by simp⟩
  · split at read
    · cases read
    · rename_i min behindMin counted
      split at read
      · cases read
      · rename_i notZero
        have positive : 1 ≤ min := Nat.one_le_iff_ne_zero.2 notZero
        have small := count_le counted
        unfold behindMinimum at read
        split at read
        · exact upperBound_writable positive small read
        · cases read
          refine ⟨positive, small, ?_⟩
          rintro _ ⟨⟩
          exact ⟨Nat.le_refl min, small⟩

end RepeatBounds

/-! ## Phrases -/

/-- What a stretch of schema text says. -/
inductive Phrase where
  | beginPattern (name : Option String)
  | endPattern
  | charset (name : String) (criteria : List Criterion)
  | openBlock (lead : Lead)
  | closeBlock
  | rule (lead : Lead) (rule : Rule)
  | reference (name : String) (lead : Lead)
  | times (bounds : Bounds)
  | collectAs (name : String)

/-- A construct is not both negated and optional. -/
def Lead.Proper (lead : Lead) : Prop :=
  lead.negated = true → lead.optional = false

namespace Phrase

def edits : Phrase → List Edit
  | beginPattern name => [.beginPattern name]
  | endPattern => [.endPattern]
  | charset name criteria => .beginCharset name :: criteria.map .addCriterion
  | openBlock lead => [.openBlock lead]
  | closeBlock => [.closeBlock]
  | rule lead content => .addRule lead content.inclusive :: content.criteria.map .addCriterion
  | reference name lead => [.addReference name lead]
  | times bounds => [.addRepeat bounds]
  | collectAs name => [.collectAs name]

def Proper : Phrase → Prop
  | beginPattern name => ∀ given ∈ name, ProperName given
  | endPattern => True
  | charset name criteria => ProperName name ∧ ListOfElements criteria
  | openBlock lead => lead.Proper
  | closeBlock => True
  | rule lead content => lead.Proper ∧ content.Printable
  | reference name lead => lead.Proper ∧ IsWord name ∧ Keyword.reserved name = false
  | times bounds => bounds.Writable
  | collectAs name => IsWord name

end Phrase

/-- Edits that are a row of phrases. -/
def Phrased (edits : List Edit) : Prop :=
  ∃ phrases : List Phrase,
    (∀ phrase ∈ phrases, phrase.Proper) ∧ edits = phrases.flatMap Phrase.edits

/-- Edits that begin with the rest of a list of elements, of which at least one is left. -/
def Listed (edits : List Edit) : Prop :=
  ∃ criteria later, ListOfElements criteria ∧ Phrased later ∧
    edits = criteria.map .addCriterion ++ later

section Phrased

variable {edits : List Edit}

theorem phrased_nil : Phrased [] :=
  ⟨[], by simp, rfl⟩

theorem Phrased.behind (later : Phrased edits) (phrase : Phrase) (proper : phrase.Proper) :
    Phrased (phrase.edits ++ edits) := by
  obtain ⟨phrases, allProper, rfl⟩ := later
  refine ⟨phrase :: phrases, ?_, rfl⟩
  intro other member
  rcases List.mem_cons.1 member with rfl | inPhrases
  · exact proper
  · exact allProper other inPhrases

theorem Phrased.listed (later : Phrased edits) {criterion : Criterion}
    (listable : criterion.Listable) : Listed (.addCriterion criterion :: edits) :=
  ⟨[criterion], edits, ⟨List.cons_ne_nil _ _, by simpa using listable⟩, later, rfl⟩

theorem Listed.cons (rest : Listed edits) {criterion : Criterion}
    (listable : criterion.Listable) : Listed (.addCriterion criterion :: edits) := by
  obtain ⟨criteria, later, ⟨_, allListable⟩, phrased, rfl⟩ := rest
  refine ⟨criterion :: criteria, later, ⟨List.cons_ne_nil _ _, ?_⟩, phrased, rfl⟩
  intro other member
  rcases List.mem_cons.1 member with rfl | inCriteria
  · exact listable
  · exact allListable other inCriteria

theorem Listed.phrased_charset (rest : Listed edits) {name : String} (proper : ProperName name) :
    Phrased (.beginCharset name :: edits) := by
  obtain ⟨criteria, later, elements, phrased, rfl⟩ := rest
  exact phrased.behind (.charset name criteria) ⟨proper, elements⟩

theorem Listed.phrased_rule (rest : Listed edits) {lead : Lead} (proper : lead.Proper)
    (inclusive : Bool) : Phrased (.addRule lead inclusive :: edits) := by
  obtain ⟨criteria, later, elements, phrased, rfl⟩ := rest
  exact phrased.behind (.rule lead ⟨inclusive, criteria⟩) ⟨proper, .inr elements⟩

end Phrased

/-! ## Moves -/

namespace Place

/-- What is known of a place: a name that waits for its symbol is a proper one, and modifiers that
wait for their construct were accepted. -/
def Sensible : Place → Prop
  | .top pending => ∀ name ∈ pending, ProperName name
  | .rules _ => True
  | .line _ (.awaiting lead) => lead.Proper
  | .line _ .filled => True
  | .elements _ => True

/-- What is left to be read from a place. -/
def Awaits (edits : List Edit) : Place → Prop
  | .top _ => Phrased edits
  | .rules _ => Phrased edits
  | .line _ _ => Phrased edits
  | .elements _ => Listed edits

end Place

/-- The edits of the move, with what is left to be read behind it, are what is awaited. -/
def Move.Yields (awaited : List Edit → Prop) : Move → Prop
  | .stop edits fault => fault = none → awaited edits
  | .go edits next _ => next.Sensible ∧ ∀ later, next.Awaits later → awaited (edits ++ later)
  | .declare name _ => ProperName name ∧ ∀ later, Phrased later → awaited later

namespace Place

open Element

theorem complain_yields {awaited : List Edit → Prop} (complaint : Complaint) (rest : List Char) :
    (Move.complain complaint rest).Yields awaited := by
  intro noFault
  cases noFault

/-- A move that says one thing and goes on where anything may be said. -/
theorem phrase_yields (phrase : Phrase) {next : Place} {after : List Char}
    (proper : phrase.Proper) (sensible : next.Sensible)
    (goesOn : ∀ later, next.Awaits later → Phrased later) :
    (Move.go phrase.edits next after).Yields Phrased :=
  ⟨sensible, fun later awaited => (goesOn later awaited).behind phrase proper⟩

theorem elementMove_yields (owner : Owner) (rest : List Char) :
    (elementMove owner rest).Yields Listed := by
  unfold elementMove
  split
  · intro noFault
    cases noFault
  · rename_i criterion after read
    have listable := element_listable read
    split
    · exact ⟨trivial, fun later listed => listed.cons listable⟩
    · cases owner with
      | charset => exact ⟨by simp [Owner.place, Sensible], fun later phrased =>
          Phrased.listed phrased listable⟩
      | rule depth => exact ⟨trivial, fun later phrased => Phrased.listed phrased listable⟩

section Line

variable {depth : Nat} {slot : Slot} {rest after : List Char}

theorem endMove_yields {ended : Move} (yields : ended.Yields Phrased) :
    (endMove slot rest ended).Yields Phrased := by
  cases slot with
  | awaiting => exact complain_yields _ _
  | filled => exact yields

theorem constructMove_yields {construct : Lead → Move}
    (sensible : (Place.line depth slot).Sensible)
    (yields : ∀ lead : Lead, lead.Proper → (construct lead).Yields Phrased) :
    (constructMove slot rest construct).Yields Phrased := by
  cases slot with
  | awaiting lead => exact yields lead sensible
  | filled => exact complain_yields _ _

theorem closingMove_yields : (closingMove depth rest).Yields Phrased := by
  cases depth with
  | zero => exact complain_yields _ _
  | succ => exact phrase_yields .closeBlock trivial trivial fun _ => id

theorem literalMove_yields {lead : Lead} (proper : lead.Proper) :
    (literalMove depth lead rest).Yields Phrased := by
  unfold literalMove
  split
  · intro noFault
    cases noFault
  · rename_i read
    exact ⟨trivial, fun later phrased =>
      (Phrased.listed phrased (literalBody_listable _ _ read)).phrased_rule proper true⟩

theorem openingMove_yields (sensible : (Place.line depth slot).Sensible) :
    (openingMove depth slot rest).Yields Phrased := by
  cases slot with
  | awaiting lead => exact phrase_yields (.openBlock lead) sensible trivial fun _ => id
  | filled => exact complain_yields _ _

theorem modifierMove_yields (extend : Lead → Lead) :
    (modifierMove depth slot extend after).Yields Phrased := by
  unfold modifierMove
  split
  · exact complain_yields _ _
  · simp only
    split
    · exact complain_yields _ _
    · split
      · exact complain_yields _ _
      · rename_i accepted
        exact ⟨fun negated => by simpa [negated] using accepted, fun _ => id⟩

theorem repeatMove_yields : (repeatMove depth slot after).Yields Phrased := by
  unfold repeatMove
  split
  · split
    · intro noFault
      cases noFault
    · rename_i read
      exact phrase_yields (.times _) (RepeatBounds.bounds_writable read) trivial fun _ => id
  · exact complain_yields _ _

theorem collectMove_yields : (collectMove depth slot after).Yields Phrased := by
  unfold collectMove
  split
  · exact complain_yields _ _
  · simp only
    split
    · exact complain_yields _ _
    · rename_i nonempty
      exact phrase_yields (.collectAs _) (isWord_word (Bool.eq_false_iff.2 nonempty)) trivial
        fun _ => id

theorem keywordMove_yields (sensible : (Place.line depth slot).Sensible) (keyword : Keyword)
    (written : String) : (keywordMove depth slot keyword written after).Yields Phrased := by
  have endpoint (endpoint : Endpoint) (lead : Lead) (proper : lead.Proper) :
      (Move.go [.addRule lead true, .addCriterion (.endpoint endpoint)] (.line depth .filled)
        after).Yields Phrased :=
    phrase_yields (.rule lead ⟨true, [.endpoint endpoint]⟩) ⟨proper, .inl ⟨endpoint, rfl⟩⟩ trivial
      fun _ => id
  have list (inclusive : Bool) (lead : Lead) (proper : lead.Proper) :
      (Move.go [.addRule lead inclusive] (.elements (.rule depth)) after).Yields Phrased :=
    ⟨trivial, fun later listed => listed.phrased_rule proper inclusive⟩
  cases keyword with
  | orElse | optionally | after | negated => exact modifierMove_yields _
  | anyOf => exact constructMove_yields sensible (list true)
  | noneOf => exact constructMove_yields sensible (list false)
  | startOfText => exact constructMove_yields sensible (endpoint .start)
  | endOfText => exact constructMove_yields sensible (endpoint .finish)
  | times => exact repeatMove_yields
  | collectAs => exact collectMove_yields
  | anything | digit | forever | space | upTo | whitespace => exact complain_yields _ _

theorem wordMove_yields (sensible : (Place.line depth slot).Sensible)
    (nonempty : (word rest).isEmpty = false) : (wordMove depth slot rest).Yields Phrased := by
  unfold wordMove
  simp only
  split
  · exact keywordMove_yields sensible _ _
  · rename_i unknown
    have unreserved : Keyword.reserved (word rest) = false := by
      rw [Keyword.reserved, unknown]
      rfl
    exact constructMove_yields sensible fun lead proper =>
      phrase_yields (.reference _ lead) ⟨proper, isWord_word nonempty, unreserved⟩ trivial
        fun _ => id

theorem lineMove_yields (sensible : (Place.line depth slot).Sensible) (rest : List Char) :
    (lineMove depth slot rest).Yields Phrased := by
  unfold lineMove
  split
  · exact endMove_yields (complain_yields _ _)
  · rename_i character tail _
    split
    · exact endMove_yields ⟨trivial, fun _ => id⟩
    · split
      · exact endMove_yields closingMove_yields
      · split
        · exact ⟨sensible, fun _ => id⟩
        · split
          · exact constructMove_yields sensible fun lead proper => literalMove_yields proper
          · split
            · exact openingMove_yields sensible
            · split
              · rename_i isWord
                refine wordMove_yields sensible ?_
                rw [word, List.takeWhile_cons_of_pos isWord, Bool.eq_false_iff, Ne,
                  String.isEmpty_iff, String.ofList_eq_empty_iff]
                exact List.cons_ne_nil _ _
              · exact complain_yields _ _

end Line

theorem barsMove_yields (phrase : Phrase) {edit : Edit} {next : Place} (rest : List Char)
    (spells : phrase.edits = [edit]) (proper : phrase.Proper) (sensible : next.Sensible)
    (goesOn : ∀ later, next.Awaits later → Phrased later) :
    (barsMove edit next rest).Yields Phrased := by
  unfold barsMove
  split
  · exact spells ▸ phrase_yields phrase proper sensible goesOn
  · intro noFault
    cases noFault

theorem rulesMove_yields (depth : Nat) (rest : List Char) :
    (rulesMove depth rest).Yields Phrased := by
  unfold rulesMove
  split
  · exact complain_yields _ _
  · split
    · split
      · exact barsMove_yields .endPattern _ rfl trivial (by simp [Sensible]) fun _ => id
      · exact complain_yields _ _
    · split
      · exact ⟨trivial, fun _ => id⟩
      · split
        · exact closingMove_yields
        · exact lineMove_yields (by intro negated; cases negated) _

theorem properName_word {rest : List Char} (long : 2 ≤ (word rest).length)
    (begins : rest.head?.any Char.isDigit = false)
    (unreserved : Keyword.reserved (word rest) = false) : ProperName (word rest) where
  word := isWord_word (by
    rw [Bool.eq_false_iff, Ne, String.isEmpty_iff]
    intro empty
    rw [empty] at long
    cases long)
  long := long
  begins := by
    rw [word, String.toList_ofList, List.head?_takeWhile]
    intro first isFirst
    have isHead := (Option.mem_filter_iff.1 isFirst).1
    rw [Option.mem_def.1 isHead] at begins
    exact begins
  unreserved := unreserved

theorem declarationMove_yields (declared : List String) (pending : Option String)
    (rest : List Char) : (declarationMove declared pending rest).Yields Phrased := by
  unfold declarationMove
  simp only
  split
  · exact complain_yields _ _
  · split
    · exact complain_yields _ _
    · rename_i long
      split
      · exact complain_yields _ _
      · rename_i begins
        split
        · exact complain_yields _ _
        · rename_i free
          have unreserved : Keyword.reserved (word rest) = false :=
            (Bool.or_eq_false_iff.1 (Bool.eq_false_iff.2 free)).1
          split
          · exact ⟨properName_word (Nat.le_of_not_lt long) (Bool.eq_false_iff.2 begins)
              unreserved, fun _ => id⟩
          · intro noFault
            cases noFault

theorem charset_yields {name : String} (proper : ProperName name) {move : Move}
    (yields : move.Yields Listed) : (move.behind [.beginCharset name]).Yields Phrased := by
  cases move with
  | stop edits fault => exact fun noFault => (yields noFault).phrased_charset proper
  | go edits next after =>
      exact ⟨yields.1, fun later awaited => (yields.2 later awaited).phrased_charset proper⟩
  | declare other after => exact ⟨yields.1, fun _ => id⟩

theorem topMove_yields {declared : List String} {pending : Option String}
    (sensible : (Place.top pending).Sensible) (rest : List Char) :
    (topMove declared pending rest).Yields Phrased := by
  unfold topMove
  split
  · exact fun _ => phrased_nil
  · exact complain_yields _ _
  · split
    · exact declarationMove_yields declared _ _
    · split
      · exact barsMove_yields (.beginPattern _) _ rfl sensible trivial fun _ => id
      · split
        · exact ⟨sensible, fun _ => id⟩
        · split
          · rename_i name
            exact charset_yields (sensible name rfl) (elementMove_yields .charset _)
          · exact complain_yields _ _

/-- No move leaves a phrase unfinished, or says what is not proper. -/
theorem move_yields {place : Place} (sensible : place.Sensible) (declared : List String)
    (rest : List Char) : (place.move declared rest).Yields fun edits => place.Awaits edits := by
  cases place with
  | top pending => exact topMove_yields sensible rest
  | rules depth => exact rulesMove_yields depth rest
  | line depth slot => exact lineMove_yields sensible rest
  | elements owner => exact elementMove_yields owner rest

end Place

/-- The induction is on the moves of the reading. -/
theorem Reading.onward_awaited (declared : List String) (place : Place) (rest : List Char)
    (sensible : place.Sensible) (noFault : (onward declared place rest).fault = none) :
    place.Awaits (onward declared place rest).edits := by
  fun_induction onward declared place rest with
  | case1 declared place rest edits fault moved =>
      have yields := Place.move_yields sensible declared rest
      rw [moved] at yields
      exact yields noFault
  | case2 declared place rest edits next after moved inductionHypothesis =>
      have yields := Place.move_yields sensible declared rest
      rw [moved] at yields
      exact yields.2 _ (inductionHypothesis yields.1 noFault)
  | case3 declared place rest name after moved inductionHypothesis =>
      have yields := Place.move_yields sensible declared rest
      rw [moved] at yields
      exact yields.2 _ (inductionHypothesis (by rintro _ ⟨⟩; exact yields.1) noFault)

/-- A text that is read without a fault is a row of phrases. -/
theorem phrased_of_reading {source : List Char} (noFault : (Reading.ofText source).fault = none) :
    Phrased (Reading.ofText source).edits :=
  Reading.onward_awaited [] (.top none) source (by rintro _ ⟨⟩) noFault

end PlainPattern
