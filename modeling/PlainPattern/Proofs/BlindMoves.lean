import PlainPattern.Proofs.BlindReaders
import PlainPattern.Proofs.PrintedReading

/-!
Contract: a reader makes the same move in another layout of a text.

Owns: what it means at each place that two texts are laid out differently (`Place.Laid`), the moves
that mirror each other, and the step lemma `laid_step`. A reader may skip more on its way in the
second text, so the lemma compares what is read from there on and not the moves alone.
-/

set_option autoImplicit false

namespace PlainPattern

open Text Lexeme Element

/-- Two texts that a reader takes for the same at this place. -/
def Place.Laid (more : List Char) : Place → List Char → List Char → Prop
  | .top _, rest, laid => Opens more rest laid
  | .rules _, rest, laid => Opens more rest laid
  | .line _ _, rest, laid => Relaid more rest laid
  | .elements _, rest, laid => Relaid more rest laid

/-- What the first move takes without a fault the second takes as well, and both leave texts that
are the same again. -/
def Move.Mirrors (more : List Char) : Move → Move → Prop
  | .stop _ fault, _ => fault ≠ none
  | .go edits next after, other =>
      ∃ laidAfter, other = .go edits next laidAfter ∧ next.Laid more after laidAfter
  | .declare name after, other =>
      ∃ laidAfter, other = .declare name laidAfter ∧ Opens more after laidAfter

variable {more rest laid : List Char}

theorem Relaid.laidAt (ends : EndsLine more) (relaid : Relaid more rest laid) (place : Place) :
    place.Laid more rest laid := by
  cases place with
  | top | rules => exact relaid.opens ends
  | line | elements => exact relaid

/-! ## Ends of lines -/

namespace Lexeme

theorem finishLine_skip (rest : List Char) :
    finishLine (skipInlineBlanks rest) = finishLine rest := by
  rw [finishLine, Reading.skipInlineBlanks_skipInlineBlanks, finishLine]

theorem endsLine_skipLine (rest : List Char) : EndsLine (skipLine rest) := by
  intro character first
  have stops := List.head?_dropWhile_not (fun character => character != '\n') rest
  rw [show rest.dropWhile _ = skipLine rest from rfl, Option.mem_def.1 first] at stops
  simpa using stops

theorem finishLine_comment (rest : List Char) :
    finishLine ('#' :: rest) = finishLine (skipLine rest) := by
  have skipped : skipComment (skipInlineBlanks ('#' :: rest)) = skipLine rest := rfl
  rcases (endsLine_skipLine rest).cases with ended | ⟨tail, ended⟩
  · rw [finishLine, skipped, ended]
    rfl
  · rw [finishLine, skipped, ended]
    rfl

theorem finishLine_trail {trail ended : List Char} (isTrail : LineTrail trail)
    (ends : EndsLine ended) : finishLine (trail ++ ended) = finishLine ended := by
  induction isTrail with
  | nothing => rfl
  | @blank character trail isInline _ inductionHypothesis =>
      rw [← finishLine_skip, List.cons_append, skipInlineBlanks,
        List.dropWhile_cons_of_pos isInline, ← inductionHypothesis]
      exact finishLine_skip _
  | comment inLine => rw [List.cons_append, finishLine_comment, skipLine_append inLine ends]

/-- Where the first text is at the end of a line, the second is at the end of a line too, or behind
its last line. -/
theorem finishLine_of_endsLine (ends : EndsLine more) (relaid : Relaid more rest laid)
    (atEnd : EndsLine rest) {after : List Char} (read : finishLine rest = .ok after) :
    ∃ laidAfter, finishLine laid = .ok laidAfter ∧ Opens more after laidAfter := by
  cases relaid with
  | finish isTrail =>
      cases read
      rw [finishLine_trail isTrail ends]
      rcases ends.cases with rfl | ⟨second, rfl⟩
      · exact ⟨[], rfl, .ended rfl rfl⟩
      · exact ⟨second, rfl, .ended rfl rfl⟩
  | newline isTrail isGap behind =>
      cases read
      rw [finishLine_trail isTrail (endsLine_newline _)]
      exact ⟨_, rfl, (behind.opens ends).congr rfl (isGap.skipGap_append _)⟩
  | character inLine _ => exact absurd (atEnd _ rfl) inLine

theorem finishLine_blind (ends : EndsLine more) (relaid : Relaid more rest laid)
    {after : List Char} (read : finishLine rest = .ok after) :
    ∃ laidAfter, finishLine laid = .ok laidAfter ∧ Opens more after laidAfter := by
  have skipped := relaid.skipInlineBlanks ends
  have visible := List.head?_dropWhile_not isInlineBlank rest
  rw [← finishLine_skip] at read ⊢
  rw [show rest.dropWhile isInlineBlank = skipInlineBlanks rest from rfl] at visible
  cases start : skipInlineBlanks rest with
  | nil =>
      rw [start] at skipped read
      exact finishLine_of_endsLine ends skipped (by simp [EndsLine]) read
  | cons character tail =>
      rw [start] at skipped read visible
      by_cases newline : character = '\n'
      · subst newline
        exact finishLine_of_endsLine ends skipped (endsLine_newline tail) read
      · obtain ⟨laidTail, laidStart, behind⟩ := skipped.of_cons newline
        by_cases comment : character = '#'
        · subst comment
          rw [laidStart, finishLine_comment]
          rw [finishLine_comment] at read
          exact finishLine_of_endsLine ends (behind.skipLine ends) (endsLine_skipLine tail) read
        · have isVisible : isInlineBlank character = false := by simpa using visible
          simp [finishLine, skipInlineBlanks, isVisible, skipComment, comment, newline,
            PlainPattern.fault] at read

end Lexeme

/-! ## Moves on one line -/

namespace Place

theorem complain_mirrors {complaint : Complaint} {other : Move} :
    (Move.complain complaint rest).Mirrors more other :=
  Option.some_ne_none _

theorem constructMove_mirrors {slot : Slot} {construct laidConstruct : Lead → Move}
    (mirrors : ∀ lead, (construct lead).Mirrors more (laidConstruct lead)) :
    (constructMove slot rest construct).Mirrors more (constructMove slot laid laidConstruct) := by
  cases slot with
  | awaiting lead => exact mirrors lead
  | filled => exact complain_mirrors

theorem endMove_mirrors {slot : Slot} {ended laidEnded : Move}
    (mirrors : ended.Mirrors more laidEnded) :
    (endMove slot rest ended).Mirrors more (endMove slot laid laidEnded) := by
  cases slot with
  | awaiting => exact complain_mirrors
  | filled => exact mirrors

theorem literalMove_mirrors (ends : EndsLine more) (relaid : Relaid more rest laid) (depth : Nat)
    (lead : Lead) : (literalMove depth lead rest).Mirrors more (literalMove depth lead laid) := by
  unfold literalMove
  split
  · exact Option.some_ne_none _
  · rename_i criterion after read
    obtain ⟨laidAfter, laidRead, behind⟩ := literalBody_blind ends [] relaid read
    rw [show literal laid = _ from laidRead]
    exact ⟨laidAfter, rfl, behind⟩

theorem openingMove_mirrors (ends : EndsLine more) (relaid : Relaid more rest laid) (depth : Nat)
    (slot : Slot) : (openingMove depth slot rest).Mirrors more (openingMove depth slot laid) := by
  cases slot with
  | awaiting lead => exact ⟨laid, rfl, relaid.opens ends⟩
  | filled => exact complain_mirrors

theorem closingMove_mirrors (relaid : Relaid more rest laid) (depth : Nat) :
    (closingMove depth rest).Mirrors more (closingMove depth laid) := by
  cases depth with
  | zero => exact complain_mirrors
  | succ outer => exact ⟨laid, rfl, relaid⟩

theorem modifierMove_mirrors (relaid : Relaid more rest laid) (depth : Nat) (slot : Slot)
    (extend : Lead → Lead) :
    (modifierMove depth slot extend rest).Mirrors more (modifierMove depth slot extend laid) := by
  cases slot with
  | filled => exact complain_mirrors
  | awaiting lead =>
      simp only [modifierMove]
      split
      · exact complain_mirrors
      · split
        · exact complain_mirrors
        · exact ⟨laid, rfl, relaid⟩

theorem repeatMove_mirrors (ends : EndsLine more) (relaid : Relaid more rest laid) (depth : Nat)
    (slot : Slot) : (repeatMove depth slot rest).Mirrors more (repeatMove depth slot laid) := by
  unfold repeatMove
  split
  · split
    · exact Option.some_ne_none _
    · rename_i bounds after read
      obtain ⟨laidAfter, laidRead, behind⟩ := RepeatBounds.bounds_blind ends relaid read
      rw [laidRead]
      exact ⟨laidAfter, rfl, behind⟩
  · exact complain_mirrors

theorem collectMove_mirrors (ends : EndsLine more) (relaid : Relaid more rest laid) (depth : Nat)
    (slot : Slot) : (collectMove depth slot rest).Mirrors more (collectMove depth slot laid) := by
  have skipped := relaid.skipInlineBlanks ends
  cases slot with
  | awaiting lead => exact complain_mirrors
  | filled =>
      simp only [collectMove, skipped.word_eq ends]
      split
      · exact complain_mirrors
      · exact ⟨_, rfl, skipped.afterWord ends⟩

theorem keywordMove_mirrors (ends : EndsLine more) (relaid : Relaid more rest laid) (depth : Nat)
    (slot : Slot) (keyword : Keyword) (written : String) :
    (keywordMove depth slot keyword written rest).Mirrors more
      (keywordMove depth slot keyword written laid) := by
  have filling {edits : Lead → List Edit} {next : Place} :
      (constructMove slot rest fun lead => .go (edits lead) next rest).Mirrors more
        (constructMove slot laid fun lead => .go (edits lead) next laid) :=
    constructMove_mirrors fun lead => ⟨laid, rfl, relaid.laidAt ends next⟩
  cases keyword with
  | orElse | optionally | after | negated => exact modifierMove_mirrors relaid depth slot _
  | anyOf | noneOf | startOfText | endOfText => exact filling
  | times => exact repeatMove_mirrors ends relaid depth slot
  | collectAs => exact collectMove_mirrors ends relaid depth slot
  | anything | digit | forever | space | upTo | whitespace => exact complain_mirrors

theorem wordMove_mirrors (ends : EndsLine more) (relaid : Relaid more rest laid) (depth : Nat)
    (slot : Slot) : (wordMove depth slot rest).Mirrors more (wordMove depth slot laid) := by
  have behind := relaid.afterWord ends
  simp only [wordMove, relaid.word_eq ends]
  split
  · exact keywordMove_mirrors ends behind depth slot _ _
  · exact constructMove_mirrors fun lead => ⟨_, rfl, behind⟩

/-- In front of something visible that is no end of a line. -/
theorem lineMove_mirrors (ends : EndsLine more) {character : Char} {tail laidTail : List Char}
    (inLine : character ≠ '\n') (skipped : skipInlineBlanks rest = character :: tail)
    (laidSkipped : skipInlineBlanks laid = character :: laidTail)
    (behind : Relaid more tail laidTail) (depth : Nat) (slot : Slot) :
    (lineMove depth slot rest).Mirrors more (lineMove depth slot laid) := by
  unfold lineMove
  rw [skipped, laidSkipped]
  simp only [if_neg inLine]
  split
  · exact endMove_mirrors (closingMove_mirrors behind depth)
  · split
    · exact ⟨_, rfl, behind.skipLine ends⟩
    · split
      · exact constructMove_mirrors fun lead => literalMove_mirrors ends behind depth lead
      · split
        · exact openingMove_mirrors ends behind depth slot
        · split
          · exact wordMove_mirrors ends (.character inLine behind) depth slot
          · exact complain_mirrors

theorem elementMove_mirrors (ends : EndsLine more) (relaid : Relaid more rest laid)
    (owner : Owner) : (elementMove owner rest).Mirrors more (elementMove owner laid) := by
  have skipped := relaid.skipInlineBlanks ends
  unfold elementMove
  split
  · exact Option.some_ne_none _
  · rename_i criterion after read
    obtain ⟨laidAfter, laidRead, behind⟩ := element_blind ends skipped read
    have further := behind.skipInlineBlanks ends
    rw [laidRead]
    simp only
    split
    · rename_i tail atComma
      rw [atComma] at further
      obtain ⟨laidTail, laidComma, inList⟩ := further.of_cons (by decide)
      rw [laidComma]
      exact ⟨laidTail, rfl, inList⟩
    · rename_i noComma
      have commas : Inside fun character => character == ',' := inside_beq (by decide) (by decide)
      have sameHead := further.head?_any commas ends
      split
      · rename_i laidTail laidComma
        rw [laidComma] at sameHead
        cases left : skipInlineBlanks after with
        | nil =>
            rw [left] at sameHead
            cases sameHead
        | cons first tail =>
            rw [left] at sameHead
            have isComma : first = ',' := by simpa using sameHead.symm
            exact absurd (isComma ▸ left) (noComma tail)
      · exact ⟨_, rfl, further.laidAt ends owner.place⟩

/-! ## Moves between lines -/

theorem secondBar_blind (ends : EndsLine more) (relaid : Relaid more rest laid)
    {after : List Char} (read : secondBar rest = .ok after) :
    ∃ laidAfter, secondBar laid = .ok laidAfter ∧ Opens more after laidAfter := by
  unfold secondBar at read ⊢
  split at read
  · rename_i behindBar barRead
    obtain ⟨laidBehind, laidBar, behind⟩ := expect_blind (by decide) relaid barRead
    rw [laidBar]
    exact finishLine_blind ends behind read
  · cases read

theorem barsMove_mirrors (ends : EndsLine more) (relaid : Relaid more rest laid) (edit : Edit)
    {next : Place} (opening : ∀ {after laidAfter : List Char}, Opens more after laidAfter →
      next.Laid more after laidAfter) :
    (barsMove edit next rest).Mirrors more (barsMove edit next laid) := by
  unfold barsMove
  split
  · rename_i after read
    obtain ⟨laidAfter, laidRead, behind⟩ := secondBar_blind ends relaid read
    rw [laidRead]
    exact ⟨laidAfter, rfl, opening behind⟩
  · exact Option.some_ne_none _

theorem declarationMove_mirrors (ends : EndsLine more) (relaid : Relaid more rest laid)
    (declared : List String) (pending : Option String) :
    (declarationMove declared pending rest).Mirrors more
      (declarationMove declared pending laid) := by
  have behindName := relaid.afterWord ends
  simp only [declarationMove, relaid.word_eq ends, relaid.head?_any inside_isDigit ends]
  split
  · exact complain_mirrors
  · split
    · exact complain_mirrors
    · split
      · exact complain_mirrors
      · split
        · exact complain_mirrors
        · split
          · rename_i after read
            obtain ⟨laidAfter, laidRead, opens⟩ := finishLine_blind ends behindName read
            rw [laidRead]
            exact ⟨laidAfter, rfl, opens⟩
          · exact Option.some_ne_none _

theorem rulesMove_mirrors (ends : EndsLine more) {character : Char} {tail laidTail : List Char}
    (visible : isBlank character = false) (noComment : character ≠ '#')
    (behind : Relaid more tail laidTail) (depth : Nat) :
    (rulesMove depth (character :: tail)).Mirrors more
      (rulesMove depth (character :: laidTail)) := by
  have skipped (rest : List Char) : skipBlanks (character :: rest) = character :: rest := by
    simp [skipBlanks, visible]
  have inLine : character ≠ '\n' := by
    rintro rfl
    cases visible
  unfold rulesMove
  rw [skipped, skipped]
  simp only [if_neg noComment]
  split
  · split
    · exact barsMove_mirrors ends behind _ id
    · exact complain_mirrors
  · split
    · exact closingMove_mirrors behind depth
    · exact lineMove_mirrors ends inLine (skipInlineBlanks_of_visible visible tail)
        (skipInlineBlanks_of_visible visible laidTail) behind depth _

theorem behind_mirrors {move other : Move} (edits : List Edit) (mirrors : move.Mirrors more other) :
    (move.behind edits).Mirrors more (other.behind edits) := by
  cases move with
  | stop => exact mirrors
  | go later next after =>
      obtain ⟨laidAfter, rfl, laidNext⟩ := mirrors
      exact ⟨laidAfter, rfl, laidNext⟩
  | declare name after =>
      obtain ⟨laidAfter, rfl, opens⟩ := mirrors
      exact ⟨laidAfter, rfl, opens⟩

theorem topMove_mirrors (ends : EndsLine more) {character : Char} {tail laidTail : List Char}
    (visible : isBlank character = false) (noComment : character ≠ '#')
    (behind : Relaid more tail laidTail) (declared : List String) (pending : Option String) :
    (topMove declared pending (character :: tail)).Mirrors more
      (topMove declared pending (character :: laidTail)) := by
  have skipped (rest : List Char) : skipBlanks (character :: rest) = character :: rest := by
    simp [skipBlanks, visible]
  have inLine : character ≠ '\n' := by
    rintro rfl
    cases visible
  unfold topMove
  rw [skipped, skipped]
  simp only [if_neg noComment]
  split
  · exact declarationMove_mirrors ends behind declared pending
  · split
    · exact barsMove_mirrors ends behind _ id
    · cases pending with
      | none => exact complain_mirrors
      | some name => exact behind_mirrors _ (elementMove_mirrors ends (.character inLine behind) _)

/-! ## On the way to the next line -/

theorem skipGap_skipBlanks (rest : List Char) :
    skipGap false (skipBlanks rest) = skipGap false rest := by
  induction rest with
  | nil => rfl
  | cons character rest inductionHypothesis =>
      cases blank : isBlank character with
      | false => rw [show skipBlanks (character :: rest) = character :: rest by
          simp [skipBlanks, blank]]
      | true =>
          rw [skipGap, if_pos blank, ← inductionHypothesis]
          simp [skipBlanks, blank]

theorem skipGap_skipLine (rest : List Char) :
    skipGap false (skipLine rest) = skipGap true rest := by
  induction rest with
  | nil => rfl
  | cons character rest inductionHypothesis =>
      by_cases atNewline : character = '\n'
      · subst atNewline
        rfl
      · rw [skipGap, if_neg atNewline, ← inductionHypothesis]
        simp [skipLine, atNewline]

theorem skipGap_of_comment {tail : List Char} (skipped : skipBlanks rest = '#' :: tail) :
    skipGap false (skipLine tail) = skipGap false rest := by
  rw [← skipGap_skipBlanks rest, skipped, skipGap_skipLine]
  rfl

theorem isBlank_of_skipBlanks {character : Char} {tail : List Char}
    (skipped : skipBlanks rest = character :: tail) : isBlank character = false := by
  have visible := List.head?_dropWhile_not isBlank rest
  rw [show rest.dropWhile isBlank = skipBlanks rest from rfl, skipped] at visible
  simpa using visible

theorem skipGap_of_visible {character : Char} {tail : List Char}
    (skipped : skipBlanks rest = character :: tail) (noComment : character ≠ '#') :
    skipGap false rest = character :: tail := by
  rw [← skipGap_skipBlanks, skipped, skipGap, if_neg (by simp [isBlank_of_skipBlanks skipped]),
    if_neg noComment]

/-- A place that reads over blanks and comments stands between lines. -/
structure BetweenLines (declared : List String) (place : Place) : Prop where
  skips : ∀ rest : List Char, place.move declared (skipBlanks rest) = place.move declared rest
  comment : ∀ rest : List Char, place.move declared ('#' :: rest) = .go [] place (skipLine rest)

theorem skipBlanks_skipBlanks (rest : List Char) : skipBlanks (skipBlanks rest) = skipBlanks rest :=
  List.dropWhile_idempotent _ _

theorem betweenLines_top (declared : List String) (pending : Option String) :
    BetweenLines declared (.top pending) where
  skips := by
    intro rest
    show topMove declared pending _ = topMove declared pending _
    unfold topMove
    rw [skipBlanks_skipBlanks]
  comment := fun _ => rfl

theorem betweenLines_rules (declared : List String) (depth : Nat) :
    BetweenLines declared (.rules depth) where
  skips := by
    intro rest
    show rulesMove depth _ = rulesMove depth _
    unfold rulesMove
    rw [skipBlanks_skipBlanks]
  comment := fun _ => rfl

theorem BetweenLines.blank {declared : List String} {place : Place}
    (between : BetweenLines declared place) {character : Char} (blank : isBlank character)
    (rest : List Char) : place.move declared (character :: rest) = place.move declared rest := by
  rw [← between.skips (character :: rest), ← between.skips rest, skipBlanks,
    List.dropWhile_cons_of_pos blank]
  rfl

end Place

namespace Reading

open Place

variable {declared : List String}

/-- Inside a comment the reading goes on behind its line. -/
theorem onward_skipGap {place : Place} (between : BetweenLines declared place) (rest : List Char)
    (inComment : Bool) : onward declared place (skipGap inComment rest) =
      onward declared place (if inComment then skipLine rest else rest) := by
  induction rest generalizing inComment with
  | nil => cases inComment <;> rfl
  | cons character rest inductionHypothesis =>
      cases inComment with
      | true =>
          by_cases atNewline : character = '\n'
          · subst atNewline
            rw [skipGap_newline, inductionHypothesis false]
            exact (onward_congr (between.blank (by decide) rest)).symm
          · rw [skipGap, if_neg atNewline, inductionHypothesis true, if_pos rfl, if_pos rfl]
            simp [skipLine, atNewline]
      | false =>
          rw [skipGap]
          split
          · rename_i blank
            rw [inductionHypothesis false]
            exact (onward_congr (between.blank blank rest)).symm
          · split
            · rename_i comment
              subst comment
              rw [inductionHypothesis true, if_pos rfl, if_neg (by decide),
                onward_go (between.comment rest), behind_nil]
            · rfl

theorem onward_of_skipGap {place : Place} (between : BetweenLines declared place)
    {rest other : List Char} (same : skipGap false rest = skipGap false other) :
    onward declared place rest = onward declared place other := by
  have skipped := onward_skipGap between rest false
  rw [same, onward_skipGap between other false] at skipped
  exact skipped.symm

theorem onward_trail {depth : Nat} {slot : Slot} {trail ended : List Char}
    (isTrail : LineTrail trail) (ends : EndsLine ended) :
    onward declared (.line depth slot) (trail ++ ended) =
      onward declared (.line depth slot) ended := by
  induction isTrail with
  | nothing => rfl
  | blank isInline _ inductionHypothesis =>
      rw [← inductionHypothesis, ← onward_line_skip, List.cons_append, skipInlineBlanks,
        List.dropWhile_cons_of_pos isInline]
      exact onward_line_skip declared depth slot _
  | @comment text inLine =>
      have moved : lineMove depth slot ('#' :: (text ++ ended)) =
          .go [] (.line depth slot) (skipLine (text ++ ended)) := rfl
      rw [List.cons_append, onward_line moved, behind_nil, skipLine_append inLine ends]

end Reading

/-! ## Steps -/

open Reading Place

/-- How a reader gets on in two layouts of a text, one move in the first. -/
inductive LaidStep (declared : List String) (more : List Char) (place : Place)
    (rest laid : List Char) : Prop where
  /-- A comment in the first text, which the second may have or not. -/
  | skipped {tail : List Char} (moved : place.move declared rest = .go [] place tail)
      (onward : place.Laid more tail laid) : LaidStep declared more place rest laid
  | mirrored {laidStart : List Char}
      (same : onward declared place laid = onward declared place laidStart)
      (mirrors : (place.move declared rest).Mirrors more (place.move declared laidStart)) :
      LaidStep declared more place rest laid
  /-- The first text has come to its end, and the second to what is behind. -/
  | ended (moved : place.move declared rest = .stop [] none) (atTop : place = .top none)
      (same : onward declared place laid = onward declared place more) :
      LaidStep declared more place rest laid

section Steps

variable {declared : List String} {place : Place}

/-- Between lines: a comment is skipped, or both texts go on with the same visible character, or the
first text is at its end. -/
theorem Place.BetweenLines.step (between : BetweenLines declared place)
    (laidAlike : ∀ tail, Opens more tail laid → place.Laid more tail laid)
    (visible : ∀ {character : Char} {tail laidTail : List Char}, isBlank character = false →
      character ≠ '#' → Relaid more tail laidTail →
        (place.move declared (character :: tail)).Mirrors more
          (place.move declared (character :: laidTail)))
    (atEnd : place = .top none ∨ (place.move declared []).Mirrors more (place.move declared laid))
    (opens : Opens more rest laid) : LaidStep declared more place rest laid := by
  have moves := between.skips rest
  cases start : skipBlanks rest with
  | nil =>
      rw [start] at moves
      rcases atEnd with rfl | mirrors
      · cases opens with
        | visible _ _ skipped _ _ =>
            rw [← skipGap_skipBlanks, start] at skipped
            cases skipped
        | ended _ laidSkipped =>
            exact .ended moves.symm rfl (onward_of_skipGap between laidSkipped)
      · exact .mirrored rfl (moves ▸ mirrors)
  | cons character tail =>
      rw [start] at moves
      by_cases comment : character = '#'
      · subst comment
        rw [between.comment] at moves
        exact .skipped moves.symm (laidAlike _ (opens.congr (skipGap_of_comment start) rfl))
      · have isVisible := isBlank_of_skipBlanks start
        have skipped := skipGap_of_visible start comment
        cases opens with
        | ended empty _ =>
            rw [skipped] at empty
            cases empty
        | @visible first firstTail laidTail _ _ sameStart laidStart behind =>
            rw [skipped] at sameStart
            cases sameStart
            have itself : skipGap false (character :: laidTail) = character :: laidTail := by
              rw [skipGap, if_neg (by simp [isVisible]), if_neg comment]
            exact .mirrored (onward_of_skipGap between (laidStart.trans itself.symm))
              (moves ▸ visible isVisible comment behind)

theorem lineMove_newline (depth : Nat) (slot : Slot) (rest tail : List Char)
    (skipped : skipInlineBlanks rest = '\n' :: tail) :
    lineMove depth slot rest = endMove slot ('\n' :: tail) (.go [] (.rules depth) tail) := by
  rw [lineMove, skipped]
  rfl

theorem line_step (ends : EndsLine more) (depth : Nat) (slot : Slot)
    (relaid : Relaid more rest laid) :
    LaidStep declared more (.line depth slot) rest laid := by
  have skipped := relaid.skipInlineBlanks ends
  cases start : skipInlineBlanks rest with
  | nil =>
      refine .mirrored rfl ?_
      show (lineMove depth slot rest).Mirrors more _
      rw [lineMove, start]
      cases slot <;> exact Option.some_ne_none _
  | cons character tail =>
      rw [start] at skipped
      by_cases atNewline : character = '\n'
      · subst atNewline
        generalize laidStart : skipInlineBlanks laid = shown at skipped
        cases skipped with
        | character inLine _ => exact absurd rfl inLine
        | @newline trail gap _ laidTail isTrail isGap behind =>
            have same : onward declared (.line depth slot) laid =
                onward declared (.line depth slot) ('\n' :: (gap ++ laidTail)) := by
              rw [← onward_line_skip, laidStart, onward_trail isTrail (endsLine_newline _)]
            refine .mirrored same ?_
            show (lineMove depth slot rest).Mirrors more
              (lineMove depth slot ('\n' :: (gap ++ laidTail)))
            rw [lineMove_newline depth slot rest tail start,
              lineMove_newline depth slot _ (gap ++ laidTail) rfl]
            exact endMove_mirrors
              ⟨_, rfl, (behind.opens ends).congr rfl (isGap.skipGap_append laidTail)⟩
      · obtain ⟨laidTail, laidStart, behind⟩ := skipped.of_cons atNewline
        exact .mirrored rfl (lineMove_mirrors ends atNewline start laidStart behind depth slot)

theorem laid_step (ends : EndsLine more) (alike : place.Laid more rest laid) :
    LaidStep declared more place rest laid := by
  cases place with
  | top pending =>
      refine (betweenLines_top declared pending).step (fun _ => id)
        (fun visible noComment behind =>
          topMove_mirrors ends visible noComment behind declared pending) ?_ alike
      cases pending with
      | none => exact Or.inl rfl
      | some name => exact Or.inr complain_mirrors
  | rules depth =>
      exact (betweenLines_rules declared depth).step (fun _ => id)
        (fun visible noComment behind => rulesMove_mirrors ends visible noComment behind depth)
        (Or.inr complain_mirrors) alike
  | line depth slot => exact line_step ends depth slot alike
  | elements owner => exact .mirrored rfl (elementMove_mirrors ends alike owner)

end Steps

end PlainPattern
