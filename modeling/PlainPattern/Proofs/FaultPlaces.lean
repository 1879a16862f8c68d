import PlainPattern.Source.Reading

/-!
Contract: a fault never leaves the text in which it arises.

Owns: `FaultsIn`, which says of what a reader comes to that the text left unread by a fault is a
final stretch of the text it was given; the proof that each reader keeps to it (a reader that goes
on behind another one leaves a final stretch of a final stretch); `Move.FaultsIn`, the same of one
move; and `Reading.fault_suffix`, the same of a whole reading, since every move leaves a final
stretch too.
-/

set_option autoImplicit false

namespace PlainPattern

open Text Lexeme Element

/-- What a fault leaves unread is a final stretch of this text. -/
def FaultsIn {Value : Type} (text : List Char) (outcome : Except Fault Value) : Prop :=
  ∀ fault, outcome = .error fault → fault.rest <:+ text

section Outcomes

variable {Value : Type} {text : List Char}

theorem faultsIn_ok (value : Value) : FaultsIn text (.ok value) := by
  intro fault failed
  cases failed

theorem faultsIn_fault {rest : List Char} (complaint : Complaint) (inside : rest <:+ text) :
    FaultsIn text (fault complaint rest : Except Fault Value) := by
  intro other failed
  cases failed
  exact inside

/-- A fault that is passed on lies where it arose. -/
theorem FaultsIn.passOn {Inner : Type} {inner : Except Fault Inner} {limit : List Char}
    {fault : Fault} (inside : FaultsIn limit inner) (failed : inner = .error fault)
    (suffix : limit <:+ text) : FaultsIn text (.error fault : Except Fault Value) := by
  intro other same
  cases same
  exact (inside fault failed).trans suffix

theorem FaultsIn.mono {limit : List Char} {outcome : Except Fault Value}
    (inside : FaultsIn limit outcome) (suffix : limit <:+ text) : FaultsIn text outcome :=
  fun fault failed => (inside fault failed).trans suffix

end Outcomes

/-! ## Readers -/

namespace Lexeme

theorem expect_faultsIn (expected : Char) (rest : List Char) :
    FaultsIn rest (expect expected rest) := by
  unfold expect
  split
  · exact faultsIn_fault _ (List.suffix_refl _)
  · split
    · exact faultsIn_ok _
    · exact faultsIn_fault _ (List.suffix_refl _)

theorem finishLine_faultsIn (rest : List Char) : FaultsIn rest (finishLine rest) := by
  have skipped : skipComment (skipInlineBlanks rest) <:+ rest :=
    (skipComment_suffix _).trans (skipInlineBlanks_suffix rest)
  unfold finishLine
  split
  · exact faultsIn_ok _
  · exact faultsIn_ok _
  · exact faultsIn_fault _ skipped

theorem count_faultsIn (rest : List Char) : FaultsIn rest (count rest) := by
  unfold count
  simp only
  split
  · exact faultsIn_fault _ (List.suffix_refl rest)
  · split
    · exact faultsIn_fault _ (List.dropWhile_suffix _)
    · exact faultsIn_ok _

end Lexeme

namespace RepeatBounds

theorem upperBound_faultsIn (min : Nat) (rest : List Char) :
    FaultsIn rest (upperBound min rest) := by
  unfold upperBound
  split
  · exact faultsIn_ok _
  · split
    · rename_i failed
      exact (count_faultsIn rest).passOn failed (List.suffix_refl rest)
    · rename_i counted
      split
      · exact faultsIn_fault _ (count_suffix counted)
      · exact faultsIn_ok _

theorem behindMinimum_faultsIn (min : Nat) (rest : List Char) :
    FaultsIn rest (behindMinimum min rest) := by
  unfold behindMinimum
  split
  · rename_i after announced
    have inside : skipInlineBlanks after <:+ rest :=
      (skipInlineBlanks_suffix after).trans
        ((afterKeyword?_suffix announced).trans (skipInlineBlanks_suffix rest))
    exact (upperBound_faultsIn min _).mono inside
  · exact faultsIn_ok _

theorem bounds_faultsIn (rest : List Char) : FaultsIn rest (bounds rest) := by
  unfold bounds
  split
  · exact faultsIn_ok _
  · split
    · rename_i failed
      exact (count_faultsIn _).passOn failed (skipInlineBlanks_suffix rest)
    · rename_i min after counted
      have inside : after <:+ rest := (count_suffix counted).trans (skipInlineBlanks_suffix rest)
      split
      · exact faultsIn_fault _ inside
      · exact (behindMinimum_faultsIn min after).mono inside

end RepeatBounds

namespace Element

theorem hexDigits_faultsIn (digits value : Nat) (rest : List Char) :
    FaultsIn rest (hexDigits value digits rest) := by
  induction digits generalizing value rest with
  | zero => exact faultsIn_ok _
  | succ digits inductionHypothesis =>
      unfold hexDigits
      split
      · exact faultsIn_fault _ (List.suffix_refl _)
      · split
        · exact (inductionHypothesis _ _).mono (List.suffix_cons _ _)
        · exact faultsIn_fault _ (List.suffix_refl _)

theorem codePoint_faultsIn (rest : List Char) : FaultsIn rest (codePoint rest) := by
  unfold codePoint
  split
  · rename_i failed
    exact (hexDigits_faultsIn 4 0 rest).passOn failed (List.suffix_refl rest)
  · rename_i read
    split
    · exact faultsIn_ok _
    · exact faultsIn_fault _ (hexDigits_suffix read)

theorem escape_faultsIn (rest : List Char) : FaultsIn rest (escape rest) := by
  unfold escape
  split
  · exact faultsIn_fault _ (List.suffix_refl _)
  · rename_i character tail
    split
    · exact faultsIn_ok _
    · split
      · exact faultsIn_ok _
      · split
        · exact faultsIn_ok _
        · split
          · exact (codePoint_faultsIn tail).mono (List.suffix_cons _ _)
          · split
            · exact faultsIn_ok _
            · exact faultsIn_fault _ (List.suffix_refl _)

theorem variableName_faultsIn (rest : List Char) : FaultsIn rest (variableName rest) := by
  unfold variableName
  simp only
  split
  · exact faultsIn_fault _ (afterWord_suffix rest)
  · split
    · exact faultsIn_ok _
    · rename_i failed
      exact (expect_faultsIn _ _).passOn failed (afterWord_suffix rest)

theorem literalBody_faultsIn (text rest : List Char) : FaultsIn rest (literalBody text rest) := by
  -- The body goes on behind an escape and behind a plain character, in a shorter text.
  fun_induction literalBody text rest with
  | case1 => exact faultsIn_fault _ (List.suffix_refl _)
  | case2 => exact faultsIn_fault _ (List.suffix_refl _)
  | case3 => exact faultsIn_fault _ (List.suffix_cons _ _)
  | case4 => exact faultsIn_ok _
  | case5 => exact (variableName_faultsIn _).mono (List.suffix_cons _ _)
  | case6 => exact faultsIn_fault _ (List.suffix_refl _)
  | case7 text tail meant behind escaped _ _ _ inductionHypothesis =>
      exact inductionHypothesis.mono ((escape_suffix escaped).trans (List.suffix_cons _ _))
  | case8 text tail fault failed =>
      exact (escape_faultsIn tail).passOn failed (List.suffix_cons _ _)
  | case9 _ _ _ _ _ _ _ _ inductionHypothesis =>
      exact inductionHypothesis.mono (List.suffix_cons _ _)
  | case10 => exact faultsIn_fault _ (List.suffix_refl _)

theorem elementCharacter_faultsIn (character : Char) (tail : List Char) :
    FaultsIn tail (elementCharacter character tail) := by
  unfold elementCharacter
  split
  · exact escape_faultsIn tail
  · exact faultsIn_ok _

theorem rangeEnd_faultsIn (rest : List Char) : FaultsIn rest (rangeEnd rest) := by
  unfold rangeEnd
  split
  · exact faultsIn_fault _ List.nil_suffix
  · rename_i character tail atCharacter
    have inside : character :: tail <:+ rest := atCharacter ▸ skipInlineBlanks_suffix rest
    split
    · exact (elementCharacter_faultsIn character tail).mono
        ((List.suffix_cons _ _).trans inside)
    · exact faultsIn_fault _ inside

theorem characterOrRange_faultsIn (character : Char) (tail : List Char) :
    FaultsIn tail (characterOrRange character tail) := by
  unfold characterOrRange
  split
  · rename_i failed
    exact (elementCharacter_faultsIn character tail).passOn failed (List.suffix_refl tail)
  · rename_i read
    split
    · exact faultsIn_ok _
    · rename_i announced
      have inside := (afterKeyword?_suffix announced).trans
        ((skipInlineBlanks_suffix _).trans (elementCharacter_suffix read))
      split
      · exact faultsIn_ok _
      · rename_i failed
        exact (rangeEnd_faultsIn _).passOn failed inside

theorem element_faultsIn (rest : List Char) : FaultsIn rest (element rest) := by
  unfold element
  split
  · exact faultsIn_fault _ (List.suffix_refl _)
  · rename_i character tail
    split
    · exact faultsIn_fault _ (List.suffix_refl _)
    · split
      · exact faultsIn_fault _ (List.suffix_refl _)
      · split
        · exact (literalBody_faultsIn [] tail).mono (List.suffix_cons _ _)
        · split
          · exact faultsIn_ok _
          · split
            · exact (characterOrRange_faultsIn character tail).mono (List.suffix_cons _ _)
            · exact faultsIn_fault _ (List.suffix_refl _)

end Element

/-! ## Moves -/

namespace Move

/-- If the move stops with a fault, what the fault leaves unread is a final stretch of this text. -/
def FaultsIn (text : List Char) : Move → Prop
  | .stop _ (some fault) => fault.rest <:+ text
  | _ => True

variable {text limit rest : List Char}

theorem FaultsIn.mono {move : Move} (inside : move.FaultsIn limit) (suffix : limit <:+ text) :
    move.FaultsIn text := by
  cases move with
  | go => trivial
  | declare => trivial
  | stop edits fault =>
      cases fault with
      | none => trivial
      | some fault => exact List.IsSuffix.trans inside suffix

theorem FaultsIn.behind {move : Move} (inside : move.FaultsIn text) (edits : List Edit) :
    (move.behind edits).FaultsIn text := by
  cases move with
  | go => trivial
  | declare => trivial
  | stop later fault =>
      cases fault with
      | none => trivial
      | some fault => exact inside

theorem complain_faultsIn (complaint : Complaint) (inside : rest <:+ text) :
    (complain complaint rest).FaultsIn text :=
  inside

/-- A move that stops because a reader fails. -/
theorem stop_faultsIn {Value : Type} {outcome : Except Fault Value} {fault : Fault}
    (edits : List Edit) (inside : PlainPattern.FaultsIn limit outcome)
    (failed : outcome = .error fault) (suffix : limit <:+ text) :
    (stop edits (some fault)).FaultsIn text :=
  (inside fault failed).trans suffix

end Move

namespace Place

open Move

variable {text rest : List Char} {slot : Slot}

theorem constructMove_faultsIn {construct : Lead → Move} (inside : rest <:+ text)
    (each : ∀ lead, (construct lead).FaultsIn text) :
    (constructMove slot rest construct).FaultsIn text := by
  cases slot with
  | awaiting lead => exact each lead
  | filled => exact complain_faultsIn _ inside

theorem endMove_faultsIn {ended : Move} (inside : rest <:+ text)
    (endedInside : ended.FaultsIn text) : (endMove slot rest ended).FaultsIn text := by
  cases slot with
  | awaiting => exact complain_faultsIn _ inside
  | filled => exact endedInside

theorem closingMove_faultsIn (depth : Nat) (tail : List Char) :
    (closingMove depth tail).FaultsIn ('\x7d' :: tail) := by
  cases depth with
  | zero => exact complain_faultsIn _ (List.suffix_refl _)
  | succ => trivial

theorem openingMove_faultsIn (depth : Nat) (slot : Slot) (tail : List Char) :
    (openingMove depth slot tail).FaultsIn ('\x7b' :: tail) := by
  cases slot with
  | awaiting => trivial
  | filled => exact complain_faultsIn _ (List.suffix_refl _)

theorem literalMove_faultsIn (depth : Nat) (lead : Lead) (tail : List Char) :
    (literalMove depth lead tail).FaultsIn tail := by
  unfold literalMove
  split
  · rename_i failed
    exact stop_faultsIn _ (literalBody_faultsIn [] tail) failed (List.suffix_refl tail)
  · trivial

theorem modifierMove_faultsIn (depth : Nat) (slot : Slot) (extend : Lead → Lead)
    (after : List Char) : (modifierMove depth slot extend after).FaultsIn after := by
  have here := List.suffix_refl after
  unfold modifierMove
  split
  · exact complain_faultsIn _ here
  · simp only
    split
    · exact complain_faultsIn _ here
    · split
      · exact complain_faultsIn _ here
      · trivial

theorem repeatMove_faultsIn (depth : Nat) (slot : Slot) (after : List Char) :
    (repeatMove depth slot after).FaultsIn after := by
  unfold repeatMove
  split
  · split
    · rename_i failed
      exact stop_faultsIn _ (RepeatBounds.bounds_faultsIn after) failed (List.suffix_refl after)
    · trivial
  · exact complain_faultsIn _ (List.suffix_refl after)

theorem collectMove_faultsIn (depth : Nat) (slot : Slot) (after : List Char) :
    (collectMove depth slot after).FaultsIn after := by
  unfold collectMove
  split
  · exact complain_faultsIn _ (List.suffix_refl after)
  · simp only
    split
    · exact complain_faultsIn _ (skipInlineBlanks_suffix after)
    · trivial

theorem keywordMove_faultsIn (depth : Nat) (slot : Slot) (keyword : Keyword) (written : String)
    (after : List Char) : (keywordMove depth slot keyword written after).FaultsIn after := by
  have here := List.suffix_refl after
  have filling {edits : Lead → List Edit} {place : Place} :
      (constructMove slot after fun lead => .go (edits lead) place after).FaultsIn after :=
    constructMove_faultsIn here fun _ => trivial
  cases keyword with
  | orElse | optionally | after | negated => exact modifierMove_faultsIn _ _ _ _
  | anyOf | noneOf | startOfText | endOfText => exact filling
  | times => exact repeatMove_faultsIn _ _ _
  | collectAs => exact collectMove_faultsIn _ _ _
  | anything | digit | forever | space | upTo | whitespace => exact complain_faultsIn _ here

theorem wordMove_faultsIn (depth : Nat) (slot : Slot) (rest : List Char) :
    (wordMove depth slot rest).FaultsIn rest := by
  have behind : afterWord rest <:+ rest := afterWord_suffix rest
  unfold wordMove
  simp only
  split
  · exact (keywordMove_faultsIn _ _ _ _ _).mono behind
  · exact constructMove_faultsIn behind fun _ => trivial

theorem lineMove_faultsIn (depth : Nat) (slot : Slot) (rest : List Char) :
    (lineMove depth slot rest).FaultsIn rest := by
  unfold lineMove
  split
  · exact endMove_faultsIn List.nil_suffix (complain_faultsIn _ List.nil_suffix)
  · rename_i character tail atCharacter
    have inside : character :: tail <:+ rest := atCharacter ▸ skipInlineBlanks_suffix rest
    split
    · exact endMove_faultsIn inside trivial
    · split
      · rename_i isBrace
        subst isBrace
        exact endMove_faultsIn inside ((closingMove_faultsIn depth tail).mono inside)
      · split
        · trivial
        · split
          · refine constructMove_faultsIn inside fun lead => ?_
            exact (literalMove_faultsIn depth lead tail).mono ((List.suffix_cons _ _).trans inside)
          · split
            · rename_i isBrace
              subst isBrace
              exact (openingMove_faultsIn depth slot tail).mono inside
            · split
              · exact (wordMove_faultsIn depth slot (character :: tail)).mono inside
              · exact complain_faultsIn _ inside

theorem elementMove_faultsIn (owner : Owner) (rest : List Char) :
    (elementMove owner rest).FaultsIn rest := by
  unfold elementMove
  split
  · rename_i failed
    exact stop_faultsIn _ (element_faultsIn _) failed (skipInlineBlanks_suffix rest)
  · split <;> trivial

theorem secondBar_faultsIn (tail : List Char) : PlainPattern.FaultsIn tail (secondBar tail) := by
  unfold secondBar
  split
  · rename_i after barRead
    exact (finishLine_faultsIn after).mono (expect_suffix barRead)
  · rename_i failed
    exact (expect_faultsIn '|' tail).passOn failed (List.suffix_refl tail)

theorem barsMove_faultsIn (edit : Edit) (next : Place) (tail : List Char) :
    (barsMove edit next tail).FaultsIn tail := by
  unfold barsMove
  split
  · trivial
  · rename_i failed
    exact stop_faultsIn _ (secondBar_faultsIn tail) failed (List.suffix_refl tail)

theorem rulesMove_faultsIn (depth : Nat) (rest : List Char) :
    (rulesMove depth rest).FaultsIn rest := by
  unfold rulesMove
  split
  · exact complain_faultsIn _ List.nil_suffix
  · rename_i character tail atCharacter
    have inside : character :: tail <:+ rest := atCharacter ▸ skipBlanks_suffix rest
    split
    · split
      · exact (barsMove_faultsIn _ _ tail).mono ((List.suffix_cons _ _).trans inside)
      · exact complain_faultsIn _ inside
    · split
      · trivial
      · split
        · rename_i isBrace
          subst isBrace
          exact (closingMove_faultsIn depth tail).mono inside
        · exact (lineMove_faultsIn depth _ (character :: tail)).mono inside

theorem declarationMove_faultsIn (declared : List String) (pending : Option String)
    (tail : List Char) : (declarationMove declared pending tail).FaultsIn tail := by
  have behind : afterWord tail <:+ tail := afterWord_suffix tail
  unfold declarationMove
  simp only
  split
  · exact complain_faultsIn _ (List.suffix_refl tail)
  · split
    · exact complain_faultsIn _ behind
    · split
      · exact complain_faultsIn _ behind
      · split
        · exact complain_faultsIn _ behind
        · split
          · trivial
          · rename_i failed
            exact stop_faultsIn _ (finishLine_faultsIn _) failed behind

theorem topMove_faultsIn (declared : List String) (pending : Option String) (rest : List Char) :
    (topMove declared pending rest).FaultsIn rest := by
  unfold topMove
  split
  · trivial
  · exact complain_faultsIn _ List.nil_suffix
  · rename_i character tail atCharacter
    have inside : character :: tail <:+ rest := atCharacter ▸ skipBlanks_suffix rest
    have tailInside : tail <:+ rest := (List.suffix_cons _ _).trans inside
    split
    · exact (declarationMove_faultsIn declared _ tail).mono tailInside
    · split
      · exact (barsMove_faultsIn _ _ tail).mono tailInside
      · split
        · trivial
        · split
          · exact ((elementMove_faultsIn .charset _).mono inside).behind _
          · exact complain_faultsIn _ inside

/-- Wherever a move stops with a fault, it has not left the text that it was given. -/
theorem move_faultsIn (declared : List String) (place : Place) (rest : List Char) :
    (place.move declared rest).FaultsIn rest := by
  cases place with
  | top pending => exact topMove_faultsIn declared pending rest
  | rules depth => exact rulesMove_faultsIn depth rest
  | line depth slot => exact lineMove_faultsIn depth slot rest
  | elements owner => exact elementMove_faultsIn owner rest

end Place

/-! ## Readings -/

/-- What the fault of a reading leaves unread is a final stretch of the whole text: each move goes
on in a final stretch of what it was given, and the last one faults in it. -/
theorem Reading.fault_suffix {declared : List String} {place : Place} {rest : List Char}
    {fault : Fault} (failed : (onward declared place rest).fault = some fault) :
    fault.rest <:+ rest := by
  fun_induction onward declared place rest with
  | case1 declared place rest edits found moved =>
      have inside := place.move_faultsIn declared rest
      rw [moved] at inside
      obtain rfl : found = some fault := failed
      exact inside
  | case2 declared place rest edits next after moved inductionHypothesis =>
      have advances := place.move_advances declared rest
      rw [moved] at advances
      exact (inductionHypothesis failed).trans advances.1
  | case3 declared place rest name after moved inductionHypothesis =>
      have advances := place.move_advances declared rest
      rw [moved] at advances
      exact (inductionHypothesis failed).trans advances.1

end PlainPattern
