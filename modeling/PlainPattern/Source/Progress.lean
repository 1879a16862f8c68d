import PlainPattern.Source.Place

/-!
Contract: a reader never stands still and never goes back.

Owns: the proof that every move stops or takes at least one character. `move_advances` says that
what a move leaves unread is a final stretch of the text it was given, and a shorter one; reading a
text is a recursion on its length for this reason alone.
-/

set_option autoImplicit false

namespace PlainPattern

namespace Move

/-- What the move leaves unread is a final stretch of `rest`. -/
def StaysIn (rest : List Char) : Move → Prop
  | .stop _ _ => True
  | .go _ _ after => after <:+ rest
  | .declare _ after => after <:+ rest

/-- The move stops, or leaves a final stretch of `rest` that is shorter. -/
def Advances (rest : List Char) : Move → Prop
  | .stop _ _ => True
  | .go _ _ after => after <:+ rest ∧ after.length < rest.length
  | .declare _ after => after <:+ rest ∧ after.length < rest.length

end Move

namespace Place

open Text Lexeme Element

private theorem advances_of_staysIn {move : Move} {character : Char} {tail rest : List Char}
    (inTail : move.StaysIn tail) (inside : character :: tail <:+ rest) : move.Advances rest := by
  have shorter {after : List Char} (suffix : after <:+ tail) :
      after <:+ rest ∧ after.length < rest.length :=
    ⟨(suffix.trans (List.suffix_cons _ _)).trans inside,
      Nat.lt_of_lt_of_le (Nat.lt_succ_of_le suffix.length_le) inside.length_le⟩
  cases move with
  | stop => trivial
  | go => exact shorter inTail
  | declare => exact shorter inTail

private theorem staysIn_constructMove {slot : Slot} {rest limit : List Char}
    {construct : Lead → Move} (inside : ∀ lead, (construct lead).StaysIn limit) :
    (constructMove slot rest construct).StaysIn limit := by
  cases slot with
  | awaiting lead => exact inside lead
  | filled => trivial

private theorem staysIn_endMove {slot : Slot} {rest limit : List Char} {ended : Move}
    (inside : ended.StaysIn limit) : (endMove slot rest ended).StaysIn limit := by
  cases slot with
  | awaiting => trivial
  | filled => exact inside

private theorem staysIn_closingMove (depth : Nat) (tail : List Char) :
    (closingMove depth tail).StaysIn tail := by
  cases depth with
  | zero => trivial
  | succ => exact List.suffix_refl tail

private theorem staysIn_openingMove (depth : Nat) (slot : Slot) (tail : List Char) :
    (openingMove depth slot tail).StaysIn tail := by
  cases slot with
  | awaiting => exact List.suffix_refl tail
  | filled => trivial

private theorem staysIn_literalMove (depth : Nat) (lead : Lead) (tail : List Char) :
    (literalMove depth lead tail).StaysIn tail := by
  unfold literalMove
  split
  · trivial
  · rename_i read
    exact literalBody_suffix [] tail read

private theorem staysIn_modifierMove (depth : Nat) (slot : Slot) (extend : Lead → Lead)
    (after : List Char) : (modifierMove depth slot extend after).StaysIn after := by
  unfold modifierMove
  split
  · trivial
  · simp only
    split
    · trivial
    · split
      · trivial
      · exact List.suffix_refl after

private theorem staysIn_repeatMove (depth : Nat) (slot : Slot) (after : List Char) :
    (repeatMove depth slot after).StaysIn after := by
  unfold repeatMove
  split
  · split
    · trivial
    · rename_i read
      exact RepeatBounds.bounds_suffix read
  · trivial

private theorem staysIn_collectMove (depth : Nat) (slot : Slot) (after : List Char) :
    (collectMove depth slot after).StaysIn after := by
  unfold collectMove
  split
  · trivial
  · simp only
    split
    · trivial
    · exact (afterWord_suffix _).trans (skipInlineBlanks_suffix after)

private theorem staysIn_keywordMove (depth : Nat) (slot : Slot) (keyword : Keyword)
    (written : String) (after : List Char) :
    (keywordMove depth slot keyword written after).StaysIn after := by
  have filling {edits : Lead → List Edit} {place : Place} :
      (constructMove slot after fun lead => .go (edits lead) place after).StaysIn after :=
    staysIn_constructMove fun _ => List.suffix_refl after
  cases keyword with
  | orElse | optionally | after | negated => exact staysIn_modifierMove _ _ _ _
  | anyOf | noneOf | startOfText | endOfText => exact filling
  | times => exact staysIn_repeatMove _ _ _
  | collectAs => exact staysIn_collectMove _ _ _
  | anything | digit | forever | space | upTo | whitespace => trivial

private theorem staysIn_wordMove {depth : Nat} {slot : Slot} {character : Char}
    {tail : List Char} (isWord : isWordCharacter character) :
    (wordMove depth slot (character :: tail)).StaysIn tail := by
  have inTail : afterWord (character :: tail) <:+ tail := by
    rw [afterWord, List.dropWhile_cons_of_pos isWord]
    exact List.dropWhile_suffix _
  have weaken {move : Move} (inside : move.StaysIn (afterWord (character :: tail))) :
      move.StaysIn tail := by
    cases move with
    | stop => trivial
    | go => exact List.IsSuffix.trans inside inTail
    | declare => exact List.IsSuffix.trans inside inTail
  unfold wordMove
  simp only
  split
  · exact weaken (staysIn_keywordMove _ _ _ _ _)
  · exact weaken (staysIn_constructMove fun _ => List.suffix_refl _)

theorem lineMove_advances (depth : Nat) (slot : Slot) (rest : List Char) :
    (lineMove depth slot rest).Advances rest := by
  unfold lineMove
  split
  · cases slot <;> trivial
  · rename_i character tail atCharacter
    refine advances_of_staysIn ?_ (atCharacter ▸ skipInlineBlanks_suffix rest)
    split
    · exact staysIn_endMove (List.suffix_refl tail)
    · split
      · exact staysIn_endMove (staysIn_closingMove depth tail)
      · split
        · exact skipLine_suffix tail
        · split
          · exact staysIn_constructMove fun lead => staysIn_literalMove depth lead tail
          · split
            · exact staysIn_openingMove depth slot tail
            · split
              · rename_i isWord
                exact staysIn_wordMove isWord
              · trivial

theorem elementMove_advances (owner : Owner) (rest : List Char) :
    (elementMove owner rest).Advances rest := by
  unfold elementMove
  split
  · trivial
  · rename_i criterion after read
    have taken : after <:+ rest ∧ after.length < rest.length :=
      ⟨(element_suffix read).trans (skipInlineBlanks_suffix rest),
        Nat.lt_of_lt_of_le (element_shorter read) (skipInlineBlanks_suffix rest).length_le⟩
    have further {left : List Char} (suffix : left <:+ skipInlineBlanks after) :
        left <:+ rest ∧ left.length < rest.length :=
      have inside := suffix.trans (skipInlineBlanks_suffix after)
      ⟨inside.trans taken.1, Nat.lt_of_le_of_lt inside.length_le taken.2⟩
    split
    · rename_i tail atComma
      exact further (atComma ▸ List.suffix_cons _ _)
    · exact further (List.suffix_refl _)

private theorem staysIn_barsMove (edit : Edit) (next : Place) (tail : List Char) :
    (barsMove edit next tail).StaysIn tail := by
  unfold barsMove secondBar
  split
  · rename_i read
    split at read
    · rename_i barRead
      exact (finishLine_suffix read).trans (expect_suffix barRead)
    · cases read
  · trivial

private theorem staysIn_declarationMove (declared : List String) (pending : Option String)
    (tail : List Char) : (declarationMove declared pending tail).StaysIn tail := by
  unfold declarationMove
  simp only
  repeat' split
  all_goals first
    | trivial
    | (rename_i ended; exact (finishLine_suffix ended).trans (afterWord_suffix tail))

theorem rulesMove_advances (depth : Nat) (rest : List Char) :
    (rulesMove depth rest).Advances rest := by
  unfold rulesMove
  split
  · trivial
  · rename_i character tail atCharacter
    have inside : character :: tail <:+ rest := atCharacter ▸ skipBlanks_suffix rest
    split
    · refine advances_of_staysIn ?_ inside
      split
      · exact staysIn_barsMove _ _ tail
      · trivial
    · split
      · exact advances_of_staysIn (skipLine_suffix tail) inside
      · split
        · exact advances_of_staysIn (staysIn_closingMove depth tail) inside
        · have advances := lineMove_advances depth (.awaiting {}) (character :: tail)
          revert advances
          cases lineMove depth (.awaiting {}) (character :: tail) with
          | stop => exact fun _ => trivial
          | go => exact fun advances =>
              ⟨advances.1.trans inside, Nat.lt_of_lt_of_le advances.2 inside.length_le⟩
          | declare => exact fun advances =>
              ⟨advances.1.trans inside, Nat.lt_of_lt_of_le advances.2 inside.length_le⟩

theorem topMove_advances (declared : List String) (pending : Option String) (rest : List Char) :
    (topMove declared pending rest).Advances rest := by
  unfold topMove
  split
  · trivial
  · trivial
  · rename_i character tail atCharacter
    have inside : character :: tail <:+ rest := atCharacter ▸ skipBlanks_suffix rest
    split
    · exact advances_of_staysIn (staysIn_declarationMove declared _ tail) inside
    · split
      · exact advances_of_staysIn (staysIn_barsMove _ _ tail) inside
      · split
        · exact advances_of_staysIn (skipLine_suffix tail) inside
        · split
          · rename_i name
            have advances := elementMove_advances .charset (character :: tail)
            revert advances
            cases elementMove .charset (character :: tail) with
            | stop => exact fun _ => trivial
            | go => exact fun advances =>
                ⟨advances.1.trans inside, Nat.lt_of_lt_of_le advances.2 inside.length_le⟩
            | declare => exact fun advances =>
                ⟨advances.1.trans inside, Nat.lt_of_lt_of_le advances.2 inside.length_le⟩
          · trivial

/-- A move stops, or leaves a shorter final stretch of the text it was given. -/
theorem move_advances (declared : List String) (place : Place) (rest : List Char) :
    (place.move declared rest).Advances rest := by
  cases place with
  | top pending => exact topMove_advances declared pending rest
  | rules depth => exact rulesMove_advances depth rest
  | line depth slot => exact lineMove_advances depth slot rest
  | elements owner => exact elementMove_advances owner rest

end Place

end PlainPattern
