import Mathlib.Data.List.DropRight
import PlainPattern.Proofs.Layout
import PlainPattern.Proofs.PrintedLexemes

/-!
Contract: whether a word can go on where an element of a charset ends.

Owns: the text of an element (`Element.written`) and what follows it (`Element.following`); whether
a piece of text ends in a word character that no escape covers (`Element.endsBare`); and how each
reader spells out what it takes. Single characters and names are taken with a look at the next
character, so no word character follows them; for the end of a range no reader looks ahead
(`Element.element_endsWord`, `Element.following_element`).
-/

set_option autoImplicit false

namespace PlainPattern

open Text Lexeme

theorem Criterion.exists_range (first second : Char) :
    ∃ low high, Criterion.between first second = .range low high := by
  unfold Criterion.between
  split <;> exact ⟨_, _, rfl⟩

/-! ## Bare ends -/

namespace Element

/-- The last character is a word character, and no part of an escape. -/
def endsBare : List Char → Bool
  | '\\' :: 'u' :: _ :: _ :: _ :: _ :: rest => endsBare rest
  | '\\' :: _ :: rest => endsBare rest
  | [character] => isWordCharacter character
  | _ :: rest => endsBare rest
  | [] => false

/-- The text of an element that is followed by `after`, without the blanks between them. -/
def written (rest after : List Char) : List Char :=
  (rest.take (rest.length - after.length)).rdropWhile isInlineBlank

/-- What follows that text, the blanks included. -/
def following (rest after : List Char) : List Char :=
  rest.drop (written rest after).length

theorem exists_last_of_endsBare {text : List Char} (bare : endsBare text = true) :
    ∃ body last, text = body ++ [last] ∧ isWordCharacter last = true := by
  fun_induction endsBare text with
  | case1 first second third fourth rest inductionHypothesis =>
      obtain ⟨body, last, rfl, isWord⟩ := inductionHypothesis bare
      exact ⟨'\\' :: 'u' :: first :: second :: third :: fourth :: body, last, rfl, isWord⟩
  | case2 character rest _ inductionHypothesis =>
      obtain ⟨body, last, rfl, isWord⟩ := inductionHypothesis bare
      exact ⟨'\\' :: character :: body, last, rfl, isWord⟩
  | case3 character => exact ⟨[], character, rfl, bare⟩
  | case4 character rest _ _ _ inductionHypothesis =>
      obtain ⟨body, last, rfl, isWord⟩ := inductionHypothesis bare
      exact ⟨character :: body, last, rfl, isWord⟩
  | case5 => cases bare

theorem endsBare_concat {last : Char} (other : isWordCharacter last = false) (body : List Char) :
    endsBare (body ++ [last]) = false := by
  rw [Bool.eq_false_iff]
  intro bare
  obtain ⟨_, character, split, isWord⟩ := exists_last_of_endsBare bare
  obtain ⟨-, same⟩ := List.append_inj' split rfl
  cases same
  rw [other] at isWord
  cases isWord

theorem endsBare_blanks {gap : List Char} (blanks : ∀ blank ∈ gap, isInlineBlank blank = true)
    (nonempty : gap ≠ []) (body : List Char) : endsBare (body ++ gap) = false := by
  obtain ⟨others, last, rfl⟩ := (List.eq_nil_or_concat' gap).resolve_left nonempty
  rw [← List.append_assoc]
  refine endsBare_concat (not_isWordCharacter_of_isBlank ?_) _
  exact isBlank_of_isInlineBlank (blanks last (by simp))

theorem hexDigits_spelled {digits : Nat} : ∀ {value result : Nat} {rest after : List Char},
    hexDigits value digits rest = .ok (result, after) →
      ∃ spelled, spelled.length = digits ∧ rest = spelled ++ after := by
  induction digits with
  | zero =>
      intro value result rest after read
      cases read
      exact ⟨[], rfl, rfl⟩
  | succ digits inductionHypothesis =>
      intro value result rest after read
      unfold hexDigits at read
      split at read
      · cases read
      · rename_i character tail
        split at read
        · obtain ⟨spelled, long, rfl⟩ := inductionHypothesis read
          exact ⟨character :: spelled, by rw [List.length_cons, long], rfl⟩
        · cases read

theorem codePoint_spelled {meant : Char} {rest after : List Char}
    (read : codePoint rest = .ok (meant, after)) :
    ∃ spelled, spelled.length = 4 ∧ rest = spelled ++ after := by
  unfold codePoint at read
  split at read
  · cases read
  · rename_i digitsRead
    split at read
    · cases read
      exact hexDigits_spelled digitsRead
    · cases read

theorem endsBare_escaped {character : Char} (plain : character ≠ 'u') (more : List Char) :
    endsBare ('\\' :: character :: more) = endsBare more := by
  rw [endsBare]
  rintro _ _ _ _ _ rfl
  exact absurd rfl plain

/-- Behind an escape the search for the end of a text begins anew. -/
theorem escape_spelled {meant : Char} {rest after : List Char}
    (read : escape rest = .ok (meant, after)) :
    ∃ spelled, rest = spelled ++ after ∧
      ∀ more, endsBare ('\\' :: (spelled ++ more)) = endsBare more := by
  unfold escape at read
  split at read
  · cases read
  · rename_i character tail
    by_cases isCodePoint : character = 'u'
    · subst isCodePoint
      rw [if_neg (by decide), if_neg (by decide), if_neg (by decide), if_pos rfl] at read
      obtain ⟨spelled, long, rfl⟩ := codePoint_spelled read
      obtain ⟨first, second, third, fourth, rfl⟩ := List.length_eq_four.1 long
      exact ⟨['u', first, second, third, fourth], rfl, fun more => rfl⟩
    · have single : ∃ spelled, character :: tail = spelled ++ tail ∧
          ∀ more, endsBare ('\\' :: (spelled ++ more)) = endsBare more :=
        ⟨[character], rfl, endsBare_escaped isCodePoint⟩
      rw [if_neg isCodePoint] at read
      repeat' split at read
      all_goals first
        | (cases read; exact single)
        | cases read

/-- A character of an element, as it is written; it ends bare only if it stands for itself. -/
theorem elementCharacter_spelled {character first : Char} {tail after : List Char}
    (read : elementCharacter character tail = .ok (first, after)) :
    ∃ body, character :: tail = body ++ after ∧
      (endsBare body = true → isWordCharacter character = true ∧ tail = after) := by
  unfold elementCharacter at read
  split at read
  · rename_i isEscape
    subst isEscape
    obtain ⟨spelled, rfl, ends⟩ := escape_spelled read
    refine ⟨'\\' :: spelled, rfl, fun bare => ?_⟩
    have noMore := ends []
    rw [List.append_nil, bare] at noMore
    cases noMore
  · cases read
    exact ⟨[character], rfl, fun bare => ⟨by simpa [endsBare] using bare, rfl⟩⟩

/-! ## What may follow an element -/

theorem endsWord_afterWord (rest : List Char) : EndsWord (afterWord rest) := by
  intro character isHead
  have stops := List.head?_dropWhile_not isWordCharacter rest
  rw [show (rest.dropWhile isWordCharacter).head? = some character from isHead] at stops
  simpa using stops

theorem variableName_closes {criterion : Criterion} {rest after : List Char}
    (read : variableName rest = .ok (criterion, after)) : ∃ body, rest = body ++ ')' :: after := by
  unfold variableName at read
  simp only at read
  split at read
  · cases read
  · split at read
    · rename_i closed
      cases read
      unfold expect at closed
      split at closed
      · cases closed
      · rename_i found tail atBracket
        split at closed
        · rename_i isBracket
          cases closed
          refine ⟨rest.takeWhile isWordCharacter, ?_⟩
          rw [← isBracket, ← atBracket]
          exact List.takeWhile_append_dropWhile.symm
        · cases closed
    · cases read

theorem literalBody_closes (text rest : List Char) :
    ∀ {criterion : Criterion} {after : List Char},
      literalBody text rest = .ok (criterion, after) → ∃ body, rest = body ++ ')' :: after := by
  fun_induction literalBody text rest with
  | case4 =>
      intro criterion after read
      cases read
      exact ⟨[], rfl⟩
  | case5 =>
      intro criterion after read
      obtain ⟨body, rfl⟩ := variableName_closes read
      exact ⟨_ :: body, rfl⟩
  | case7 text tail meant behind escaped _ _ _ inductionHypothesis =>
      intro criterion after read
      obtain ⟨body, rfl⟩ := inductionHypothesis read
      obtain ⟨spelled, rfl⟩ := escape_suffix escaped
      exact ⟨'\\' :: (spelled ++ body), by simp⟩
  | case9 _ _ _ _ _ _ _ _ inductionHypothesis =>
      intro criterion after read
      obtain ⟨body, rfl⟩ := inductionHypothesis read
      exact ⟨_ :: body, rfl⟩
  | _ =>
      intro criterion after read
      cases read

section Ends

variable {criterion : Criterion} {taken after : List Char}

/-- Where a single character is read, the next one has been looked at. -/
theorem single_endsWord {character first : Char} {tail : List Char}
    (read : elementCharacter character tail = .ok (first, after))
    (spelled : character :: tail = taken ++ skipInlineBlanks after)
    (alone : ¬(isWordCharacter character = true ∧ tail.head?.any isWordCharacter = true))
    (bare : endsBare taken = true) : EndsWord (skipInlineBlanks after) := by
  obtain ⟨body, split, plain⟩ := elementCharacter_spelled read
  have blanks : after.takeWhile isInlineBlank ++ skipInlineBlanks after = after :=
    List.takeWhile_append_dropWhile
  have isTaken : taken = body ++ after.takeWhile isInlineBlank := by
    have same : taken ++ skipInlineBlanks after =
        (body ++ after.takeWhile isInlineBlank) ++ skipInlineBlanks after := by
      rw [← spelled, List.append_assoc, blanks, split]
    exact List.append_cancel_right same
  subst isTaken
  by_cases noBlank : after.takeWhile isInlineBlank = []
  · rw [noBlank, List.append_nil] at bare
    rw [noBlank, List.nil_append] at blanks
    obtain ⟨isWord, rfl⟩ := plain bare
    rw [blanks]
    intro next isNext
    rw [Bool.eq_false_iff]
    intro nextIsWord
    refine alone ⟨isWord, ?_⟩
    rw [Option.mem_def.1 isNext]
    exact nextIsWord
  · rw [endsBare_blanks (fun _ => List.mem_takeWhile_imp) noBlank] at bare
    cases bare

theorem characterOrRange_endsWord {character : Char} {tail : List Char}
    (read : characterOrRange character tail = .ok (criterion, after))
    (spelled : character :: tail = taken ++ after)
    (alone : ¬(isWordCharacter character = true ∧ tail.head?.any isWordCharacter = true))
    (bare : endsBare taken = true) :
    EndsWord after ∨ ∃ low high, criterion = .range low high := by
  unfold characterOrRange at read
  split at read
  · cases read
  · rename_i first behind firstRead
    split at read
    · cases read
      exact .inl (single_endsWord firstRead spelled alone bare)
    · split at read
      · cases read
        exact .inr (Criterion.exists_range _ _)
      · cases read

/-- Where an element ends in a bare word character, no word character follows, unless the element is
a range: for the end of a range no reader looks ahead. -/
theorem element_endsWord (read : element (taken ++ after) = .ok (criterion, after))
    (bare : endsBare taken = true) :
    EndsWord after ∨ ∃ low high, criterion = .range low high := by
  generalize spelled : taken ++ after = rest at read
  unfold element at read
  split at read
  · cases read
  · rename_i character tail
    split at read
    · cases read
    · split at read
      · cases read
      · split at read
        · rename_i opens
          obtain ⟨body, closed⟩ := literalBody_closes [] tail read
          have isTaken : taken = (character :: body) ++ [')'] := by
            have same : taken ++ after = ((character :: body) ++ [')']) ++ after := by
              rw [spelled, closed]
              simp
            exact List.append_cancel_right same
          rw [isTaken, endsBare_concat (by decide)] at bare
          cases bare
        · split at read
          · cases read
            exact .inl (endsWord_afterWord _)
          · rename_i alone
            split at read
            · exact characterOrRange_endsWord read spelled.symm alone bare
            · cases read

/-- Where an element ends in a bare word character and another one follows, nothing stands between
them, and the element is a range. -/
theorem following_element {rest : List Char} (read : element rest = .ok (criterion, after))
    (bare : endsBare (written rest after) = true) :
    EndsWord (following rest after) ∨
      following rest after = after ∧ ∃ low high, criterion = .range low high := by
  obtain ⟨taken, rfl⟩ := element_suffix read
  have isTaken : (taken ++ after).take ((taken ++ after).length - after.length) = taken := by
    simp
  have split : taken.rdropWhile isInlineBlank ++ taken.rtakeWhile isInlineBlank = taken :=
    List.rdropWhile_append_rtakeWhile
  rw [following]
  rw [written, isTaken] at bare ⊢
  generalize taken.rdropWhile isInlineBlank = body at bare split ⊢
  cases gap : taken.rtakeWhile isInlineBlank with
  | nil =>
      rw [gap, List.append_nil] at split
      subst split
      rw [List.drop_left]
      exact (element_endsWord read bare).imp_right fun isRange => ⟨rfl, isRange⟩
  | cons blank others =>
      left
      rw [gap] at split
      rw [← split, List.append_assoc, List.drop_left]
      have inGap : blank ∈ taken.rtakeWhile isInlineBlank := gap ▸ List.mem_cons_self
      exact endsWord_cons (not_isWordCharacter_of_isBlank
        (isBlank_of_isInlineBlank (List.mem_rtakeWhile_imp inGap))) _

end Ends

end Element

end PlainPattern
