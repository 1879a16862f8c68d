import PlainPattern.Matching.Template
import PlainPattern.Proofs.PrintedLexemes

/-!
Contract: a template is expanded in one pass from left to right.

Owns: placeholders as they are written, and `Expands`, the pass as a relation that looks at one
place of the template after another. Expansion itself leaps from one opening to the next; the
equations `expand_placeholder` and `expand_verbatim` take it down to single characters, and
`expands_iff` says that the two are the same. A dollar sign can only begin a placeholder, so
placeholders never overlap and what stands in front of one does not matter to it
(`expand_append_placeholder`).
-/

set_option autoImplicit false

namespace PlainPattern

open Text Lexeme

namespace Template

/-- A placeholder as it is written. -/
def placeholder (name : String) : String :=
  "$(" ++ name ++ ")"

/-- A word under which this value has been captured: the names that a placeholder stands for. -/
structure Names (captured : Bindings) (name value : String) : Prop where
  word : IsWord name
  value_eq : captured.get? name = some value

/-- No placeholder of a captured name stands at the front of this text. -/
def BeginsVerbatim (captured : Bindings) (rest : List Char) : Prop :=
  ∀ name value behind, Names captured name value → rest ≠ (placeholder name).toList ++ behind

/-- A template and what is written for it, one place after another: the value for a placeholder of a
captured name, and otherwise the character that stands there. -/
inductive Expands (captured : Bindings) : List Char → List Char → Prop where
  | ended : Expands captured [] []
  | placeholder {name value : String} {behind written : List Char}
      (names : Names captured name value) (onward : Expands captured behind written) :
      Expands captured ((placeholder name).toList ++ behind) (value.toList ++ written)
  | verbatim {character : Char} {rest written : List Char}
      (stays : BeginsVerbatim captured (character :: rest))
      (onward : Expands captured rest written) :
      Expands captured (character :: rest) (character :: written)

section Equations

variable {captured : Bindings} {name value : String}

/-! ## Placeholders -/

theorem toList_placeholder_append (name : String) (behind : List Char) :
    (placeholder name).toList ++ behind = '$' :: '(' :: (name.toList ++ ')' :: behind) := by
  simp [placeholder]

theorem endsWord_closing (behind : List Char) : EndsWord (')' :: behind) :=
  endsWord_cons (by decide) behind

theorem placeholder?_append (names : Names captured name value) (behind : List Char) :
    placeholder? captured (name.toList ++ ')' :: behind) = some (value, behind) := by
  have split := takeWhile_append_of_ends names.word.2 (endsWord_closing behind)
  have nonempty : name.toList.isEmpty = false := by
    rw [List.isEmpty_eq_false_iff, ne_eq, String.toList_eq_nil_iff]
    exact names.word.1
  simp only [placeholder?, split.1, split.2, String.ofList_toList, names.value_eq, nonempty,
    Bool.false_eq_true, if_false]

/-- What is taken for a placeholder is one. -/
theorem exists_name_of_placeholder? {rest behind : List Char}
    (found : placeholder? captured rest = some (value, behind)) :
    ∃ name, Names captured name value ∧ rest = name.toList ++ ')' :: behind := by
  unfold placeholder? at found
  simp only at found
  split at found
  · rename_i bound closed
    split at found
    · cases found
    · rename_i nonempty
      cases found
      refine ⟨String.ofList (rest.takeWhile isWordCharacter), ⟨⟨?_, ?_⟩, bound⟩, ?_⟩
      · intro empty
        exact nonempty (by simpa [← String.toList_eq_nil_iff] using empty)
      · intro character member
        rw [String.toList_ofList] at member
        exact List.mem_takeWhile_imp member
      · rw [String.toList_ofList, ← closed, List.takeWhile_append_dropWhile]
  · cases found

/-! ## Expansion, character by character -/

theorem expand_of_unopened {rest : List Char} (unopened : splitAtOpening? rest = none) :
    expand captured rest = rest := by
  rw [expand]
  split
  · rfl
  · rename_i opened
    rw [unopened] at opened
    cases opened

/-- What is written from an opening on depends on whether it opens a placeholder. -/
theorem expand_of_opened {rest before inside : List Char}
    (opened : splitAtOpening? rest = some (before, inside)) :
    expand captured rest = before ++
      match placeholder? captured inside with
      | some (value, after) => value.toList ++ expand captured after
      | none => '$' :: '(' :: expand captured inside := by
  rw [expand]
  split
  · rename_i unopened
    rw [opened] at unopened
    cases unopened
  · rename_i again
    rw [opened] at again
    cases again
    split
    · rename_i found
      rw [found, List.append_assoc]
    · rename_i unnamed
      rw [unnamed]

theorem expand_nil : expand captured [] = [] :=
  expand_of_unopened rfl

theorem expand_placeholder (names : Names captured name value) (behind : List Char) :
    expand captured ((placeholder name).toList ++ behind) =
      value.toList ++ expand captured behind := by
  have opened : splitAtOpening? ('$' :: '(' :: (name.toList ++ ')' :: behind)) =
      some ([], name.toList ++ ')' :: behind) := rfl
  rw [toList_placeholder_append, expand_of_opened opened, placeholder?_append names behind]
  rfl

/-- A character that does not open a placeholder is written as it is. -/
theorem expand_cons_of_unopened {character : Char} {rest : List Char}
    (unopened : ∀ inside, character :: rest ≠ '$' :: '(' :: inside) :
    expand captured (character :: rest) = character :: expand captured rest := by
  have split : splitAtOpening? (character :: rest) =
      (splitAtOpening? rest).map fun found => (character :: found.1, found.2) := by
    rw [splitAtOpening?.eq_def]
    split
    · rename_i inside opened
      exact absurd opened (unopened inside)
    · rename_i same
      cases same
      cases splitAtOpening? rest <;> rfl
    · rename_i empty
      cases empty
  cases later : splitAtOpening? rest with
  | none =>
      rw [later] at split
      rw [expand_of_unopened split, expand_of_unopened later]
  | some found =>
      rw [later] at split
      rw [expand_of_opened split, expand_of_opened later]
      rfl

theorem expand_verbatim {character : Char} {rest : List Char}
    (stays : BeginsVerbatim captured (character :: rest)) :
    expand captured (character :: rest) = character :: expand captured rest := by
  by_cases opens : ∃ inside, character :: rest = '$' :: '(' :: inside
  · obtain ⟨inside, same⟩ := opens
    cases same
    have unnamed : placeholder? captured inside = none := by
      cases found : placeholder? captured inside with
      | none => rfl
      | some read =>
          obtain ⟨name, names, same⟩ := exists_name_of_placeholder? found
          exact absurd (same ▸ (toList_placeholder_append name read.2).symm)
            (stays name read.1 read.2 names)
    have bracketStays : expand captured ('(' :: inside) = '(' :: expand captured inside :=
      expand_cons_of_unopened (by simp)
    have opened : splitAtOpening? ('$' :: '(' :: inside) = some ([], inside) := rfl
    rw [expand_of_opened opened, unnamed, bracketStays]
    rfl
  · exact expand_cons_of_unopened (not_exists.1 opens)

/-! ## The pass -/

theorem Expands.expand_eq {template written : List Char}
    (expands : Expands captured template written) :
    expand captured template = written := by
  induction expands with
  | ended => exact expand_nil
  | placeholder names _ inductionHypothesis =>
      rw [expand_placeholder names, inductionHypothesis]
  | verbatim stays _ inductionHypothesis => rw [expand_verbatim stays, inductionHypothesis]

theorem expands_expand (captured : Bindings) (template : List Char) :
    Expands captured template (expand captured template) := by
  cases template with
  | nil =>
      rw [expand_nil]
      exact .ended
  | cons character rest =>
      by_cases stays : BeginsVerbatim captured (character :: rest)
      · rw [expand_verbatim stays]
        exact .verbatim stays (expands_expand captured rest)
      · unfold BeginsVerbatim at stays
        push Not at stays
        obtain ⟨name, value, behind, names, same⟩ := stays
        rw [same, expand_placeholder names]
        have shorter : behind.length < (character :: rest).length := by
          rw [same, toList_placeholder_append]
          simp
          omega
        exact .placeholder names (expands_expand captured behind)
termination_by template.length
decreasing_by
  · exact Nat.lt_succ_self _
  · exact shorter

/-- Expansion is the pass, and the pass has one outcome. -/
theorem expands_iff (captured : Bindings) (template written : List Char) :
    Expands captured template written ↔ expand captured template = written := by
  constructor
  · exact Expands.expand_eq
  · rintro rfl
    exact expands_expand captured template

/-! ## Placeholders inside a template -/

theorem dollar_not_mem_of_word {name : String} (word : IsWord name) :
    '$' ∉ '(' :: (name.toList ++ [')']) := by
  intro member
  rcases List.mem_cons.1 member with isBracket | inName
  · cases isBracket
  · rcases List.mem_append.1 inName with inWord | isBracket
    · exact absurd (word.2 '$' inWord) (by decide)
    · simp at isBracket

/-- A dollar sign behind a text does not make a placeholder of what was none before. -/
theorem BeginsVerbatim.append_dollar {character : Char} {before : List Char}
    (stays : BeginsVerbatim captured (character :: before)) (behind : List Char) :
    BeginsVerbatim captured (character :: before ++ '$' :: behind) := by
  intro name value after names same
  rcases List.append_eq_append_iff.1 same with ⟨inner, whole, rest⟩ | ⟨more, whole, _⟩
  · cases inner with
    | nil =>
        rw [List.append_nil] at whole
        exact stays name value [] names (by rw [List.append_nil, whole])
    | cons first inner =>
        -- The placeholder would have to reach over the dollar sign.
        have isDollar : first = '$' := by
          rw [List.cons_append] at rest
          exact (List.cons.inj rest).1.symm
        have tail : '(' :: (name.toList ++ [')']) = before ++ first :: inner := by
          have split := (toList_placeholder_append name []).symm
          rw [List.append_nil, whole] at split
          exact (List.cons.inj split).2
        have member : '$' ∈ '(' :: (name.toList ++ [')']) := by
          rw [tail, isDollar]
          simp
        exact dollar_not_mem_of_word names.word member
  · exact stays name value more names whole

/-- A placeholder is replaced wherever it stands, and what stands around it is expanded as if it
stood alone. -/
theorem expand_append_placeholder (names : Names captured name value)
    (before behind : List Char) :
    expand captured (before ++ ((placeholder name).toList ++ behind)) =
      expand captured before ++ (value.toList ++ expand captured behind) := by
  have onward := expand_placeholder names behind
  obtain ⟨written, expands⟩ : ∃ written, Expands captured before written :=
    ⟨_, expands_expand captured before⟩
  rw [expands.expand_eq]
  induction expands with
  | ended => exact onward
  | placeholder others _ inductionHypothesis =>
      rw [List.append_assoc, expand_placeholder others, inductionHypothesis, List.append_assoc]
  | verbatim stays _ inductionHypothesis =>
      have further := stays.append_dollar ('(' :: (name.toList ++ ')' :: behind))
      rw [← toList_placeholder_append, List.cons_append] at further
      rw [List.cons_append, expand_verbatim further, inductionHypothesis]
      rfl

/-- Without a placeholder of a captured name a template is written as it is. -/
theorem expand_of_plain {template : List Char}
    (plain : ∀ before name value behind, Names captured name value →
      template ≠ before ++ ((placeholder name).toList ++ behind)) :
    expand captured template = template := by
  induction template with
  | nil => exact expand_nil
  | cons character rest inductionHypothesis =>
      have stays : BeginsVerbatim captured (character :: rest) :=
        fun name value behind names same => plain [] name value behind names same
      rw [expand_verbatim stays]
      congr 1
      apply inductionHypothesis
      rintro before name value behind names rfl
      exact plain (character :: before) name value behind names rfl

end Equations

end Template

open Template

/-- Expansion is one pass over the template, character by character. A placeholder of a captured
name is replaced wherever it stands, and neither what is put in nor what stands around it changes
that; all else is written as it is. -/
theorem template_is_expanded_in_one_pass (captured : Bindings) :
    (∀ template written : String,
      expandTemplate template captured = written ↔
        Expands captured template.toList written.toList) ∧
    (∀ before name value behind : String, Names captured name value →
      expandTemplate (before ++ placeholder name ++ behind) captured =
        expandTemplate before captured ++ value ++ expandTemplate behind captured) ∧
    ∀ template : String,
      (∀ before name value behind : String, Names captured name value →
        template ≠ before ++ placeholder name ++ behind) →
      expandTemplate template captured = template := by
  refine ⟨?_, ?_, ?_⟩
  · intro template written
    rw [expands_iff, expandTemplate, ← String.toList_inj, String.toList_ofList]
  · intro before name value behind names
    rw [expandTemplate, String.toList_append, String.toList_append, List.append_assoc,
      expand_append_placeholder names, String.ofList_append, String.ofList_append,
      String.ofList_toList, ← String.append_assoc]
    rfl
  · intro template plain
    have stays : expand captured template.toList = template.toList := by
      apply expand_of_plain
      intro before name value behind names same
      apply plain (String.ofList before) name value (String.ofList behind) names
      rw [← String.toList_inj, same]
      simp
    rw [expandTemplate, stays, String.ofList_toList]

/-- A placeholder behind a broken opening is replaced, its value is not expanded again, and a name
that nothing has been captured under stays. -/
theorem value_is_not_expanded_again :
    let captured := Bindings.ofPairs [("v", "x"), ("w", "$(v)")]
    Names captured "w" "$(v)" ∧
      expandTemplate "$($(w)ö$(u)" captured = "$($(v)ö$(u)" := by
  intro captured
  have names : Names captured "w" "$(v)" := ⟨⟨by decide, List.all_eq_true.1 rfl⟩, by decide⟩
  refine ⟨names, ?_⟩
  have replaced := (template_is_expanded_in_one_pass captured).2.1 "$(" "w" "$(v)" "ö$(u)" names
  have before : expandTemplate "$(" captured = "$(" := by decide +kernel
  have behind : expandTemplate "ö$(u)" captured = "ö$(u)" := by decide +kernel
  rw [before, behind] at replaced
  exact replaced

end PlainPattern
