import PlainPattern.Matching.State
import PlainPattern.Text.Character

/-!
Contract: what takes the place of a match.

Owns: templates, in which `$(name)` stands for the text that was captured under the name. Anything
that is no placeholder of a captured name stays as it is, and what is put in is not looked at again.
-/

set_option autoImplicit false

namespace PlainPattern

namespace Template

open Text

/-- The text in front of the first opening of a placeholder, and the text behind that opening. -/
def splitAtOpening? : List Char → Option (List Char × List Char)
  | '$' :: '(' :: rest => some ([], rest)
  | character :: rest =>
      match splitAtOpening? rest with
      | some (before, behind) => some (character :: before, behind)
      | none => none
  | [] => none

/-- The value of the placeholder whose name begins here, and the text behind it. -/
def placeholder? (captured : Bindings) (rest : List Char) : Option (String × List Char) :=
  let name := rest.takeWhile isWordCharacter
  match captured.get? (String.ofList name), rest.dropWhile isWordCharacter with
  | some value, ')' :: behind => if name.isEmpty then none else some (value, behind)
  | _, _ => none

theorem splitAtOpening?_shorter (rest : List Char) :
    ∀ {before behind : List Char}, splitAtOpening? rest = some (before, behind) →
      behind.length < rest.length := by
  fun_induction splitAtOpening? rest with
  | case1 rest =>
      intro before behind split
      cases split
      exact Nat.lt_succ_of_lt (Nat.lt_succ_self _)
  | case2 character rest _ inFront after splitTail inductionHypothesis =>
      intro before behind split
      cases split
      exact Nat.lt_succ_of_lt (inductionHypothesis splitTail)
  | _ =>
      intro before behind split
      cases split

theorem placeholder?_shorter {captured : Bindings} {rest behind : List Char} {value : String}
    (found : placeholder? captured rest = some (value, behind)) :
    behind.length < rest.length := by
  unfold placeholder? at found
  simp only at found
  split at found
  · rename_i closed
    split at found
    · cases found
    · cases found
      have inside : (rest.dropWhile isWordCharacter).length ≤ rest.length :=
        (List.dropWhile_suffix _).length_le
      rw [closed] at inside
      exact inside
  · cases found

/-- The template with a match's captures put in. -/
def expand (captured : Bindings) (rest : List Char) : List Char :=
  match _opened : splitAtOpening? rest with
  | none => rest
  | some (before, behind) =>
      match _found : placeholder? captured behind with
      | some (value, after) => before ++ value.toList ++ expand captured after
      | none => before ++ '$' :: '(' :: expand captured behind
termination_by rest.length
decreasing_by
  · exact Nat.lt_trans (placeholder?_shorter _found) (splitAtOpening?_shorter rest _opened)
  · exact splitAtOpening?_shorter rest _opened

end Template

/-- Expands a template. -/
def expandTemplate (template : String) (captured : Bindings) : String :=
  String.ofList (Template.expand captured template.toList)

end PlainPattern
