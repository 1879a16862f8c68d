import PlainPattern.Schema.Node
import PlainPattern.Source.Lexeme

/-!
Contract: how often, as it is written behind the word that announces a repeat.

Owns: the four written forms `N`, `N to M`, `N to forever` and `forever`. Bounds that are read are
never empty: the minimum is at least one and the maximum is not below it.
-/

set_option autoImplicit false

namespace PlainPattern

namespace RepeatBounds

open Lexeme

/-- What follows the minimum and the word `to`. -/
def upperBound (min : Nat) : Reader Bounds := fun rest =>
  match afterKeyword? .forever rest with
  | some after => .ok (⟨min, none⟩, after)
  | none =>
      match count rest with
      | .error fault => .error fault
      | .ok (max, after) =>
          if max < min then fault .repeatBackwards after
          else .ok (⟨min, some max⟩, after)

/-- What follows the minimum: without an upper bound it is the exact number. -/
def behindMinimum (min : Nat) : Reader Bounds := fun rest =>
  match afterKeyword? .upTo (skipInlineBlanks rest) with
  | some after => upperBound min (skipInlineBlanks after)
  | none => .ok (⟨min, some min⟩, skipInlineBlanks rest)

/-- What follows the word `times`. -/
def bounds : Reader Bounds := fun rest =>
  match afterKeyword? .forever (skipInlineBlanks rest) with
  | some after => .ok (⟨1, none⟩, after)
  | none =>
      match count (skipInlineBlanks rest) with
      | .error fault => .error fault
      | .ok (min, after) =>
          if min = 0 then fault .repeatFromZero after
          else behindMinimum min after

theorem upperBound_suffix {min : Nat} {bounds : Bounds} {rest after : List Char}
    (read : upperBound min rest = .ok (bounds, after)) : after <:+ rest := by
  unfold upperBound at read
  split at read
  · rename_i forever
    cases read
    exact afterKeyword?_suffix forever
  · split at read
    · cases read
    · rename_i counted
      split at read
      · cases read
      · cases read
        exact count_suffix counted

theorem behindMinimum_suffix {min : Nat} {bounds : Bounds} {rest after : List Char}
    (read : behindMinimum min rest = .ok (bounds, after)) : after <:+ rest := by
  unfold behindMinimum at read
  split at read
  · rename_i announced
    exact ((upperBound_suffix read).trans (skipInlineBlanks_suffix _)).trans
      ((afterKeyword?_suffix announced).trans (skipInlineBlanks_suffix rest))
  · cases read
    exact skipInlineBlanks_suffix rest

theorem bounds_suffix {found : Bounds} {rest after : List Char}
    (read : bounds rest = .ok (found, after)) : after <:+ rest := by
  unfold bounds at read
  split at read
  · rename_i forever
    cases read
    exact (afterKeyword?_suffix forever).trans (skipInlineBlanks_suffix rest)
  · split at read
    · cases read
    · rename_i counted
      split at read
      · cases read
      · exact ((behindMinimum_suffix read).trans (count_suffix counted)).trans
          (skipInlineBlanks_suffix rest)

end RepeatBounds

end PlainPattern
