import Mathlib.Data.List.Induction
import PlainPattern.Proofs.BlindMoves
import PlainPattern.Proofs.FaultPlaces
import PlainPattern.Source.Compile

/-!
Contract: a syntax error points into the text at the place where reading stopped.

Owns: `SyntaxError.PointsInto`, an error against the text above its line, the two parts of the line
and the text below; and the main result `syntax_errors_point_into_the_text`. The location comes from
a walk over the characters that were read (`Location.exists_front`), the end of the line from those
that were not, and the two meet because a fault leaves a final stretch of the text unread.
-/

set_option autoImplicit false

namespace PlainPattern

open Lexeme

/-- A line begins behind this text: it is empty or ends in a newline. -/
def BeginsAfter (above : List Char) : Prop :=
  ∀ last ∈ above.getLast?, last = '\n'

/-- The error shows the line made of `front` and `back`, and its place is between the two. Above the
line and below it stands the rest of the source. -/
structure SyntaxError.PointsInto (error : SyntaxError) (source above front back below : List Char) :
    Prop where
  source_eq : source = above ++ front ++ back ++ below
  begins : BeginsAfter above
  ends : EndsLine below
  oneLine : '\n' ∉ front ++ back
  line_eq : error.line.toList = front ++ back
  offset_eq : error.location.offset = (above ++ front).length
  lineNumber_eq : error.location.lineNumber = 1 + (above ++ front).count '\n'
  column_eq : error.location.column = front.length

namespace Location

/-- The walk over a text comes to its last line, as far as that has been read. -/
theorem exists_front (text : List Char) :
    ∃ above front, text = above ++ front ∧ BeginsAfter above ∧ '\n' ∉ front ∧
      behind text = ⟨text.length, 1 + text.count '\n', front.length⟩ := by
  induction text using List.reverseRecOn with
  | nil => exact ⟨[], [], rfl, by simp [BeginsAfter], by simp, rfl⟩
  | append_singleton text character inductionHypothesis =>
      obtain ⟨above, front, split, begins, oneLine, walked⟩ := inductionHypothesis
      have step : behind (text ++ [character]) = (behind text).advance character := by
        rw [behind, List.foldl_append]
        rfl
      rw [walked] at step
      by_cases newline : character = '\n'
      · subst newline
        refine ⟨text ++ ['\n'], [], by simp, by simp [BeginsAfter], by simp, ?_⟩
        rw [step]
        simp [advance, Nat.add_assoc]
      · refine ⟨above, front ++ [character], by simp [split], begins, ?_, ?_⟩
        · simpa [Ne.symm newline] using oneLine
        · rw [step]
          simp [advance, newline]

end Location

/-- The line of an error begins where the walk came to it, and ends with the first newline that was
not read. -/
theorem SyntaxError.exists_pointsInto {source : List Char} {fault : Fault}
    (inside : fault.rest <:+ source) :
    ∃ above front back below,
      (SyntaxError.ofFault source fault).PointsInto source above front back below ∧
        fault.rest = back ++ below := by
  obtain ⟨read, rfl⟩ := inside
  obtain ⟨above, front, rfl, begins, oneLine, walked⟩ := Location.exists_front read
  have readPart : (above ++ front ++ fault.rest).take
      ((above ++ front ++ fault.rest).length - fault.rest.length) = above ++ front := by
    apply List.take_left'
    simp only [List.length_append]
    omega
  have lineStart : (above ++ front ++ fault.rest).drop
      ((above ++ front).length - front.length) = front ++ fault.rest := by
    rw [List.append_assoc]
    exact List.drop_left' (by simp)
  have parts : fault.rest.takeWhile (fun character => character != '\n') ++ skipLine fault.rest =
      fault.rest := List.takeWhile_append_dropWhile
  have backInLine : '\n' ∉ fault.rest.takeWhile fun character => character != '\n' := by
    intro member
    simpa using List.mem_takeWhile_imp member
  have frontInLine : ∀ character ∈ front, (character != '\n') = true := by
    intro character member
    simpa using fun same : character = '\n' => oneLine (same ▸ member)
  -- The line shown is cut from its start on; what was read of it has no newline to stop at.
  refine ⟨above, front, fault.rest.takeWhile fun character => character != '\n',
    skipLine fault.rest, ⟨?_, begins, endsLine_skipLine _, ?_, ?_, ?_, ?_, ?_⟩, parts.symm⟩
  · rw [List.append_assoc (above ++ front), parts]
  · simp [oneLine, backInLine]
  · simp only [ofFault, readPart, walked, lineStart, String.toList_ofList]
    exact List.takeWhile_append_of_pos frontInLine
  · simp only [ofFault, readPart, walked]
  · simp only [ofFault, readPart, walked]
  · simp only [ofFault, readPart, walked]

theorem Reading.fault_of_schema {reading : Reading} {source : List Char} {error : SyntaxError}
    (malformed : reading.schema source = .error (.malformed error)) :
    ∃ fault, reading.fault = some fault ∧ error = SyntaxError.ofFault source fault := by
  unfold Reading.schema at malformed
  split at malformed
  · cases malformed
  · split at malformed
    · rename_i fault failed
      cases malformed
      exact ⟨fault, failed, rfl⟩
    · split at malformed
      · cases malformed
      · cases malformed

/-- Every syntax error points into the text that was compiled, at the place where reading stopped:
the offset counts the characters in front of that place, the line number the newlines among them,
and the column those of them that stand on the same line; the line shown is the whole of it, up to
the next newline or the end of the text. -/
theorem syntax_errors_point_into_the_text {source : String} {error : SyntaxError}
    (malformed : compile source = .error (.malformed error)) :
    ∃ above front back below, error.PointsInto source.toList above front back below ∧
      (Reading.ofText source.toList).fault = some ⟨error.complaint, back ++ below⟩ ∧
      error.location.offset ≤ source.toList.length ∧
      error.location.column ≤ error.line.toList.length := by
  obtain ⟨fault, failed, rfl⟩ := Reading.fault_of_schema malformed
  obtain ⟨above, front, back, below, points, unread⟩ :=
    SyntaxError.exists_pointsInto (Reading.fault_suffix failed)
  refine ⟨above, front, back, below, points, ?_, ?_, ?_⟩
  · rw [← unread]
    exact failed
  · rw [points.offset_eq, points.source_eq]
    simp
  · rw [points.column_eq, points.line_eq]
    simp

/-- What the error of a text says about its place, if the text is malformed. -/
def errorPlace? (source : String) : Option (Complaint × String × Location) :=
  match compile source with
  | .error (.malformed error) => some (error.complaint, error.line, error.location)
  | _ => none

theorem exists_of_errorPlace? {source : String} {complaint : Complaint} {line : String}
    {location : Location} (placed : errorPlace? source = some (complaint, line, location)) :
    compile source = .error (.malformed ⟨complaint, line, location⟩) := by
  unfold errorPlace? at placed
  split at placed
  · rename_i error malformed
    cases placed
    exact malformed
  · cases placed

/-- Errors at a newline, at the end of a line of the text, and on an empty last line. -/
theorem errors_at_line_ends_point_into_the_text :
    (∃ above front back below,
      (⟨.unterminatedLiteral, "(ab", ⟨6, 2, 3⟩⟩ : SyntaxError).PointsInto "||\n(ab\n||".toList
        above front back below) ∧
    (∃ above front back below,
      (⟨.missingElement, "any ", ⟨7, 2, 4⟩⟩ : SyntaxError).PointsInto "||\nany ".toList
        above front back below) ∧
    ∃ above front back below,
      (⟨.unclosedPattern, "", ⟨7, 3, 0⟩⟩ : SyntaxError).PointsInto "||\n(a)\n".toList
        above front back below := by
  have atNewline := syntax_errors_point_into_the_text (exists_of_errorPlace? (show
    errorPlace? "||\n(ab\n||" = some (.unterminatedLiteral, "(ab", ⟨6, 2, 3⟩) by decide +kernel))
  have atEnd := syntax_errors_point_into_the_text (exists_of_errorPlace? (show
    errorPlace? "||\nany " = some (.missingElement, "any ", ⟨7, 2, 4⟩) by decide +kernel))
  have onEmptyLine := syntax_errors_point_into_the_text (exists_of_errorPlace? (show
    errorPlace? "||\n(a)\n" = some (.unclosedPattern, "", ⟨7, 3, 0⟩) by decide +kernel))
  obtain ⟨_, _, _, _, newlinePoints, _⟩ := atNewline
  obtain ⟨_, _, _, _, endPoints, _⟩ := atEnd
  obtain ⟨_, _, _, _, emptyLinePoints, _⟩ := onEmptyLine
  exact ⟨⟨_, _, _, _, newlinePoints⟩, ⟨_, _, _, _, endPoints⟩, ⟨_, _, _, _, emptyLinePoints⟩⟩

end PlainPattern
