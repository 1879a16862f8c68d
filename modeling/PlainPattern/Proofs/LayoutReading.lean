import Mathlib.Logic.Relation
import PlainPattern.Proofs.BlindMoves
import PlainPattern.Proofs.CompiledTrees
import PlainPattern.Proofs.DeclaredNames

/-!
Contract: how a text is laid out on its lines makes no difference to what it compiles to.

Owns: the run lemma `Reads.relaid`, which reads a text in another layout and with more lines behind
it, and from there goes on in those lines; the changes of layout that a text allows; and the main
result `layout_does_not_matter`.
-/

set_option autoImplicit false

namespace PlainPattern

open Text Lexeme Reading

/-- In another layout a text says the same, and what stands behind it is read with its names
declared. The induction is on the reading of the text. -/
theorem Reads.relaid {declared new : List String} {place : Place} {rest : List Char}
    {edits : List Edit} (reads : Reads declared place rest edits new) {more laid : List Char}
    (ends : EndsLine more) (alike : place.Laid more rest laid) :
    onward declared place laid =
      (onward (new.reverse ++ declared) (.top none) more).behind edits := by
  induction reads generalizing laid with
  | ended moved =>
      obtain ⟨_, rfl, rfl⟩ := Place.stop_among moved
      cases laid_step ends alike with
      | skipped comment _ =>
          rw [moved] at comment
          cases comment
      | mirrored _ mirrors =>
          rw [moved] at mirrors
          exact absurd rfl mirrors
      | ended _ _ same => exact same
  | @goes declared new place next rest after edits later moved behind inductionHypothesis =>
      cases laid_step ends alike with
      | skipped comment onComment =>
          rw [moved] at comment
          cases comment
          exact inductionHypothesis onComment
      | mirrored same mirrors =>
          rw [moved] at mirrors
          obtain ⟨laidAfter, laidMoved, laidNext⟩ := mirrors
          rw [same, onward_go laidMoved, inductionHypothesis laidNext, behind_behind]
      | ended stopped _ _ =>
          rw [moved] at stopped
          cases stopped
  | @declares declared new place rest after name later moved behind inductionHypothesis =>
      cases laid_step ends alike with
      | skipped comment _ =>
          rw [moved] at comment
          cases comment
      | mirrored same mirrors =>
          rw [moved] at mirrors
          obtain ⟨laidAfter, laidMoved, opens⟩ := mirrors
          rw [same, onward_declare laidMoved, inductionHypothesis opens, List.reverse_cons,
            List.append_assoc, List.singleton_append]
      | ended stopped _ _ =>
          rw [moved] at stopped
          cases stopped

/-- With nothing but blanks and comments behind it, a text says in every layout what it says. -/
theorem ofText_relaid {source laid more : List Char} (noFault : (ofText source).fault = none)
    (ends : EndsLine more) (nothing : skipGap false more = []) (alike : Opens more source laid) :
    ofText laid = ofText source := by
  have reads := reads_of_reading noFault
  have same := reads.relaid ends alike
  have skipped : skipGap false more = skipGap false [] := nothing
  rw [onward_of_skipGap (Place.betweenLines_top _ none) skipped,
    onward_stop (show Place.move _ (.top none) [] = .stop [] none from rfl)] at same
  rw [ofText, same, ofText, reads.onward_eq]
  simp [behind]

/-! ## Changes of layout -/

/-- What stands in front of the beginning of a line. -/
def BeforeLine (before : List Char) : Prop :=
  ∀ last ∈ before.getLast?, last = '\n'

/-- One change in the layout of a text: a line of blanks and perhaps a comment is put in where a
line begins, or behind the last line; blanks are added at the beginning or at the end of a line; or
a comment is added at the end of one. -/
inductive LayoutEdit : List Char → List Char → Prop where
  | insertLine {before after line : List Char} (atBeginning : BeforeLine before)
      (isLine : LineTrail line) : LayoutEdit (before ++ after) (before ++ (line ++ '\n' :: after))
  | appendLine {text line : List Char} (isLine : LineTrail line) :
      LayoutEdit text (text ++ '\n' :: line)
  | indent {before after blanks : List Char} (atBeginning : BeforeLine before)
      (inLine : ∀ blank ∈ blanks, isInlineBlank blank) :
      LayoutEdit (before ++ after) (before ++ (blanks ++ after))
  | pad {before after blanks : List Char} (atEnd : EndsLine after)
      (inLine : ∀ blank ∈ blanks, isInlineBlank blank) :
      LayoutEdit (before ++ after) (before ++ (blanks ++ after))
  | comment {before after text : List Char} (atEnd : EndsLine after) (inLine : '\n' ∉ text) :
      LayoutEdit (before ++ after) (before ++ '#' :: (text ++ after))

/-! ### What a change leaves alone -/

theorem lineGap_of_lineTrail {line gap : List Char} (isLine : LineTrail line)
    (isGap : LineGap gap) : LineGap (line ++ '\n' :: gap) := by
  induction isLine with
  | nothing => exact .blank (by decide) isGap
  | blank isInline _ inductionHypothesis =>
      exact .blank (isBlank_of_isInlineBlank isInline) inductionHypothesis
  | comment inLine => exact .comment inLine isGap

theorem lineTrail_of_blanks {blanks : List Char} (inLine : ∀ blank ∈ blanks, isInlineBlank blank) :
    LineTrail blanks := by
  induction blanks with
  | nil => exact .nothing
  | cons blank later inductionHypothesis =>
      exact .blank (inLine blank List.mem_cons_self)
        (inductionHypothesis fun other member => inLine other (List.mem_cons_of_mem _ member))

theorem lineGap_of_blanks {blanks : List Char} (inLine : ∀ blank ∈ blanks, isInlineBlank blank) :
    LineGap blanks := by
  induction blanks with
  | nil => exact .nothing
  | cons blank later inductionHypothesis =>
      exact .blank (isBlank_of_isInlineBlank (inLine blank List.mem_cons_self))
        (inductionHypothesis fun other member => inLine other (List.mem_cons_of_mem _ member))

/-- The same text in front of two layouts of a text. -/
theorem Relaid.append {more rest laid : List Char} (relaid : Relaid more rest laid)
    (before : List Char) : Relaid more (before ++ rest) (before ++ laid) := by
  induction before with
  | nil => exact relaid
  | cons character before inductionHypothesis =>
      by_cases atNewline : character = '\n'
      · subst atNewline
        show Relaid more _ ([] ++ '\n' :: ([] ++ (before ++ laid)))
        exact .newline .nothing .nothing inductionHypothesis
      · exact .character atNewline inductionHypothesis

theorem relaid_trail {after trail : List Char} (before : List Char) (atEnd : EndsLine after)
    (isTrail : LineTrail trail) : Relaid [] (before ++ after) (before ++ (trail ++ after)) := by
  refine Relaid.append ?_ before
  rcases atEnd.cases with rfl | ⟨tail, rfl⟩
  · exact .finish isTrail
  · exact .newline isTrail .nothing (Relaid.refl tail)

theorem opens_gap {before gap : List Char} (after : List Char) (atBeginning : BeforeLine before)
    (isGap : LineGap gap) : Opens [] (before ++ after) (before ++ (gap ++ after)) := by
  have ends : EndsLine [] := by simp [EndsLine]
  rcases List.eq_nil_or_concat before with rfl | ⟨front, last, rfl⟩
  · exact ((Relaid.refl after).opens ends).congr rfl (isGap.skipGap_append after)
  · obtain rfl : last = '\n' := atBeginning last (by simp)
    have behind : Relaid [] ('\n' :: after) ('\n' :: (gap ++ after)) :=
      .newline .nothing isGap (Relaid.refl after)
    simpa using (behind.append front).opens ends

theorem LayoutEdit.ofText_eq {source edited : List Char} (edit : LayoutEdit source edited)
    (noFault : (ofText source).fault = none) : ofText edited = ofText source := by
  have ends : EndsLine [] := by simp [EndsLine]
  cases edit with
  | @insertLine before after line atBeginning isLine =>
      have isGap := lineGap_of_lineTrail isLine .nothing
      have opens := opens_gap after atBeginning isGap
      exact ofText_relaid noFault ends rfl (by simpa using opens)
  | @appendLine _ line isLine =>
      have relaid : Relaid ('\n' :: line) source (source ++ '\n' :: line) := by
        simpa using Relaid.append (.finish .nothing) source
      refine ofText_relaid noFault (endsLine_newline line) ?_ (relaid.opens (endsLine_newline line))
      rw [skipGap_newline]
      simpa [skipGap] using isLine.skipGap_append ends false
  | indent atBeginning inLine =>
      exact ofText_relaid noFault ends rfl (opens_gap _ atBeginning (lineGap_of_blanks inLine))
  | @pad before after blanks atEnd inLine =>
      exact ofText_relaid noFault ends rfl
        ((relaid_trail before atEnd (lineTrail_of_blanks inLine)).opens ends)
  | @comment before after text atEnd inLine =>
      exact ofText_relaid noFault ends rfl
        ((relaid_trail before atEnd (.comment inLine)).opens ends)

theorem ofText_eq_of_layoutEdits {source edited : List Char}
    (edits : Relation.ReflTransGen LayoutEdit source edited)
    (noFault : (ofText source).fault = none) : ofText edited = ofText source := by
  induction edits with
  | refl => rfl
  | tail _ edit inductionHypothesis =>
      rw [edit.ofText_eq (inductionHypothesis ▸ noFault), inductionHypothesis]

/-- Every line ended by a carriage return and a newline. -/
def withReturns (text : List Char) : List Char :=
  text.flatMap fun character => if character = '\n' then ['\r', '\n'] else [character]

/-- Each carriage return is a blank at the end of its line. -/
theorem layoutEdits_withReturns (before text : List Char) :
    Relation.ReflTransGen LayoutEdit (before ++ text) (before ++ withReturns text) := by
  induction text generalizing before with
  | nil => exact .refl
  | cons character rest inductionHypothesis =>
      by_cases atNewline : character = '\n'
      · subst atNewline
        have padded : LayoutEdit (before ++ '\n' :: rest) (before ++ (['\r'] ++ '\n' :: rest)) :=
          .pad (endsLine_newline rest) (List.forall_mem_singleton.2 (by decide))
        have later := inductionHypothesis (before ++ ['\r', '\n'])
        refine .head padded ?_
        simpa [withReturns] using later
      · have later := inductionHypothesis (before ++ [character])
        simpa [withReturns, atNewline] using later

/-- A text compiles to the same schema in every layout of its lines, whether they end in newlines
alone or in carriage returns and newlines. -/
theorem layout_does_not_matter {source : String} {schema : Schema}
    (compiled : compile source = .ok schema) :
    (∀ edited : String, Relation.ReflTransGen LayoutEdit source.toList edited.toList →
      compile edited = .ok schema) ∧
    compile (String.ofList (withReturns source.toList)) = .ok schema := by
  have laidOut (edited : String)
      (edits : Relation.ReflTransGen LayoutEdit source.toList edited.toList) :
      compile edited = .ok schema := by
    obtain ⟨noFault, draft, applied, finished⟩ := Reading.schema_eq_ok compiled
    rw [compile, ofText_eq_of_layoutEdits edits noFault]
    simp [Reading.schema, applied, noFault, finished]
  refine ⟨laidOut, laidOut _ ?_⟩
  rw [String.toList_ofList]
  exact layoutEdits_withReturns [] source.toList

/-- A pattern with a list that holds a range and a charset. -/
def plainSource : String :=
  "@ab\n||\nany a to c, cd\n||\n@cd\nx"

/-- The same with a comment behind the list, and a line of its own for another one at the end. -/
def commentedSource : String :=
  "@ab\n||\nany a to c, cd#list\n||\n@cd\nx\n # end"

/-- The list goes on to a name at the end of its line, where the comment follows. -/
theorem commented_source_compiles_alike :
    ∃ schema, compile plainSource = .ok schema ∧ schema.names = ["ab", "cd"] ∧
      compile commentedSource = .ok schema ∧
      compile (String.ofList (withReturns plainSource.toList)) = .ok schema := by
  let before := "@ab\n||\nany a to c, cd".toList
  let after := '\n' :: "||\n@cd\nx".toList
  let middle := before ++ '#' :: ("list".toList ++ after)
  have start : plainSource.toList = before ++ after := by decide +kernel
  have shown : commentedSource.toList = middle ++ '\n' :: " # end".toList := by decide +kernel
  have commented : LayoutEdit (before ++ after) middle :=
    .comment (endsLine_newline _) (by decide)
  have appended : LayoutEdit middle (middle ++ '\n' :: " # end".toList) :=
    .appendLine (.blank (by decide) (.comment (by decide)))
  have edits : Relation.ReflTransGen LayoutEdit plainSource.toList commentedSource.toList := by
    rw [start, shown]
    exact .tail (.single commented) appended
  obtain ⟨schema, compiled, names⟩ := exists_of_view plainSource Schema.names ["ab", "cd"]
    (by decide +kernel)
  obtain ⟨laidOut, returned⟩ := layout_does_not_matter compiled
  exact ⟨schema, compiled, names, laidOut commentedSource edits, returned⟩

end PlainPattern
