import PlainPattern.Proofs.SoundDraft

/-!
Contract: no edits, whichever are made and whichever are refused, lead to an illegal tree.

Owns: the draft that a row of edits leaves behind, the step lemma `SoundlyLegal.apply`, the run
lemma `SoundlyLegal.afterAll`, and the main result `built_schema_is_legal`.
-/

set_option autoImplicit false

namespace PlainPattern

/-- The draft behind a row of edits, where an edit that is refused does not stop the next. -/
def Draft.afterAll (draft : Draft) (edits : List Edit) : Draft :=
  edits.foldl (fun draft edit => (draft.apply edit).draft) draft

/-- A draft in which every part obeys the rules of legal trees. -/
abbrev Draft.SoundlyLegal (draft : Draft) : Prop :=
  draft.Sound .legal (Node.Obeys .legal)

namespace Draft

variable {draft : Draft}

theorem soundlyLegal_empty : ({} : Draft).SoundlyLegal where
  symbols := by
    intro key symbol found
    cases found
  current := trivial

/-- An edit of the innermost block that is refused changes nothing; one that is accepted keeps the
block legal if the node placed last stays so. -/
theorem SoundlyLegal.editBlock (sound : draft.SoundlyLegal)
    {edit : OpenBlock → Except Refusal OpenBlock}
    (each : ∀ block after, block.Sound .legal (Node.Obeys .legal) → edit block = .ok after →
      after.Sound .legal (Node.Obeys .legal) ∧ after.lead = block.lead) :
    (draft.editBlock edit).draft.SoundlyLegal := by
  cases outcome : (draft.editBlock edit).refusal with
  | none => exact Sound.editBlock sound each outcome
  | some refusal =>
      rw [editBlock_of_refused outcome]
      exact sound

theorem SoundlyLegal.add (sound : draft.SoundlyLegal) (lead : Lead) (body : Body)
    (obeys : body.Obeys .legal) (acceptsCriteria : Bool) :
    (draft.editBlock fun block => block.add lead body acceptsCriteria).draft.SoundlyLegal :=
  sound.editBlock fun _ _ blockSound added => blockSound.add ⟨trivial, obeys, trivial⟩ added

theorem SoundlyLegal.addCriterion (sound : draft.SoundlyLegal) (criterion : Criterion) :
    (draft.addCriterion criterion).draft.SoundlyLegal := by
  unfold Draft.addCriterion
  split
  · rename_i charset isCharset
    split
    · exact sound
    · have current := sound.current
      rw [isCharset] at current
      exact ⟨sound.symbols, current.1, fun _ _ => trivial⟩
  · refine sound.editBlock fun block after blockSound added => blockSound.addCriterion ?_ added
    exact fun rule marks repetition obeys => obeys
  · exact sound

theorem SoundlyLegal.addRepeat (sound : draft.SoundlyLegal) (bounds : Bounds) :
    (draft.addRepeat bounds).draft.SoundlyLegal := by
  unfold Draft.addRepeat
  split
  · rename_i valid
    refine sound.editBlock fun block after blockSound added => blockSound.addRepeat ?_ added
    intro body marks affirmed obeys
    exact ⟨trivial, obeys.2.1, affirmed, validRepeat_eq_true_iff.1 valid⟩
  · exact sound

/-- One edit keeps a draft sound, accepted or not. -/
theorem SoundlyLegal.apply (sound : draft.SoundlyLegal) (edit : Edit) :
    (draft.apply edit).draft.SoundlyLegal := by
  cases edit with
  | beginPattern name => exact Sound.beginPattern sound name
  | endPattern => exact Sound.endPattern sound
  | beginCharset name => exact Sound.beginCharset sound name
  | openBlock lead => exact Sound.openBlock sound trivial
  | closeBlock => exact Sound.closeBlock sound
  | addRule lead inclusive => exact sound.add lead (.rule ⟨inclusive, []⟩) trivial true
  | addReference name lead => exact sound.add lead (.reference name) trivial false
  | addCriterion criterion => exact sound.addCriterion criterion
  | addRepeat bounds => exact sound.addRepeat bounds
  | collectAs name =>
      refine sound.editBlock fun block after blockSound added => blockSound.collectAs ?_ added
      intro body marks repetition obeys
      cases repetition <;> exact obeys

/-- So does a whole row of edits. -/
theorem SoundlyLegal.afterAll (sound : draft.SoundlyLegal) (edits : List Edit) :
    (draft.afterAll edits).SoundlyLegal := by
  induction edits generalizing draft with
  | nil => exact sound
  | cons edit rest inductionHypothesis => exact inductionHypothesis (sound.apply edit)

theorem Sound.legal_of_finish {schema : Schema} (sound : draft.SoundlyLegal)
    (finished : draft.finish = .ok schema) : schema.Legal := by
  have symbols := (Sound.commit sound).symbols
  obtain ⟨rfl, acyclic, _⟩ := finish_eq_ok finished
  refine ⟨fun key symbol found => (symbols key symbol found).1, ?_,
    fun key symbol found => (symbols key symbol found).2.2, acyclic⟩
  intro key symbol found
  exact Keyword.reserved_eq_false_iff.1 (symbols key symbol found).2.1

theorem Encloses.sound {rules : TreeRules} {lead : Lead} {outer : List OpenBlock}
    (encloses : Encloses rules lead outer) :
    ∀ block ∈ outer, block.Sound rules (Node.Obeys rules) := by
  induction outer generalizing lead with
  | nil => simp
  | cons parent rest inductionHypothesis =>
      intro block member
      rcases List.mem_cons.1 member with rfl | inRest
      · exact encloses.2.2.1
      · exact inductionHypothesis encloses.2.2.2 block inRest

end Draft

/-- Whatever edits are made to an empty draft, refused ones among them: if it can be sealed, the
schema is legal. And on the way, settling an open block never fails, be it the innermost or one
around it: no separator hangs off a node that is not repeated. -/
theorem built_schema_is_legal (edits : List Edit) :
    (∀ schema, (Draft.afterAll {} edits).finish = .ok schema → schema.Legal) ∧
    (∀ pattern, (Draft.afterAll {} edits).current = .pattern pattern →
      ∀ block ∈ pattern.innermost :: pattern.enclosing,
        ∃ settled, block.settled = .ok settled) := by
  have sound := Draft.soundlyLegal_empty.afterAll edits
  refine ⟨fun schema finished => Draft.Sound.legal_of_finish sound finished, ?_⟩
  intro pattern isPattern block member
  have current := sound.current
  rw [isPattern] at current
  have blockSound : block.Sound .legal (Node.Obeys .legal) := by
    rcases List.mem_cons.1 member with rfl | isEnclosing
    · exact current.innermost
    · exact Draft.Encloses.sound current.enclosing block isEnclosing
  obtain ⟨nodes, settles, _⟩ := blockSound.settled
  exact ⟨_, settles⟩

/-- Edits of which some are refused: an empty pattern is given up, an empty block is closed, a
separator comes before its repeat, and a name is taken already. -/
def unevenEdits : List Edit :=
  [.beginPattern none, .endPattern, .beginCharset "ab", .addCriterion (.range 'a' 'b'),
    .beginPattern (some "word"), .openBlock {}, .closeBlock, .addRule {} true,
    .addReference "other" { separates := true }, .addCriterion (.symbol "ab"),
    .addRepeat ⟨2, some 3⟩, .addReference "other" { separates := true }, .endPattern,
    .beginCharset "word"]

/-- What remains of uneven edits is legal. -/
theorem uneven_edits_build_legal_schema :
    ∃ schema, (Draft.afterAll {} unevenEdits).finish = .ok schema ∧ schema.Legal ∧
      schema.names = ["ab", "word"] := by
  have names : (Draft.afterAll {} unevenEdits).finish.toOption.map Schema.names =
      some ["ab", "word"] := by decide +kernel
  cases finished : (Draft.afterAll {} unevenEdits).finish with
  | error refusal =>
      rw [finished] at names
      cases names
  | ok schema =>
      rw [finished] at names
      exact ⟨schema, rfl, (built_schema_is_legal unevenEdits).1 schema finished,
        Option.some.inj names⟩

end PlainPattern
