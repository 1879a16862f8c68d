import PlainPattern.Proofs.LegalTrees

/-!
Contract: an edit that is refused before it has begun anything changes nothing.

Owns: which edits have begun nothing where they are refused (`Draft.StartsNothing`); edits carried
out in place, where a chain is taken apart link by link and stays so if a link refuses
(`Draft.applyInPlace`); the outcomes of a row of edits; and the main result
`refused_edits_change_nothing`. `Draft.apply` gives back the old draft with most refusals, so it
could hide a chain that was left half folded. Behind any row of edits there is none to hide, by the
invariant of `Proofs.SoundDraft`: `SoundlyLegal.applyInPlace_eq`.
-/

set_option autoImplicit false

namespace PlainPattern

/-! ## Edits in place -/

/-- Folds a chain in place, its end first. If a link cannot take a separator, that link and those in
front of it are gone, and only the links behind it are left. -/
def foldChain : Option Node → List Node → Except (Refusal × List Node) (Option Node)
  | joined, [] => .ok joined
  | none, link :: outer => foldChain (some link) outer
  | some separator, link :: outer =>
      match link.separatedBy? separator with
      | some joined => foldChain (some joined) outer
      | none => .error (.separatorWithoutRepeat, outer)

/-- The induction is on the chain: folding in place fails nowhere else. -/
theorem foldChain_of_joinChain {joined last : Option Node} {chain : List Node}
    (joins : joinChain joined chain = .ok last) : foldChain joined chain = .ok last := by
  induction chain generalizing joined with
  | nil =>
      cases joined <;> exact congrArg Except.ok (Except.ok.inj joins)
  | cons link outer inductionHypothesis =>
      cases joined with
      | none => exact inductionHypothesis joins
      | some separator =>
          rw [joinChain] at joins
          rw [foldChain]
          cases separated : link.separatedBy? separator with
          | none =>
              rw [separated] at joins
              cases joins
          | some joined =>
              rw [separated] at joins
              exact inductionHypothesis joins

namespace OpenBlock

/-- Puts a node in its place, and says what is left of the block if that is refused. -/
def placeInPlace (block : OpenBlock) (node : Node) (separates acceptsCriteria : Bool) :
    OpenBlock × Option Refusal :=
  if separates then
    ({ block with chain := node :: block.chain, repeatOpen := false, acceptsCriteria }, none)
  else
    match foldChain none block.chain with
    | .ok last =>
        ({ block with
          finished := block.finished ++ last.toList, chain := [node], repeatOpen := false,
          acceptsCriteria }, none)
    | .error (refusal, left) => ({ block with chain := left }, some refusal)

def addInPlace (block : OpenBlock) (lead : Lead) (body : Body) (acceptsCriteria : Bool) :
    OpenBlock × Option Refusal :=
  match block.checkPlacement lead with
  | .ok () => block.placeInPlace (lead.node body) lead.separates acceptsCriteria
  | .error refusal => (block, some refusal)

variable {block after : OpenBlock} {node : Node} {separates acceptsCriteria : Bool} {lead : Lead}

theorem placeInPlace_of_place (places : block.place node separates acceptsCriteria = .ok after) :
    block.placeInPlace node separates acceptsCriteria = (after, none) := by
  unfold OpenBlock.place OpenBlock.settled at places
  unfold OpenBlock.placeInPlace
  cases separates with
  | true =>
      cases places
      rfl
  | false =>
      cases joins : joinChain none block.chain with
      | error refusal =>
          rw [joins] at places
          cases places
      | ok last =>
          rw [joins] at places
          cases places
          rw [foldChain_of_joinChain joins]
          rfl

-- A chain that no edits build, since none of its links is repeated, is left with one link of three.
example :
    let link : Node := .mk (.reference "part") {} .once
    (OpenBlock.placeInPlace { chain := [link, link, link] } link false false).1.chain = [link] :=
  rfl

/-- A construct that may stand where its modifiers put it is placed there. -/
theorem Sound.exists_place {rules : TreeRules} {lead : Lead}
    (sound : block.Sound rules (Node.Obeys rules)) (allowed : block.checkPlacement lead = .ok ())
    (body : Body) (acceptsCriteria : Bool) :
    ∃ after, block.place (lead.node body) lead.separates acceptsCriteria = .ok after := by
  have forks : (lead.node body).forks = lead.forks := rfl
  obtain ⟨after, places, _⟩ := sound.place allowed forks (Eq.refl (lead.node body)) acceptsCriteria
  exact ⟨after, places⟩

/-- A construct is refused before any link is touched, or not at all. -/
theorem Sound.addInPlace_eq {rules : TreeRules} (sound : block.Sound rules (Node.Obeys rules))
    (lead : Lead) (body : Body) (acceptsCriteria : Bool) :
    block.addInPlace lead body acceptsCriteria =
      match block.add lead body acceptsCriteria with
      | .ok after => (after, none)
      | .error refusal => (block, some refusal) := by
  unfold OpenBlock.addInPlace OpenBlock.add
  cases allowed : block.checkPlacement lead with
  | error refusal => rfl
  | ok =>
      obtain ⟨after, places⟩ := sound.exists_place allowed body acceptsCriteria
      simp only [placeInPlace_of_place places, places]

end OpenBlock

namespace Draft

open Revision

/-- An edit of the innermost block that is carried out in place. -/
def editInPlace (draft : Draft) (edit : OpenBlock → OpenBlock × Option Refusal) : Revision :=
  match draft.current with
  | .pattern pattern =>
      let (block, refusal) := edit pattern.innermost
      ⟨{ draft with current := .pattern { pattern with innermost := block } }, refusal⟩
  | _ => refused .outsidePattern draft

/-- Closes the innermost block. Placing it works on the block around it in place. -/
def closeInPlace (draft : Draft) : Revision :=
  match draft.current with
  | .pattern pattern =>
      match pattern.enclosing with
      | [] => refused .noBlockToClose draft
      | parent :: enclosing =>
          let back (parent : OpenBlock) : Draft :=
            { draft with current := .pattern { pattern with innermost := parent, enclosing } }
          let closed := pattern.innermost
          if closed.isEmpty then refused .emptyBlock (back parent)
          else
            match closed.settled with
            | .error refusal => refused refusal (back parent)
            | .ok block =>
                let node := closed.lead.node (.block block.finished)
                let (placed, refusal) := parent.placeInPlace node closed.lead.separates false
                ⟨back placed, refusal⟩
  | _ => refused .outsidePattern draft

/-- The edits that fold a chain do it in place. All others check first and change nothing until they
have checked, or give up what they work on as a whole. -/
def applyInPlace (draft : Draft) : Edit → Revision
  | .addRule lead inclusive =>
      draft.editInPlace fun block => block.addInPlace lead (.rule ⟨inclusive, []⟩) true
  | .addReference name lead =>
      draft.editInPlace fun block => block.addInPlace lead (.reference name) false
  | .closeBlock => draft.closeInPlace
  | edit => draft.apply edit

section InPlace

variable {draft : Draft}

theorem SoundlyLegal.addInPlace_eq (sound : draft.SoundlyLegal) (lead : Lead) (body : Body)
    (acceptsCriteria : Bool) :
    (draft.editInPlace fun block => block.addInPlace lead body acceptsCriteria) =
      draft.editBlock fun block => block.add lead body acceptsCriteria := by
  obtain ⟨symbols, anonymous, current⟩ := draft
  cases current with
  | idle | charset => rfl
  | pattern pattern =>
      have isOpen : pattern.Sound .legal (Node.Obeys .legal) := sound.current
      simp only [Draft.editInPlace, Draft.editBlock, isOpen.innermost.addInPlace_eq]
      cases pattern.innermost.add lead body acceptsCriteria <;> rfl

theorem SoundlyLegal.closeInPlace_eq (sound : draft.SoundlyLegal) :
    draft.closeInPlace = draft.closeBlock := by
  obtain ⟨symbols, anonymous, current⟩ := draft
  cases current with
  | idle | charset => rfl
  | pattern pattern =>
      obtain ⟨name, closed, enclosing⟩ := pattern
      have isOpen : OpenPattern.Sound .legal (Node.Obeys .legal) ⟨name, closed, enclosing⟩ :=
        sound.current
      cases enclosing with
      | nil => rfl
      | cons parent outer =>
          obtain ⟨allowed, _, parentSound, _⟩ := isOpen.enclosing
          obtain ⟨nodes, settles, _⟩ := isOpen.innermost.settled
          obtain ⟨after, places⟩ := parentSound.exists_place allowed (.block nodes) false
          simp only [Draft.closeInPlace, Draft.closeBlock, settles, places,
            OpenBlock.placeInPlace_of_place places]
          rfl

/-- Carried out in place, an edit comes to the same: no chain is left half folded. -/
theorem SoundlyLegal.applyInPlace_eq (sound : draft.SoundlyLegal) (edit : Edit) :
    draft.applyInPlace edit = draft.apply edit := by
  cases edit with
  | addRule lead inclusive => exact sound.addInPlace_eq lead _ true
  | addReference name lead => exact sound.addInPlace_eq lead _ false
  | closeBlock => exact sound.closeInPlace_eq
  | _ => rfl

end InPlace

/-! ## Refusals -/

/-- Where it is refused here, the edit has not begun anything: it works on the innermost block, or
begins a symbol inside an open pattern, or ends a pattern or a block where none is open. -/
def StartsNothing (draft : Draft) : Edit → Prop
  | .openBlock _ | .addRule _ _ | .addReference _ _ | .addCriterion _ | .addRepeat _
  | .collectAs _ => True
  | .beginPattern _ | .beginCharset _ => ∃ pattern, draft.current = .pattern pattern
  | .endPattern => ∀ pattern, draft.current ≠ .pattern pattern
  | .closeBlock => ∀ pattern, draft.current = .pattern pattern → pattern.enclosing = []

/-- What comes of each edit of a row: nothing, or the reason for which it is refused. -/
def outcomes (draft : Draft) : List Edit → List (Option Refusal)
  | [] => []
  | edit :: rest => (draft.apply edit).refusal :: (draft.apply edit).draft.outcomes rest

section Refusals

variable {draft : Draft} {edit : Edit} {refusal : Refusal}

theorem openBlock_of_refused {lead : Lead}
    (refused : (draft.openBlock lead).refusal = some refusal) :
    (draft.openBlock lead).draft = draft := by
  unfold Draft.openBlock at refused ⊢
  split at refused
  · split at refused
    · cases refused
    · rfl
  · rfl

theorem addCriterion_of_refused {criterion : Criterion}
    (refused : (draft.addCriterion criterion).refusal = some refusal) :
    (draft.addCriterion criterion).draft = draft := by
  unfold Draft.addCriterion at refused ⊢
  split at refused
  · split at refused
    · rename_i itself
      rw [if_pos itself]
      rfl
    · cases refused
  · exact editBlock_of_refused refused
  · rfl

theorem addRepeat_of_refused {bounds : Bounds}
    (refused : (draft.addRepeat bounds).refusal = some refusal) :
    (draft.addRepeat bounds).draft = draft := by
  unfold Draft.addRepeat at refused ⊢
  split at refused
  · rename_i valid
    rw [if_pos valid]
    exact editBlock_of_refused refused
  · rename_i invalid
    rw [if_neg invalid]
    rfl

/-- What begins a symbol commits first, and inside a pattern it comes no further. -/
theorem begin_of_open {pattern : OpenPattern} (isOpen : draft.current = .pattern pattern)
    (continuation : Draft → Revision) :
    draft.commit.andThen continuation = refused .patternNeverClosed draft := by
  simp only [Draft.commit, isOpen]
  rfl

theorem draft_of_refused (starts : draft.StartsNothing edit)
    (refused : (draft.apply edit).refusal = some refusal) : (draft.apply edit).draft = draft := by
  cases edit with
  | openBlock lead => exact openBlock_of_refused refused
  | addRule | addReference | collectAs => exact editBlock_of_refused refused
  | addCriterion criterion => exact addCriterion_of_refused refused
  | addRepeat bounds => exact addRepeat_of_refused refused
  | beginPattern | beginCharset =>
      obtain ⟨pattern, isOpen⟩ := starts
      exact congrArg Revision.draft (begin_of_open isOpen _)
  | endPattern =>
      simp only [Draft.apply, Draft.endPattern]
      split
      · rename_i pattern isOpen
        exact absurd isOpen (starts pattern)
      · rfl
  | closeBlock =>
      simp only [Draft.apply, Draft.closeBlock]
      split
      · rename_i pattern isOpen
        rw [starts pattern isOpen]
        rfl
      · rfl

theorem outcomes_append (earlier later : List Edit) :
    draft.outcomes (earlier ++ later) =
      draft.outcomes earlier ++ (draft.afterAll earlier).outcomes later := by
  induction earlier generalizing draft with
  | nil => rfl
  | cons edit rest inductionHypothesis =>
      exact congrArg ((draft.apply edit).refusal :: ·) inductionHypothesis

theorem length_outcomes (edits : List Edit) : (draft.outcomes edits).length = edits.length := by
  induction edits generalizing draft with
  | nil => rfl
  | cons edit rest inductionHypothesis => exact congrArg Nat.succ inductionHypothesis

theorem afterAll_append (earlier later : List Edit) :
    draft.afterAll (earlier ++ later) = (draft.afterAll earlier).afterAll later :=
  List.foldl_append

/-- An edit that leaves the draft alone may be left out of a row. -/
theorem outcomes_eraseIdx {earlier : List Edit}
    (rests : ((draft.afterAll earlier).apply edit).draft = draft.afterAll earlier)
    (later : List Edit) :
    (draft.outcomes (earlier ++ edit :: later)).eraseIdx earlier.length =
      draft.outcomes (earlier ++ later) := by
  rw [outcomes_append, outcomes_append, List.eraseIdx_append_of_length_le
    (Nat.le_of_eq (length_outcomes earlier)), length_outcomes, Nat.sub_self, outcomes, rests]
  rfl

end Refusals

end Draft

/-- Behind any row of edits, refused ones among them, edits that are carried out in place come to
the same, so none of them leaves a chain half folded. An edit that is refused where it has begun
nothing leaves the draft as it was; and without it a row of edits comes to the same: every other
edit has the outcome that it had, and sealing the draft ends alike. -/
theorem refused_edits_change_nothing (earlier : List Edit) (edit : Edit) (refusal : Refusal)
    (starts : (Draft.afterAll {} earlier).StartsNothing edit)
    (refused : ((Draft.afterAll {} earlier).apply edit).refusal = some refusal) :
    (∀ other : Edit, (Draft.afterAll {} earlier).applyInPlace other =
      (Draft.afterAll {} earlier).apply other) ∧
    (Draft.afterAll {} earlier).apply edit = .refused refusal (Draft.afterAll {} earlier) ∧
    ∀ later : List Edit,
      (Draft.outcomes {} (earlier ++ edit :: later)).eraseIdx earlier.length =
        Draft.outcomes {} (earlier ++ later) ∧
      (Draft.afterAll {} (earlier ++ edit :: later)).finish =
        (Draft.afterAll {} (earlier ++ later)).finish := by
  have rests := Draft.draft_of_refused starts refused
  refine ⟨(Draft.soundlyLegal_empty.afterAll earlier).applyInPlace_eq, ?_, fun later => ⟨?_, ?_⟩⟩
  · generalize (Draft.afterAll {} earlier).apply edit = revision at refused rests
    cases revision
    cases refused
    exact congrArg (Revision.refused refusal) rests
  · exact Draft.outcomes_eraseIdx rests later
  · rw [Draft.afterAll_append, Draft.afterAll_append, Draft.afterAll, List.foldl_cons, rests]
    rfl

/-- Edits that end with a chain of two links, a repeated rule and its separator. -/
def chainedEdits : List Edit :=
  [.beginPattern (some "word"), .addRule {} true, .addCriterion (.literal "a"),
    .addRepeat ⟨2, some 3⟩, .addRule { separates := true } true, .addCriterion (.literal ",")]

/-- A second separator for the same repeat is refused with the chain as it was, and the pattern ends
as it does without it. -/
theorem second_separator_changes_nothing :
    let draft := Draft.afterAll {} chainedEdits
    let separator : Edit := .addReference "other" { separates := true }
    draft.StartsNothing separator ∧
      draft.apply separator = .refused .separatorWithoutRepeat draft ∧
      (Draft.afterAll {} (chainedEdits ++ [separator, .endPattern])).finish =
        (Draft.afterAll {} (chainedEdits ++ [.endPattern])).finish ∧
      Draft.outcomes {} (chainedEdits ++ [.endPattern]) = List.replicate 7 none := by
  intro draft separator
  have refused : (draft.apply separator).refusal = some .separatorWithoutRepeat := by decide
  have changes := refused_edits_change_nothing chainedEdits separator .separatorWithoutRepeat
    trivial refused
  exact ⟨trivial, changes.2.1, (changes.2.2 [.endPattern]).2, by decide⟩

end PlainPattern
