import PlainPattern.Draft.CharsetCycle
import PlainPattern.Draft.OpenBlock
import PlainPattern.Schema.Keyword

/-!
Contract: a schema under construction, and the edits that build it.

Owns: the draft, the ten edits, and what each of them leaves behind. An edit is either accepted or
refused for a reason, and a draft can be edited further after a refusal. Most refusals change
nothing; those that do are the ones that give something up: an empty block is dropped when it is
closed, a pattern is dropped when it cannot be ended, an empty charset is dropped when the next
symbol begins. `finish` turns a draft into a schema, and `applyAll` makes edits up to the first
refusal.
-/

set_option autoImplicit false

namespace PlainPattern

/-- A pattern that is still open: its innermost open block, and the blocks around that one. -/
structure OpenPattern where
  name : String
  innermost : OpenBlock := {}
  enclosing : List OpenBlock := []

inductive Construction where
  | idle
  | pattern (pattern : OpenPattern)
  | charset (charset : Charset)

inductive Edit where
  /-- A pattern without a name takes the next number. -/
  | beginPattern (name : Option String)
  | endPattern
  | beginCharset (name : String)
  | openBlock (lead : Lead)
  | closeBlock
  | addRule (lead : Lead) (inclusive : Bool)
  | addReference (name : String) (lead : Lead)
  | addCriterion (criterion : Criterion)
  | addRepeat (bounds : Bounds)
  | collectAs (name : String)
deriving DecidableEq, Repr

structure Draft where
  symbols : Table Symbol := ∅
  /-- How many patterns without a name have begun. -/
  anonymous : Nat := 0
  current : Construction := .idle

/-- The draft after an edit, and the reason if the edit was refused. -/
structure Revision where
  draft : Draft
  refusal : Option Refusal

namespace Revision

def accepted (draft : Draft) : Revision :=
  ⟨draft, none⟩

def refused (refusal : Refusal) (draft : Draft) : Revision :=
  ⟨draft, some refusal⟩

/-- Goes on with the next step unless this one was refused. -/
def andThen (revision : Revision) (next : Draft → Revision) : Revision :=
  match revision.refusal with
  | none => next revision.draft
  | some _ => revision

theorem andThen_of_accepted {revision : Revision} {next : Draft → Revision}
    (accepted : (revision.andThen next).refusal = none) :
    revision.andThen next = next revision.draft := by
  unfold andThen at accepted ⊢
  split
  · rfl
  · rename_i refused
    rw [refused] at accepted
    simp only [refused, reduceCtorEq] at accepted

end Revision

namespace Draft

open Revision

/-- No symbol has this name yet, the one being built included. -/
def nameIsUnused (draft : Draft) (name : String) : Bool :=
  let inProgress :=
    match draft.current with
    | .idle => false
    | .pattern pattern => pattern.name == name
    | .charset charset => charset.name == name
  !inProgress && !draft.symbols.contains name

/-- A name may be given to a symbol if it is neither reserved nor taken. -/
def nameIsFree (draft : Draft) (name : String) : Bool :=
  !Keyword.reserved name && draft.nameIsUnused name

/-- Stores the charset being built. A pattern is stored when it ends, so an open one is in the
way. -/
def commit (draft : Draft) : Revision :=
  match draft.current with
  | .idle => accepted draft
  | .charset charset =>
      if charset.criteria.isEmpty then refused .emptyCharset { draft with current := .idle }
      else accepted { draft with
        symbols := draft.symbols.insert charset.name (.charset charset), current := .idle }
  | .pattern _ => refused .patternNeverClosed draft

/-- Begins what `construction` makes of a name that is still free. -/
def beginNamed (name : String) (construction : Construction) (draft : Draft) : Revision :=
  if draft.nameIsFree name then accepted { draft with current := construction }
  else refused (.nameTaken name) draft

theorem beginNamed_of_accepted {name : String} {construction : Construction} {draft : Draft}
    (begun : (draft.beginNamed name construction).refusal = none) :
    draft.beginNamed name construction = accepted { draft with current := construction } := by
  unfold beginNamed at begun ⊢
  split at begun
  · rename_i isFree
    rw [if_pos isFree]
  · cases begun

def beginPattern (draft : Draft) (name : Option String) : Revision :=
  draft.commit.andThen fun draft =>
    match name with
    | some name => draft.beginNamed name (.pattern { name })
    | none =>
        let name := toString draft.anonymous
        accepted { draft with
          anonymous := draft.anonymous + 1, current := .pattern { name } }

def beginCharset (draft : Draft) (name : String) : Revision :=
  draft.commit.andThen fun draft => draft.beginNamed name (.charset ⟨name, []⟩)

/-- Stores the pattern being built. One that is empty or has an open block is given up. -/
def endPattern (draft : Draft) : Revision :=
  match draft.current with
  | .pattern pattern =>
      let without : Draft := { draft with current := .idle }
      if !pattern.enclosing.isEmpty then refused .patternEndedInsideBlock without
      else if pattern.innermost.isEmpty then refused .emptyPattern without
      else
        match pattern.innermost.settled with
        | .ok root =>
            let symbol := Symbol.pattern ⟨pattern.name, root.finished⟩
            accepted { without with symbols := draft.symbols.insert pattern.name symbol }
        | .error refusal => refused refusal without
  | _ => refused .noPatternToEnd draft

def openBlock (draft : Draft) (lead : Lead) : Revision :=
  match draft.current with
  | .pattern pattern =>
      match pattern.innermost.checkPlacement lead with
      | .ok () =>
          let parent := { pattern.innermost with acceptsCriteria := false }
          accepted { draft with current := .pattern { pattern with
            innermost := { lead }, enclosing := parent :: pattern.enclosing } }
      | .error refusal => refused refusal draft
  | _ => refused .outsidePattern draft

/-- Closes the innermost block and places it in the one around it. An empty block is given up. -/
def closeBlock (draft : Draft) : Revision :=
  match draft.current with
  | .pattern pattern =>
      match pattern.enclosing with
      | [] => refused .noBlockToClose draft
      | parent :: enclosing =>
          let back (parent : OpenBlock) : Draft :=
            { draft with current := .pattern { pattern with innermost := parent, enclosing } }
          let closed := pattern.innermost
          if closed.isEmpty then refused .emptyBlock (back parent)
          else
            match closed.settled with
            | .error refusal => refused refusal (back parent)
            | .ok block =>
                let node := closed.lead.node (.block block.finished)
                match parent.place node closed.lead.separates false with
                | .error refusal => refused refusal (back parent)
                | .ok parent => accepted (back parent)
  | _ => refused .outsidePattern draft

def editBlock (draft : Draft) (edit : OpenBlock → Except Refusal OpenBlock) : Revision :=
  match draft.current with
  | .pattern pattern =>
      match edit pattern.innermost with
      | .ok block => accepted { draft with current := .pattern { pattern with innermost := block } }
      | .error refusal => refused refusal draft
  | _ => refused .outsidePattern draft

/-- Adds a criterion to the charset being built or to the rule that was added last. -/
def addCriterion (draft : Draft) (criterion : Criterion) : Revision :=
  match draft.current with
  | .charset charset =>
      if criterion = .symbol charset.name then refused .charsetContainsItself draft
      else
        let extended : Charset := { charset with criteria := charset.criteria ++ [criterion] }
        accepted { draft with current := .charset extended }
  | .pattern _ => draft.editBlock fun block => block.addCriterion criterion
  | .idle => refused .criterionWithoutOwner draft

/-- A repeat is at least once, and its maximum is not below its minimum. -/
def validRepeat (bounds : Bounds) : Bool :=
  bounds.min != 0 && bounds.max.all fun max => decide (bounds.min ≤ max)

theorem validRepeat_eq_true_iff {bounds : Bounds} :
    validRepeat bounds = true ↔
      1 ≤ bounds.min ∧ ∀ max, bounds.max = some max → bounds.min ≤ max := by
  unfold validRepeat
  cases bounds.max <;> simp [Nat.one_le_iff_ne_zero]

def addRepeat (draft : Draft) (bounds : Bounds) : Revision :=
  if validRepeat bounds then draft.editBlock fun block => block.addRepeat bounds
  else refused .invalidRepeatRange draft

def apply (draft : Draft) : Edit → Revision
  | .beginPattern name => draft.beginPattern name
  | .endPattern => draft.endPattern
  | .beginCharset name => draft.beginCharset name
  | .openBlock lead => draft.openBlock lead
  | .closeBlock => draft.closeBlock
  | .addRule lead inclusive =>
      draft.editBlock fun block => block.add lead (.rule ⟨inclusive, []⟩) true
  | .addReference name lead =>
      draft.editBlock fun block => block.add lead (.reference name) false
  | .addCriterion criterion => draft.addCriterion criterion
  | .addRepeat bounds => draft.addRepeat bounds
  | .collectAs name => draft.editBlock fun block => block.collectAs name

/-- Seals the draft. No pattern may be open, and no charset may lead back to itself. -/
def finish (draft : Draft) : Except Refusal Schema :=
  let sealed := draft.commit
  match sealed.refusal with
  | some refusal => .error refusal
  | none =>
      match findCharsetCycle? sealed.draft.symbols with
      | some cycle => .error (.charsetCycle cycle)
      | none => .ok ⟨sealed.draft.symbols⟩

/-- The draft after all of these edits, or the first refusal among them. -/
def applyAll (draft : Draft) : List Edit → Except Refusal Draft
  | [] => .ok draft
  | edit :: rest =>
      let revision := draft.apply edit
      match revision.refusal with
      | none => revision.draft.applyAll rest
      | some refusal => .error refusal

theorem applyAll_cons_eq_ok_iff {draft after : Draft} {edit : Edit} {rest : List Edit} :
    draft.applyAll (edit :: rest) = .ok after ↔
      (draft.apply edit).refusal = none ∧ (draft.apply edit).draft.applyAll rest = .ok after := by
  rw [applyAll]
  cases (draft.apply edit).refusal <;> simp

theorem applyAll_cons_of_accepted {draft next : Draft} {edit : Edit}
    (applied : draft.apply edit = accepted next) (rest : List Edit) :
    draft.applyAll (edit :: rest) = next.applyAll rest := by
  rw [applyAll, applied]
  rfl

theorem applyAll_append_eq_ok_iff {draft after : Draft} {first second : List Edit} :
    draft.applyAll (first ++ second) = .ok after ↔
      ∃ between, draft.applyAll first = .ok between ∧ between.applyAll second = .ok after := by
  induction first generalizing draft with
  | nil => simp [applyAll]
  | cons edit rest inductionHypothesis =>
      rw [List.cons_append, applyAll_cons_eq_ok_iff, inductionHypothesis]
      simp only [applyAll_cons_eq_ok_iff, ← exists_and_left, and_assoc]

end Draft

end PlainPattern
