import PlainPattern.Proofs.StructuralRefusals
import PlainPattern.Source.Compile

/-!
Contract: a reader never asks a draft for what it cannot do.

Owns: what a draft has come to wherever a reader stands (`Place.Fits`): as many blocks are open as
the place counts, the child that a line may go on with is there, a list of elements has its rule or
its charset, and between symbols nothing is left open. Each move keeps it (`Place.move_suits`), so
what a whole reading asks for is refused for structural reasons only, also where the text has a
fault further on (`Reading.onward_leads`).
-/

set_option autoImplicit false

namespace PlainPattern

open Text Lexeme Element

/-- What a draft has come to when a reader stands here. -/
def Place.Fits (draft : Draft) : Place → Prop
  | .top pending => draft.Rests ∧ ∀ name ∈ pending, draft.nameIsFree name = true
  | .rules depth => draft.IsOpen depth fun _ => True
  | .line depth (.awaiting lead) =>
      (lead.separates && lead.forks) = false ∧ draft.IsOpen depth fun _ => True
  | .line depth .filled => draft.IsOpen depth OpenBlock.HasLast
  | .elements .charset => draft.IsCharset
  | .elements (.rule depth) => draft.IsOpen depth OpenBlock.TakesCriteria

/-- The edits of the move are refused for structural reasons only, and what they come to fits the
place that it leads to. Where the text ends without a fault, nothing is left open. -/
def Move.Suits (draft : Draft) : Move → Prop
  | .stop edits fault => LeadsTo (fun after => fault = none → after.Rests) (draft.applyAll edits)
  | .go edits next _ => LeadsTo (fun after => next.Fits after) (draft.applyAll edits)
  | .declare _ _ => draft.Rests

variable {draft : Draft} {depth : Nat} {slot : Slot} {rest : List Char}

/-! ## Moves -/

theorem Move.fault_suits (fault : Fault) : (Move.stop [] (some fault)).Suits draft := by
  intro noFault
  cases noFault

/-- A move that makes one edit. -/
theorem Move.edit_suits {edit : Edit} {next : Place} {kept : Draft → Prop}
    (leads : LeadsTo kept (draft.apply edit).result)
    (fits : ∀ after, kept after → next.Fits after) :
    (Move.go [edit] next rest).Suits draft :=
  Draft.applyAll_leads_cons leads fits

namespace Place

theorem isOpen_of_fits (fits : (Place.line depth slot).Fits draft) :
    draft.IsOpen depth fun _ => True := by
  cases slot with
  | awaiting => exact fits.2
  | filled => exact Draft.IsOpen.mono fits fun _ _ => trivial

section Line

theorem endMove_suits {ended : Move} (suits : ended.Suits draft) :
    (endMove slot rest ended).Suits draft := by
  cases slot with
  | awaiting => exact Move.fault_suits _
  | filled => exact suits

theorem constructMove_suits (fits : (Place.line depth slot).Fits draft) {construct : Lead → Move}
    (suits : ∀ lead : Lead, (lead.separates && lead.forks) = false →
      draft.IsOpen depth (fun _ => True) → (construct lead).Suits draft) :
    (constructMove slot rest construct).Suits draft := by
  cases slot with
  | awaiting lead => exact suits lead fits.1 fits.2
  | filled => exact Move.fault_suits _

theorem closingMove_suits (isOpen : draft.IsOpen depth fun _ => True) :
    (closingMove depth rest).Suits draft := by
  cases depth with
  | zero => exact Move.fault_suits _
  | succ outer => exact Move.edit_suits isOpen.closeBlock_leads fun _ => id

theorem openingMove_suits (fits : (Place.line depth slot).Fits draft) :
    (openingMove depth slot rest).Suits draft := by
  cases slot with
  | awaiting lead => exact Move.edit_suits (fits.2.openBlock_leads fits.1) fun _ => id
  | filled => exact Move.fault_suits _

section Construct

variable {lead : Lead}

/-- A rule with the one criterion that it stands for. -/
theorem criterion_suits (apart : (lead.separates && lead.forks) = false)
    (isOpen : draft.IsOpen depth fun _ => True) (criterion : Criterion) :
    (Move.go [.addRule lead true, .addCriterion criterion] (.line depth .filled) rest).Suits
      draft := by
  refine Draft.applyAll_leads_cons (isOpen.addRule_leads apart true) fun after takes => ?_
  refine Draft.applyAll_leads_cons (takes.addCriterion_leads criterion) fun last takes => ?_
  exact takes.mono fun _ => OpenBlock.TakesCriteria.hasLast

theorem literalMove_suits (apart : (lead.separates && lead.forks) = false)
    (isOpen : draft.IsOpen depth fun _ => True) : (literalMove depth lead rest).Suits draft := by
  unfold literalMove
  split
  · refine Draft.applyAll_leads_cons (isOpen.addRule_leads apart true) fun after _ => ?_
    intro noFault
    cases noFault
  · exact criterion_suits apart isOpen _

end Construct

theorem modifierMove_suits (fits : (Place.line depth slot).Fits draft) (extend : Lead → Lead) :
    (modifierMove depth slot extend rest).Suits draft := by
  cases slot with
  | filled => exact Move.fault_suits _
  | awaiting lead =>
      simp only [modifierMove]
      split
      · exact Move.fault_suits _
      · rename_i apart
        split
        · exact Move.fault_suits _
        · exact ⟨Bool.eq_false_iff.2 apart, fits.2⟩

theorem repeatMove_suits (isOpen : draft.IsOpen depth fun _ => True) :
    (repeatMove depth slot rest).Suits draft := by
  unfold repeatMove
  split
  · split
    · exact Move.fault_suits _
    · rename_i read
      exact Move.edit_suits (isOpen.addRepeat_leads (RepeatBounds.bounds_writable read)) fun _ => id
  · exact Move.fault_suits _

theorem collectMove_suits (fits : (Place.line depth slot).Fits draft) :
    (collectMove depth slot rest).Suits draft := by
  cases slot with
  | awaiting => exact Move.fault_suits _
  | filled =>
      simp only [collectMove]
      split
      · exact Move.fault_suits _
      · exact Move.edit_suits (Draft.IsOpen.collectAs_leads fits _) fun _ => id

theorem keywordMove_suits (fits : (Place.line depth slot).Fits draft) (keyword : Keyword)
    (written : String) : (keywordMove depth slot keyword written rest).Suits draft := by
  have endpoint (endpoint : Endpoint) (lead : Lead)
      (apart : (lead.separates && lead.forks) = false)
      (isOpen : draft.IsOpen depth fun _ => True) :
      (Move.go [.addRule lead true, .addCriterion (.endpoint endpoint)] (.line depth .filled)
        rest).Suits draft :=
    criterion_suits apart isOpen _
  have list (inclusive : Bool) (lead : Lead) (apart : (lead.separates && lead.forks) = false)
      (isOpen : draft.IsOpen depth fun _ => True) :
      (Move.go [.addRule lead inclusive] (.elements (.rule depth)) rest).Suits draft :=
    Move.edit_suits (isOpen.addRule_leads apart inclusive) fun _ => id
  cases keyword with
  | orElse | optionally | after | negated => exact modifierMove_suits fits _
  | anyOf => exact constructMove_suits fits (list true)
  | noneOf => exact constructMove_suits fits (list false)
  | startOfText => exact constructMove_suits fits (endpoint .start)
  | endOfText => exact constructMove_suits fits (endpoint .finish)
  | times => exact repeatMove_suits (isOpen_of_fits fits)
  | collectAs => exact collectMove_suits fits
  | anything | digit | forever | space | upTo | whitespace => exact Move.fault_suits _

theorem wordMove_suits (fits : (Place.line depth slot).Fits draft) :
    (wordMove depth slot rest).Suits draft := by
  simp only [wordMove]
  split
  · exact keywordMove_suits fits _ _
  · exact constructMove_suits fits fun lead apart isOpen =>
      Move.edit_suits (isOpen.addReference_leads apart _) fun _ => id

theorem lineMove_suits (fits : (Place.line depth slot).Fits draft) :
    (lineMove depth slot rest).Suits draft := by
  have isOpen := isOpen_of_fits fits
  unfold lineMove
  split
  · exact endMove_suits (Move.fault_suits _)
  · split
    · exact endMove_suits isOpen
    · split
      · exact endMove_suits (closingMove_suits isOpen)
      · split
        · exact fits
        · split
          · exact constructMove_suits fits fun lead apart isOpen => literalMove_suits apart isOpen
          · split
            · exact openingMove_suits fits
            · split
              · exact wordMove_suits fits
              · exact Move.fault_suits _

end Line

theorem elementMove_suits {owner : Owner} (fits : (Place.elements owner).Fits draft) :
    (elementMove owner rest).Suits draft := by
  unfold elementMove
  split
  · exact Move.fault_suits _
  · cases owner with
    | charset =>
        have leads := Draft.IsCharset.addCriterion_leads fits
        split
        · exact Move.edit_suits (leads _) fun after => And.left
        · exact Move.edit_suits (leads _) fun after kept => ⟨kept.2, by rintro _ ⟨⟩⟩
    | rule depth =>
        have leads := Draft.IsOpen.addCriterion_leads fits
        split
        · exact Move.edit_suits (leads _) fun _ => id
        · exact Move.edit_suits (leads _) fun after takes =>
            takes.mono fun _ => OpenBlock.TakesCriteria.hasLast

theorem barsMove_suits {edit : Edit} {next : Place} {kept : Draft → Prop}
    (leads : LeadsTo kept (draft.apply edit).result)
    (fits : ∀ after, kept after → next.Fits after) :
    (barsMove edit next rest).Suits draft := by
  rcases barsMove_cases edit next rest with ⟨fault, moved⟩ | ⟨after, moved⟩
  · rw [moved]
    exact Move.fault_suits fault
  · rw [moved]
    exact Move.edit_suits leads fits

theorem rulesMove_suits (isOpen : draft.IsOpen depth fun _ => True) :
    (rulesMove depth rest).Suits draft := by
  unfold rulesMove
  split
  · exact Move.fault_suits _
  · split
    · split
      · rename_i outermost
        subst outermost
        exact barsMove_suits isOpen.endPattern_leads fun after rests => ⟨rests, by rintro _ ⟨⟩⟩
      · exact Move.fault_suits _
    · split
      · exact isOpen
      · split
        · exact closingMove_suits isOpen
        · exact lineMove_suits ⟨rfl, isOpen⟩

theorem declarationMove_suits (rests : draft.Rests) (declared : List String)
    (pending : Option String) : (declarationMove declared pending rest).Suits draft := by
  rcases declarationMove_cases declared pending with ⟨fault, moved⟩ | ⟨after, _, unused, moved⟩
  · rw [moved]
    exact Move.fault_suits fault
  · rw [moved declared unused]
    exact rests

/-- The elements of a charset, behind its name. -/
theorem charset_suits (rests : draft.Rests) {name : String}
    (free : draft.nameIsFree name = true) :
    ((elementMove .charset rest).behind [.beginCharset name]).Suits draft := by
  have began := rests.beginCharset_leads free
  have suits : ∀ after : Draft, after.IsCharset → (elementMove .charset rest).Suits after :=
    fun after (isCharset : (Place.elements .charset).Fits after) => elementMove_suits isCharset
  revert suits
  cases elementMove .charset rest with
  | stop edits fault => exact Draft.applyAll_leads_cons began
  | go edits next behind => exact Draft.applyAll_leads_cons began
  | declare => exact fun _ => rests

theorem topMove_suits {pending : Option String} (fits : (Place.top pending).Fits draft)
    (declared : List String) : (topMove declared pending rest).Suits draft := by
  obtain ⟨rests, free⟩ := fits
  unfold topMove
  split
  · exact fun _ => rests
  · exact Move.fault_suits _
  · split
    · exact declarationMove_suits rests declared _
    · split
      · exact barsMove_suits (rests.beginPattern_leads free) fun _ => id
      · split
        · exact ⟨rests, free⟩
        · split
          · exact charset_suits rests (free _ rfl)
          · exact Move.fault_suits _

theorem move_suits {place : Place} (fits : place.Fits draft) (declared : List String)
    (rest : List Char) : (place.move declared rest).Suits draft := by
  cases place with
  | top pending => exact topMove_suits fits declared
  | rules depth => exact rulesMove_suits fits
  | line depth slot => exact lineMove_suits fits
  | elements owner => exact elementMove_suits fits

end Place

/-! ## Readings -/

/-- What a reading asks for is refused for structural reasons only. The induction is on the moves;
besides the draft it carries the names that were declared, so that a name which is declared anew is
free. -/
theorem Reading.onward_leads (declared : List String) (place : Place) (rest : List Char) :
    ∀ draft : Draft, place.Fits draft → draft.NamedAmong declared →
      (∀ name ∈ place.pending?, name ∈ declared) →
      LeadsTo (fun after => (onward declared place rest).fault = none → after.Rests)
        (draft.applyAll (onward declared place rest).edits) := by
  fun_induction onward declared place rest with
  | case1 declared place rest edits fault moved =>
      intro draft fits _ _
      have suits := Place.move_suits fits declared rest
      rwa [moved] at suits
  | case2 declared place rest edits next after moved inductionHypothesis =>
      intro draft fits among waiting
      have suits := Place.move_suits fits declared rest
      rw [moved] at suits
      have named := (Place.go_among moved).2
      have given : ∀ name ∈ givenNames edits, name ∈ declared := by
        rcases named with ⟨rfl, _⟩ | ⟨named, _⟩
        · simp [givenNames]
        · intro name isGiven
          rw [named] at isGiven
          exact waiting name (Option.mem_toList.1 isGiven)
      have waits : ∀ name ∈ next.pending?, name ∈ declared := by
        rcases named with ⟨_, rfl⟩ | ⟨_, noName⟩
        · exact waiting
        · simp [noName]
      change LeadsTo _ (draft.applyAll (edits ++ _))
      rw [Draft.applyAll_append]
      have goesOn := suits.mono fun between applied fits =>
        inductionHypothesis between fits (among.applyAll given applied) waits
      exact goesOn.bind fun _ => id
  | case3 declared place rest name after moved inductionHypothesis =>
      intro draft fits among _
      obtain ⟨rfl, fresh, _⟩ := Place.declare_among moved
      have sensible : (Place.top none).Sensible := by rintro _ ⟨⟩
      have yields := Place.move_yields sensible declared rest
      rw [moved] at yields
      refine inductionHypothesis draft ⟨fits.1, ?_⟩ (among.declare name) ?_
      · rintro _ ⟨⟩
        exact among.nameIsFree yields.1 fresh
      · rintro _ ⟨⟩
        exact List.mem_cons_self

theorem Reading.ofText_leads (source : List Char) :
    LeadsTo (fun after => (ofText source).fault = none → after.Rests)
      (Draft.applyAll {} (ofText source).edits) :=
  onward_leads [] (.top none) source {} ⟨Draft.rests_idle rfl, by rintro _ ⟨⟩⟩
    Draft.namedAmong_empty (by rintro _ ⟨⟩)

/-! ## Compiling -/

/-- A text is only refused for what is wrong with the tree or the charsets it describes: an
alternative that comes first, a separator without a repeat, an empty block or pattern, a repeat of
nothing, of a repeat or of a negation, or a charset that leads back to itself. Nothing else can be
asked of a draft by any text, well formed or not. -/
theorem compile_refuses_structurally {source : String} {refusal : Refusal}
    (refused : compile source = .error (.refused refusal)) : refusal.isStructural = true := by
  have leads := Reading.ofText_leads source.toList
  unfold compile Reading.schema at refused
  split at refused
  · rename_i other stopped
    cases refused
    exact leads.of_error stopped
  · rename_i draft applied
    rw [applied] at leads
    split at refused
    · cases refused
    · rename_i noFault
      have sealed := (leads noFault).finish_leads
      split at refused
      · cases refused
      · rename_i other stopped
        cases refused
        exact sealed.of_error stopped

/-- The refusal with which a text fails to compile. -/
def refusalOf? (source : String) : Option Refusal :=
  match compile source with
  | .error (.refused refusal) => some refusal
  | _ => none

theorem refusalOf?_eq_some_iff {source : String} {refusal : Refusal} :
    refusalOf? source = some refusal ↔ compile source = .error (.refused refusal) := by
  unfold refusalOf?
  split
  · rename_i other compiled
    simp [compiled]
  · rename_i others
    constructor
    · intro isSome
      cases isSome
    · intro compiled
      exact absurd compiled (others refusal)

/-- A text for each structural refusal. -/
def refusedSources : List (String × Refusal) :=
  [("||\nor (a)\n||", .firstRuleForks), ("||\n(a)\nafter (b)\n||", .separatorWithoutRepeat),
    ("||\n\x7b\n\x7d\n||", .emptyBlock), ("||\n||", .emptyPattern),
    ("||\ntimes 2\n||", .repeatWithoutTarget), ("||\n(a) times 2 times 3\n||", .repeatOfRepeat),
    ("||\nnot (a) times 2\n||", .repeatOfNegation), ("@first\nfirst", .charsetContainsItself),
    ("@first\nsecond\n@second\nfirst", .charsetCycle ["first", "second", "first"])]

/-- Nine structural refusals, and each is met by some text. -/
theorem every_structural_refusal_is_met :
    (refusedSources.map Prod.snd).Nodup ∧
      ∀ entry ∈ refusedSources, compile entry.1 = .error (.refused entry.2) ∧
        entry.2.isStructural = true := by
  have met : ∀ entry ∈ refusedSources, refusalOf? entry.1 = some entry.2 := by decide +kernel
  refine ⟨by decide, fun entry member => ?_⟩
  have refused := refusalOf?_eq_some_iff.1 (met entry member)
  exact ⟨refused, compile_refuses_structurally refused⟩

end PlainPattern
