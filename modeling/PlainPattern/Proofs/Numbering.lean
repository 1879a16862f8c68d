import PlainPattern.Proofs.SymbolKeys

/-!
Contract: patterns without a name are numbered in the order in which they are written.

Owns: the rows of edits that the patterns without a name consist of (`unnamedRows`), what such a row
builds (`BuiltBy`), and where it is found in the end (`rows_stored`). The edits of a pattern see
nothing of the draft but its open blocks (`apply_open`), so a row builds the same children wherever
it stands and whatever its number is.
-/

set_option autoImplicit false

namespace PlainPattern

/-- The edits up to the end of the pattern that has begun. -/
def patternEdits (edits : List Edit) : List Edit :=
  edits.takeWhile fun edit => edit != .endPattern

/-- What stands between the beginning and the end of each pattern without a name. -/
def unnamedRows : List Edit → List (List Edit)
  | [] => []
  | edit :: rest =>
      if edit = .beginPattern none then patternEdits rest :: unnamedRows rest
      else unnamedRows rest

/-- The children of a pattern that has nothing but these edits between its beginning and its end. -/
def BuiltBy (edits : List Edit) (children : List Node) : Prop :=
  ∃ draft, Draft.applyAll {} (.beginPattern none :: edits ++ [.endPattern]) = .ok draft ∧
    draft.symbols.get? "0" = some (.pattern ⟨"0", children⟩)

namespace Draft

section Rows

variable {draft after : Draft} {pattern : OpenPattern} {edit : Edit} {edits : List Edit}

theorem editBlock_open (isOpen : draft.current = .pattern pattern)
    {change : OpenBlock → Except Refusal OpenBlock}
    (accepted : (draft.editBlock change).refusal = none) :
    ∃ changed : OpenPattern, ∀ (twin : Draft) (name : String),
      twin.current = .pattern { pattern with name } → twin.editBlock change =
        .accepted { twin with current := .pattern { changed with name } } := by
  rw [Draft.editBlock, isOpen] at accepted
  simp only at accepted
  split at accepted
  · rename_i block edited
    refine ⟨{ pattern with innermost := block }, fun twin name isTwin => ?_⟩
    simp only [Draft.editBlock, isTwin, edited]
  · cases accepted

theorem openBlock_open (isOpen : draft.current = .pattern pattern) {lead : Lead}
    (accepted : (draft.openBlock lead).refusal = none) :
    ∃ changed : OpenPattern, ∀ (twin : Draft) (name : String),
      twin.current = .pattern { pattern with name } → twin.openBlock lead =
        .accepted { twin with current := .pattern { changed with name } } := by
  rw [Draft.openBlock, isOpen] at accepted
  simp only at accepted
  split at accepted
  · rename_i allowed
    refine ⟨{ pattern with
      innermost := { lead }
      enclosing := { pattern.innermost with acceptsCriteria := false } :: pattern.enclosing },
      fun twin name isTwin => ?_⟩
    simp only [Draft.openBlock, isTwin, allowed]
  · cases accepted

theorem closeBlock_open (isOpen : draft.current = .pattern pattern)
    (accepted : draft.closeBlock.refusal = none) :
    ∃ changed : OpenPattern, ∀ (twin : Draft) (name : String),
      twin.current = .pattern { pattern with name } → twin.closeBlock =
        .accepted { twin with current := .pattern { changed with name } } := by
  rw [Draft.closeBlock, isOpen] at accepted
  simp only at accepted
  split at accepted
  · cases accepted
  · rename_i parent outer enclosed
    split at accepted
    · cases accepted
    · rename_i begun
      split at accepted
      · cases accepted
      · rename_i settled settles
        split at accepted
        · cases accepted
        · rename_i placed places
          refine ⟨{ pattern with innermost := placed, enclosing := outer },
            fun twin name isTwin => ?_⟩
          simp only [Draft.closeBlock, isTwin, enclosed, settles, places, if_neg begun]

/-- What begins a symbol is refused inside a pattern. -/
theorem refused_of_open (isOpen : draft.current = .pattern pattern)
    {continuation : Draft → Revision} :
    (draft.commit.andThen continuation).refusal ≠ none := by
  rw [Draft.commit, isOpen]
  exact Option.some_ne_none _

/-- An edit between the beginning and the end of a pattern changes the open blocks, and changes them
alike in every draft that has the same blocks open. -/
theorem apply_open (isOpen : draft.current = .pattern pattern) (inside : edit ≠ .endPattern)
    (accepted : (draft.apply edit).refusal = none) :
    ∃ changed : OpenPattern, ∀ (twin : Draft) (name : String),
      twin.current = .pattern { pattern with name } → twin.apply edit =
        .accepted { twin with current := .pattern { changed with name } } := by
  cases edit with
  | beginPattern | beginCharset => exact absurd accepted (refused_of_open isOpen)
  | endPattern => exact absurd rfl inside
  | openBlock lead => exact openBlock_open isOpen accepted
  | closeBlock => exact closeBlock_open isOpen accepted
  | addRule | addReference | collectAs => exact editBlock_open isOpen accepted
  | addCriterion criterion =>
      have sameEdit (twin : Draft) (other : OpenPattern) (isOther : twin.current = .pattern other) :
          twin.apply (.addCriterion criterion) =
            twin.editBlock fun block => block.addCriterion criterion := by
        change twin.addCriterion criterion = _
        simp only [Draft.addCriterion, isOther]
      rw [sameEdit draft pattern isOpen] at accepted
      obtain ⟨changed, alike⟩ := editBlock_open isOpen accepted
      exact ⟨changed, fun twin name isTwin =>
        (sameEdit twin _ isTwin).trans (alike twin name isTwin)⟩
  | addRepeat bounds =>
      cases valid : validRepeat bounds with
      | false =>
          change (draft.addRepeat bounds).refusal = none at accepted
          rw [Draft.addRepeat, valid] at accepted
          cases accepted
      | true =>
          have sameEdit (twin : Draft) : twin.apply (.addRepeat bounds) =
              twin.editBlock fun block => block.addRepeat bounds := by
            change twin.addRepeat bounds = _
            rw [Draft.addRepeat, if_pos valid]
          rw [sameEdit draft] at accepted
          obtain ⟨changed, alike⟩ := editBlock_open isOpen accepted
          exact ⟨changed, fun twin name isTwin => (sameEdit twin).trans (alike twin name isTwin)⟩

/-- The end of a pattern stores the same children in every draft that has the same blocks open. -/
theorem endPattern_open (isOpen : draft.current = .pattern pattern)
    (accepted : draft.endPattern.refusal = none) :
    ∃ children : List Node, ∀ (twin : Draft) (name : String),
      twin.current = .pattern { pattern with name } → twin.endPattern = .accepted { twin with
        symbols := twin.symbols.insert name (.pattern ⟨name, children⟩), current := .idle } := by
  rw [Draft.endPattern, isOpen] at accepted
  simp only at accepted
  split at accepted
  · cases accepted
  · rename_i noBlock
    split at accepted
    · cases accepted
    · rename_i begun
      split at accepted
      · rename_i root settles
        refine ⟨root.finished, fun twin name isTwin => ?_⟩
        simp only [Draft.endPattern, isTwin, settles, if_neg noBlock, if_neg begun]
      · cases accepted

/-- The edits of a pattern that ends: they store the same children in every draft that has the same
blocks open, and the rest of the edits goes on from there. -/
theorem row_of_open (isOpen : draft.current = .pattern pattern)
    (applied : draft.applyAll edits = .ok after) (ended : ∀ other, after.current ≠ .pattern other) :
    ∃ children later,
      edits = patternEdits edits ++ .endPattern :: later ∧
      Draft.applyAll { draft with
        symbols := draft.symbols.insert pattern.name (.pattern ⟨pattern.name, children⟩)
        current := .idle } later = .ok after ∧
      ∀ (twin : Draft) (name : String), twin.current = .pattern { pattern with name } →
        twin.applyAll (patternEdits edits ++ [.endPattern]) = .ok { twin with
          symbols := twin.symbols.insert name (.pattern ⟨name, children⟩), current := .idle } := by
  induction edits generalizing draft pattern with
  | nil =>
      cases applied
      exact absurd isOpen (ended pattern)
  | cons edit rest inductionHypothesis =>
      obtain ⟨accepted, goesOn⟩ := applyAll_cons_eq_ok_iff.1 applied
      by_cases isEnd : edit = .endPattern
      · subst isEnd
        obtain ⟨children, alike⟩ := endPattern_open isOpen accepted
        have stored := alike draft pattern.name isOpen
        have nothing : patternEdits (.endPattern :: rest) = [] := by simp [patternEdits]
        refine ⟨children, rest, by rw [nothing]; rfl, ?_, ?_⟩
        · change draft.endPattern.draft.applyAll rest = .ok after at goesOn
          rw [stored] at goesOn
          exact goesOn
        · intro twin name isTwin
          rw [nothing, List.nil_append, applyAll_cons_eq_ok_iff]
          change twin.endPattern.refusal = none ∧ twin.endPattern.draft.applyAll [] = _
          rw [alike twin name isTwin]
          exact ⟨rfl, rfl⟩
      · obtain ⟨changed, alike⟩ := apply_open isOpen isEnd accepted
        have one : patternEdits (edit :: rest) = edit :: patternEdits rest := by
          simp [patternEdits, isEnd]
        rw [alike draft pattern.name isOpen] at goesOn
        obtain ⟨children, later, split, continues, builds⟩ := inductionHypothesis (by rfl) goesOn
        refine ⟨children, later, ?_, continues, ?_⟩
        · rw [one, List.cons_append, ← split]
        · intro twin name isTwin
          rw [one, List.cons_append, applyAll_cons_eq_ok_iff, alike twin name isTwin]
          exact ⟨rfl, builds _ name rfl⟩

/-- A pattern without a name that has begun: what its own edits build is found under its number. -/
theorem row_stored {number : Nat} (isOpen : draft.current = .pattern { name := toString number })
    (isGiven : number < draft.anonymous) (proper : NamedProperly edits)
    (applied : draft.applyAll edits = .ok after) (ended : ∀ other, after.current ≠ .pattern other) :
    ∃ children, BuiltBy (patternEdits edits) children ∧
      after.Keeps number (.pattern ⟨toString number, children⟩) := by
  obtain ⟨children, later, split, continues, builds⟩ := row_of_open isOpen applied ended
  have built : BuiltBy (patternEdits edits) children :=
    ⟨_, applyAll_cons_eq_ok_iff.2 ⟨rfl, builds _ "0" rfl⟩, by rw [Table.get?_insert, if_pos rfl]⟩
  have stored : Draft.Keeps
      ⟨draft.symbols.insert (toString number) (.pattern ⟨toString number, children⟩),
        draft.anonymous, .idle⟩ number (.pattern ⟨toString number, children⟩) :=
    ⟨isGiven, by rw [Table.get?_insert, if_pos rfl], by simp [Construction.name?]⟩
  have laterProper : NamedProperly later := by
    intro edit member
    refine proper edit ?_
    rw [split]
    exact List.mem_append_right _ (List.mem_cons_of_mem _ member)
  exact ⟨children, built, stored.applyAll laterProper continues⟩

theorem beginUnnamed (accepted : (draft.apply (.beginPattern none)).refusal = none) :
    (draft.apply (.beginPattern none)).draft.current =
        .pattern { name := toString draft.anonymous } ∧
      (draft.apply (.beginPattern none)).draft.anonymous = draft.anonymous + 1 := by
  change (draft.beginPattern none).refusal = none at accepted
  change (draft.beginPattern none).draft.current = _ ∧ (draft.beginPattern none).draft.anonymous = _
  unfold Draft.beginPattern at accepted ⊢
  rw [Revision.andThen_of_accepted accepted]
  have same := commit_anonymous draft
  exact ⟨congrArg (fun number => Construction.pattern { name := toString number }) same,
    congrArg (fun number => number + 1) same⟩

/-- The induction is on the edits. A pattern that begins is followed to its end, from where its
symbol stays as it is. -/
theorem rows_stored (proper : NamedProperly edits) (applied : draft.applyAll edits = .ok after)
    (ended : ∀ pattern, after.current ≠ .pattern pattern) :
    after.anonymous = draft.anonymous + (unnamedRows edits).length ∧
    ∀ number row, (unnamedRows edits)[number]? = some row →
      ∃ children, BuiltBy row children ∧ after.Keeps (draft.anonymous + number)
        (.pattern ⟨toString (draft.anonymous + number), children⟩) := by
  induction edits generalizing draft with
  | nil =>
      cases applied
      exact ⟨rfl, by simp [unnamedRows]⟩
  | cons edit rest inductionHypothesis =>
      obtain ⟨accepted, goesOn⟩ := applyAll_cons_eq_ok_iff.1 applied
      have restProper : NamedProperly rest :=
        fun other member => proper other (List.mem_cons_of_mem _ member)
      obtain ⟨count, stored⟩ := inductionHypothesis restProper goesOn
      by_cases unnamed : edit = .beginPattern none
      · subst unnamed
        obtain ⟨isOpen, anonymous⟩ := beginUnnamed accepted
        rw [anonymous] at count stored
        have rows : unnamedRows (.beginPattern none :: rest) =
            patternEdits rest :: unnamedRows rest := if_pos rfl
        rw [rows]
        refine ⟨by rw [count, List.length_cons]; omega, ?_⟩
        intro number row isRow
        cases number with
        | zero =>
            cases isRow
            exact row_stored isOpen (anonymous ▸ Nat.lt_succ_self _) restProper goesOn ended
        | succ earlier =>
            obtain ⟨children, built, keeps⟩ := stored earlier row isRow
            rw [Nat.add_assoc, Nat.add_comm 1 earlier] at keeps
            exact ⟨children, built, keeps⟩
      · have rows : unnamedRows (edit :: rest) = unnamedRows rest := if_neg unnamed
        have same : (draft.apply edit).draft.anonymous = draft.anonymous :=
          (apply_follows draft edit).anonymous.resolve_right fun begun => unnamed begun.1
        rw [same] at count stored
        rw [rows]
        exact ⟨count, stored⟩

end Rows

end Draft

end PlainPattern
