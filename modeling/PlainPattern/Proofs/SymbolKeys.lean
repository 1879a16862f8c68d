import PlainPattern.Proofs.Phrases

/-!
Contract: under which names a draft stores its symbols.

Owns: what an edit leaves alone that neither begins nor ends a symbol (`Draft.Amends`); what any
edit may do to the table of symbols (`Draft.Follows`, proved of every edit in `apply_follows`), and
what follows from that alone for a row of edits that gives proper names only: the keys are proper
names and numbers that have been given out (`Draft.Keyed`), and a symbol stored under a number stays
as it is (`Draft.Keeps`).
-/

set_option autoImplicit false

namespace PlainPattern

/-- The name of the symbol being built. -/
def Construction.name? : Construction → Option String
  | .idle => none
  | .pattern found => some found.name
  | .charset found => some found.name

/-- The name that an edit gives to a symbol. -/
def Edit.name? : Edit → Option String
  | .beginPattern name => name
  | .beginCharset name => some name
  | .endPattern | .openBlock _ | .closeBlock | .addRule _ _ | .addReference _ _ | .addCriterion _
  | .addRepeat _ | .collectAs _ => none

/-- The same symbol in progress, with something else written of it. -/
inductive Construction.Continues : Construction → Construction → Prop
  | idle : Continues .idle .idle
  | pattern {first second : OpenPattern} (sameName : second.name = first.name) :
      Continues (.pattern first) (.pattern second)
  | charset {first second : Charset} (sameName : second.name = first.name) :
      Continues (.charset first) (.charset second)

theorem Construction.Continues.refl : ∀ current : Construction, current.Continues current
  | .idle => .idle
  | .pattern _ => .pattern rfl
  | .charset _ => .charset rfl

theorem Construction.Continues.name?_eq {first second : Construction}
    (continues : first.Continues second) : second.name? = first.name? := by
  cases continues with
  | idle => rfl
  | pattern sameName => exact congrArg some sameName
  | charset sameName => exact congrArg some sameName

/-- Neither begins nor ends a symbol. -/
def Edit.amends : Edit → Bool
  | .beginPattern _ | .beginCharset _ | .endPattern => false
  | .openBlock _ | .closeBlock | .addRule _ _ | .addReference _ _ | .addCriterion _
  | .addRepeat _ | .collectAs _ => true

/-- All names that are given are proper ones. -/
def NamedProperly (edits : List Edit) : Prop :=
  ∀ edit ∈ edits, ∀ name, edit.name? = some name → ProperName name

theorem Phrased.namedProperly {edits : List Edit} (phrased : Phrased edits) :
    NamedProperly edits := by
  obtain ⟨phrases, proper, rfl⟩ := phrased
  intro edit member name named
  obtain ⟨phrase, isPhrase, inPhrase⟩ := List.mem_flatMap.1 member
  have phraseProper := proper phrase isPhrase
  have noName {criteria : List Criterion} : edit ∉ criteria.map Edit.addCriterion := by
    intro added
    obtain ⟨criterion, _, rfl⟩ := List.mem_map.1 added
    cases named
  cases phrase with
  | beginPattern given =>
      obtain rfl := List.mem_singleton.1 inPhrase
      exact phraseProper name named
  | charset given criteria =>
      rcases List.mem_cons.1 inPhrase with rfl | added
      · cases named
        exact phraseProper.1
      · exact absurd added noName
  | rule lead content =>
      rcases List.mem_cons.1 inPhrase with rfl | added
      · cases named
      · exact absurd added noName
  | endPattern | openBlock | closeBlock | reference | times | collectAs =>
      obtain rfl := List.mem_singleton.1 inPhrase
      cases named

namespace Draft

/-! ### Edits of the symbol in progress -/

/-- What stands between a draft and a revision of the symbol in progress. -/
structure Amends (draft after : Draft) : Prop where
  symbols : after.symbols = draft.symbols
  anonymous : after.anonymous = draft.anonymous
  current : draft.current.Continues after.current

section Amends

variable {draft after : Draft} {edit : Edit}

theorem Amends.refl (draft : Draft) : draft.Amends draft :=
  ⟨rfl, rfl, .refl _⟩

theorem editBlock_amends (draft : Draft) (change : OpenBlock → Except Refusal OpenBlock) :
    draft.Amends (draft.editBlock change).draft := by
  unfold Draft.editBlock
  split
  · rename_i pattern isPattern
    split
    · exact ⟨rfl, rfl, isPattern ▸ .pattern rfl⟩
    · exact .refl draft
  · exact .refl draft

theorem openBlock_amends (draft : Draft) (lead : Lead) :
    draft.Amends (draft.openBlock lead).draft := by
  unfold Draft.openBlock
  split
  · rename_i pattern isPattern
    split
    · exact ⟨rfl, rfl, isPattern ▸ .pattern rfl⟩
    · exact .refl draft
  · exact .refl draft

theorem closeBlock_amends (draft : Draft) : draft.Amends draft.closeBlock.draft := by
  unfold Draft.closeBlock
  split
  · rename_i pattern isPattern
    have back {parent : OpenBlock} {enclosing : List OpenBlock} : draft.Amends
        { draft with current := .pattern { pattern with innermost := parent, enclosing } } :=
      ⟨rfl, rfl, isPattern ▸ .pattern rfl⟩
    split
    · exact .refl draft
    · simp only
      split
      · exact back
      · split
        · exact back
        · split <;> exact back
  · exact .refl draft

theorem addCriterion_amends (draft : Draft) (criterion : Criterion) :
    draft.Amends (draft.addCriterion criterion).draft := by
  unfold Draft.addCriterion
  split
  · rename_i charset isCharset
    split
    · exact .refl draft
    · exact ⟨rfl, rfl, isCharset ▸ .charset rfl⟩
  · exact editBlock_amends draft _
  · exact .refl draft

theorem apply_amends (draft : Draft) (amends : edit.amends = true) :
    draft.Amends (draft.apply edit).draft := by
  cases edit with
  | beginPattern | endPattern | beginCharset => cases amends
  | openBlock lead => exact openBlock_amends draft lead
  | closeBlock => exact closeBlock_amends draft
  | addCriterion criterion => exact addCriterion_amends draft criterion
  | addRepeat bounds =>
      change draft.Amends (draft.addRepeat bounds).draft
      unfold Draft.addRepeat
      split
      · exact editBlock_amends draft _
      · exact .refl draft
  | addRule | addReference | collectAs => exact editBlock_amends draft _

end Amends

/-! ### What an edit may do -/

/-- What stands between a draft and what an edit makes of it: at most the symbol being built is
stored, and a symbol is begun under the name that the edit gives or under the next number. -/
structure Follows (draft : Draft) (edit : Edit) (after : Draft) : Prop where
  symbols : after.symbols = draft.symbols ∨ ∃ name symbol,
    draft.current.name? = some name ∧ after.symbols = draft.symbols.insert name symbol
  anonymous : after.anonymous = draft.anonymous ∨
    (edit = .beginPattern none ∧ after.anonymous = draft.anonymous + 1)
  current : ∀ name, after.current.name? = some name → draft.current.name? = some name ∨
    edit.name? = some name ∨ (name = toString draft.anonymous ∧ draft.anonymous < after.anonymous)

section Follows

variable {draft after : Draft} {edit : Edit}

theorem Follows.anonymous_le (follows : draft.Follows edit after) :
    draft.anonymous ≤ after.anonymous := by
  rcases follows.anonymous with same | ⟨_, next⟩ <;> omega

theorem Follows.same (symbols : after.symbols = draft.symbols)
    (anonymous : after.anonymous = draft.anonymous)
    (current : after.current.name? = draft.current.name?) : draft.Follows edit after where
  symbols := .inl symbols
  anonymous := .inl anonymous
  current := fun _ named => .inl (current ▸ named)

theorem Amends.follows (amends : draft.Amends after) (edit : Edit) : draft.Follows edit after :=
  .same amends.symbols amends.anonymous amends.current.name?_eq

theorem commit_follows (draft : Draft) (edit : Edit) : draft.Follows edit draft.commit.draft := by
  unfold Draft.commit
  split
  · exact .same rfl rfl rfl
  · rename_i charset isCharset
    split
    · exact ⟨.inl rfl, .inl rfl, fun _ named => by cases named⟩
    · exact ⟨.inr ⟨charset.name, _, by rw [isCharset]; rfl, rfl⟩, .inl rfl,
        fun _ named => by cases named⟩
  · exact .same rfl rfl rfl

theorem commit_anonymous (draft : Draft) : draft.commit.draft.anonymous = draft.anonymous := by
  unfold Draft.commit
  split
  · rfl
  · split <;> rfl
  · rfl

/-- What follows a commit stores nothing by itself. -/
theorem Follows.afterCommit {continuation : Draft → Revision}
    (symbols : ∀ committed, (continuation committed).draft.symbols = committed.symbols)
    (continues : ∀ committed : Draft, committed.Follows edit (continuation committed).draft) :
    draft.Follows edit (draft.commit.andThen continuation).draft := by
  unfold Revision.andThen
  split
  · have committed := commit_follows draft edit
    have goesOn := continues draft.commit.draft
    refine ⟨(symbols draft.commit.draft).symm ▸ committed.symbols,
      commit_anonymous draft ▸ goesOn.anonymous, fun name named => ?_⟩
    rcases goesOn.current name named with isCurrent | isGiven | isNumber
    · rcases committed.current name isCurrent with isCurrent | isGiven | ⟨isNumber, less⟩
      · exact .inl isCurrent
      · exact .inr (.inl isGiven)
      · exact .inr (.inr ⟨isNumber, Nat.lt_of_lt_of_le less goesOn.anonymous_le⟩)
    · exact .inr (.inl isGiven)
    · exact .inr (.inr (commit_anonymous draft ▸ isNumber))
  · exact commit_follows draft edit

theorem beginNamed_follows (draft : Draft) (name : String) (construction : Construction)
    (given : edit.name? = some name) (named : construction.name? = some name) :
    draft.Follows edit (draft.beginNamed name construction).draft := by
  unfold Draft.beginNamed
  split
  · refine ⟨.inl rfl, .inl rfl, fun other isOther => .inr (.inl ?_)⟩
    rw [given, ← named]
    exact isOther
  · exact .same rfl rfl rfl

theorem beginNamed_symbols (draft : Draft) (name : String) (construction : Construction) :
    (draft.beginNamed name construction).draft.symbols = draft.symbols := by
  unfold Draft.beginNamed
  split <;> rfl

theorem endPattern_follows (draft : Draft) : draft.Follows edit draft.endPattern.draft := by
  have dropped : draft.Follows edit { draft with current := .idle } :=
    ⟨.inl rfl, .inl rfl, fun _ named => by cases named⟩
  unfold Draft.endPattern
  split
  · rename_i pattern isPattern
    simp only
    split
    · exact dropped
    · split
      · exact dropped
      · split
        · exact ⟨.inr ⟨pattern.name, _, by rw [isPattern]; rfl, rfl⟩, .inl rfl,
            fun _ named => by cases named⟩
        · exact dropped
  · exact .same rfl rfl rfl

/-- All that an edit may do to the symbols, accepted or not. -/
theorem apply_follows (draft : Draft) (edit : Edit) :
    draft.Follows edit (draft.apply edit).draft := by
  cases amends : edit.amends with
  | true => exact (apply_amends draft amends).follows edit
  | false =>
      cases edit with
      | beginPattern name =>
          cases name with
          | some name =>
              exact .afterCommit (fun committed => beginNamed_symbols committed name _)
                fun committed => beginNamed_follows committed name _ rfl rfl
          | none =>
              refine .afterCommit (fun _ => rfl) fun committed => ⟨.inl rfl, .inr ⟨rfl, rfl⟩, ?_⟩
              rintro name ⟨⟩
              exact .inr (.inr ⟨rfl, Nat.lt_succ_self _⟩)
      | beginCharset name =>
          exact .afterCommit (fun committed => beginNamed_symbols committed name _)
            fun committed => beginNamed_follows committed name _ rfl rfl
      | endPattern => exact endPattern_follows draft
      | _ => cases amends

end Follows

/-! ### Keys -/

/-- A proper name, or a number that has been given out. -/
def Knows (draft : Draft) (name : String) : Prop :=
  ProperName name ∨ ∃ number < draft.anonymous, name = toString number

/-- Every symbol, the one being built included, has a name that is known. -/
structure Keyed (draft : Draft) : Prop where
  symbols : ∀ key symbol, draft.symbols.get? key = some symbol → draft.Knows key
  current : ∀ name, draft.current.name? = some name → draft.Knows name

/-- The symbol stored under this number has come to stay. -/
structure Keeps (draft : Draft) (number : Nat) (symbol : Symbol) : Prop where
  given : number < draft.anonymous
  stored : draft.symbols.get? (toString number) = some symbol
  free : draft.current.name? ≠ some (toString number)

section Keys

variable {draft after : Draft} {edit : Edit}

theorem Knows.mono {name : String} (known : draft.Knows name)
    (more : draft.anonymous ≤ after.anonymous) : after.Knows name :=
  known.imp_right fun ⟨number, less, same⟩ => ⟨number, Nat.lt_of_lt_of_le less more, same⟩

theorem keyed_empty : ({} : Draft).Keyed where
  symbols := by
    intro key symbol found
    cases found
  current := by
    intro name named
    cases named

theorem Keyed.follows (keyed : draft.Keyed) (follows : draft.Follows edit after)
    (proper : ∀ name, edit.name? = some name → ProperName name) : after.Keyed where
  symbols := by
    intro key symbol found
    rcases follows.symbols with same | ⟨name, stored, named, inserted⟩
    · exact (keyed.symbols key symbol (same ▸ found)).mono follows.anonymous_le
    · rw [inserted, Table.get?_insert] at found
      split at found
      · rename_i isName
        exact isName ▸ (keyed.current name named).mono follows.anonymous_le
      · exact (keyed.symbols key symbol found).mono follows.anonymous_le
  current := by
    intro name named
    rcases follows.current name named with isCurrent | isGiven | ⟨isNumber, less⟩
    · exact (keyed.current name isCurrent).mono follows.anonymous_le
    · exact .inl (proper name isGiven)
    · exact .inr ⟨draft.anonymous, less, isNumber⟩

theorem Keeps.follows {number : Nat} {symbol : Symbol} (keeps : draft.Keeps number symbol)
    (follows : draft.Follows edit after)
    (proper : ∀ name, edit.name? = some name → ProperName name) : after.Keeps number symbol where
  given := Nat.lt_of_lt_of_le keeps.given follows.anonymous_le
  stored := by
    rcases follows.symbols with same | ⟨name, stored, named, inserted⟩
    · exact same ▸ keeps.stored
    · have different : toString number ≠ name := fun same => keeps.free (same ▸ named)
      rw [inserted, Table.get?_insert, if_neg different]
      exact keeps.stored
  free := by
    intro named
    rcases follows.current _ named with isCurrent | isGiven | ⟨isNumber, _⟩
    · exact keeps.free isCurrent
    · exact (proper _ isGiven).ne_toString number rfl
    · exact Nat.ne_of_lt keeps.given (toString_inj isNumber)

/-- What every edit of a row preserves, the whole row preserves. -/
theorem applyAll_preserves {kept : Draft → Prop} {edits : List Edit}
    (step : ∀ edit ∈ edits, ∀ draft : Draft, kept draft → kept (draft.apply edit).draft)
    (start : kept draft) (applied : draft.applyAll edits = .ok after) : kept after := by
  induction edits generalizing draft with
  | nil =>
      cases applied
      exact start
  | cons edit rest inductionHypothesis =>
      obtain ⟨_, goesOn⟩ := applyAll_cons_eq_ok_iff.1 applied
      exact inductionHypothesis (fun other member => step other (List.mem_cons_of_mem _ member))
        (step edit List.mem_cons_self draft start) goesOn

theorem Keyed.applyAll {edits : List Edit} (keyed : draft.Keyed) (proper : NamedProperly edits)
    (applied : draft.applyAll edits = .ok after) : after.Keyed :=
  applyAll_preserves (fun edit member draft (keyed : draft.Keyed) =>
    keyed.follows (apply_follows draft edit) (proper edit member)) keyed applied

theorem Keeps.applyAll {edits : List Edit} {number : Nat} {symbol : Symbol}
    (keeps : draft.Keeps number symbol) (proper : NamedProperly edits)
    (applied : draft.applyAll edits = .ok after) : after.Keeps number symbol :=
  applyAll_preserves (fun edit member draft (keeps : draft.Keeps number symbol) =>
    keeps.follows (apply_follows draft edit) (proper edit member)) keeps applied

end Keys

end Draft

end PlainPattern
