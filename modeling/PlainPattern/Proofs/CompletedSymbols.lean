import Mathlib.Data.List.Nodup
import PlainPattern.Proofs.LegalTrees
import PlainPattern.Proofs.RoundTrip

/-!
Contract: which of the symbols that edits complete are still there in the end.

Owns: the symbol that one edit completes (`Draft.completes?`) and those that a row of edits does
(`Draft.completions`). They are all that is ever stored, each over an older one of its name
(`commit_afterAll_symbols`). A name that is given has to be free, but a number is given out
without a look at the table; `Draft.Apart` says how far the two stay apart all the same, and
`Apart.apply` that every edit preserves it. So what gets lost is a symbol that an edit has named
like a number, to the pattern that gets this number later: `completed_symbols_stay`.
-/

set_option autoImplicit false

namespace PlainPattern

namespace Draft

/-! ## What edits complete -/

/-- The charset in progress, if it has criteria. -/
def sealed? (draft : Draft) : Option Symbol :=
  match draft.current with
  | .charset charset => if charset.criteria.isEmpty then none else some (.charset charset)
  | .idle | .pattern _ => none

/-- The pattern in progress, if it may end. -/
def ended? (draft : Draft) : Option Symbol :=
  match draft.current, draft.endPattern.refusal with
  | .pattern pattern, none => pattern.innermost.settled.toOption.map fun root =>
      .pattern ⟨pattern.name, root.finished⟩
  | _, _ => none

/-- The symbol that an edit completes: the pattern that it ends, or the charset that comes before
the symbol that it begins. The charset is complete even if the new name is refused. -/
def completes? (draft : Draft) : Edit → Option Symbol
  | .beginPattern _ | .beginCharset _ => draft.sealed?
  | .endPattern => draft.ended?
  | .openBlock _ | .closeBlock | .addRule _ _ | .addReference _ _ | .addCriterion _
  | .addRepeat _ | .collectAs _ => none

/-- All symbols that are completed on the way through a row of edits, and by the end of it. -/
def completions (draft : Draft) : List Edit → List Symbol
  | [] => draft.sealed?.toList
  | edit :: rest => (draft.completes? edit).toList ++ (draft.apply edit).draft.completions rest

section Completions

variable {draft after : Draft} {edit : Edit} {symbol : Symbol}

theorem completes?_of_amends (amends : edit.amends = true) : draft.completes? edit = none := by
  cases edit with
  | beginPattern | endPattern | beginCharset => cases amends
  | _ => rfl

theorem commit_rests_or_idles (draft : Draft) :
    draft.commit.draft = draft ∨ draft.commit.draft.current = .idle := by
  unfold Draft.commit
  split
  · exact .inl rfl
  · split <;> exact .inr rfl
  · exact .inl rfl

theorem endPattern_rests_or_idles (draft : Draft) :
    draft.endPattern.draft = draft ∨ draft.endPattern.draft.current = .idle ∧
      draft.endPattern.draft.anonymous = draft.anonymous := by
  unfold Draft.endPattern
  split
  · simp only
    split
    · exact .inr ⟨rfl, rfl⟩
    · split
      · exact .inr ⟨rfl, rfl⟩
      · split <;> exact .inr ⟨rfl, rfl⟩
  · exact .inl rfl

theorem charset_of_sealed (isSealed : draft.sealed? = some symbol) :
    ∃ charset, draft.current = .charset charset ∧ symbol = .charset charset := by
  unfold Draft.sealed? at isSealed
  split at isSealed
  · rename_i charset isCharset
    split at isSealed
    · cases isSealed
    · exact ⟨charset, isCharset, (Option.some.inj isSealed).symm⟩
  · cases isSealed
  · cases isSealed

theorem pattern_of_ended (isEnded : draft.ended? = some symbol) :
    ∃ pattern children, draft.current = .pattern pattern ∧
      symbol = .pattern ⟨pattern.name, children⟩ := by
  unfold Draft.ended? at isEnded
  split at isEnded
  · rename_i pattern isPattern _
    obtain ⟨root, _, rfl⟩ := Option.map_eq_some_iff.1 isEnded
    exact ⟨pattern, root.finished, isPattern, rfl⟩
  · cases isEnded

/-! ### What is stored -/

theorem commit_symbols (draft : Draft) :
    draft.commit.draft.symbols = draft.symbols.storing draft.sealed?.toList := by
  unfold Draft.commit Draft.sealed?
  cases draft.current with
  | idle | pattern _ => rfl
  | charset charset =>
      simp only
      split <;> rfl

theorem endPattern_symbols (draft : Draft) :
    draft.endPattern.draft.symbols = draft.symbols.storing draft.ended?.toList := by
  unfold Draft.ended?
  cases isCurrent : draft.current with
  | idle | charset _ => simp only [Draft.endPattern, isCurrent]; rfl
  | pattern pattern =>
      simp only [Draft.endPattern, isCurrent]
      split
      · rfl
      · split
        · rfl
        · split
          · rename_i settles
            simp only [Revision.accepted, settles]
            rfl
          · rfl

theorem andThen_symbols (revision : Revision) {continuation : Draft → Revision}
    (symbols : ∀ between, (continuation between).draft.symbols = between.symbols) :
    (revision.andThen continuation).draft.symbols = revision.draft.symbols := by
  unfold Revision.andThen
  split
  · exact symbols _
  · rfl

/-- Nothing but what it completes is stored by an edit. -/
theorem apply_symbols (draft : Draft) (edit : Edit) :
    (draft.apply edit).draft.symbols = draft.symbols.storing (draft.completes? edit).toList := by
  cases amends : edit.amends with
  | true =>
      rw [(apply_amends draft amends).symbols, completes?_of_amends amends]
      rfl
  | false =>
      cases edit with
      | endPattern => exact endPattern_symbols draft
      | beginCharset name =>
          exact (andThen_symbols _ fun between => beginNamed_symbols between name _).trans
            (commit_symbols draft)
      | beginPattern name =>
          refine (andThen_symbols _ fun between => ?_).trans (commit_symbols draft)
          cases name with
          | some name => exact beginNamed_symbols between name _
          | none => rfl
      | _ => cases amends

theorem storing_completions_cons (draft : Draft) (edit : Edit) (rest : List Edit) :
    draft.symbols.storing (draft.completions (edit :: rest)) =
      (draft.apply edit).draft.symbols.storing ((draft.apply edit).draft.completions rest) := by
  rw [apply_symbols, completions, Table.storing, Table.storing, Table.storing, List.foldl_append]

/-- A row of edits stores all that it completes, one after the other. -/
theorem commit_afterAll_symbols (draft : Draft) (edits : List Edit) :
    (draft.afterAll edits).commit.draft.symbols =
      draft.symbols.storing (draft.completions edits) := by
  induction edits generalizing draft with
  | nil => exact commit_symbols draft
  | cons edit rest inductionHypothesis =>
      rw [storing_completions_cons]
      exact inductionHypothesis _

end Completions

/-! ## Names and numbers -/

/-- A name that edits give, and that is a number. -/
def NumberGiven (given : String → Prop) (name : String) : Prop :=
  given name ∧ ∃ number : Nat, name = toString number

/-- How far numbers and given names stay apart: what is in progress under a name that is taken is a
pattern whose number an edit has given as a name, and a number that is taken before it is its turn
has been given as a name. -/
structure Apart (given : String → Prop) (draft : Draft) : Prop where
  pattern : ∀ pattern, draft.current = .pattern pattern →
    draft.symbols.contains pattern.name = true → NumberGiven given pattern.name
  charset : ∀ charset, draft.current = .charset charset →
    draft.symbols.contains charset.name = false
  ahead : ∀ number, draft.anonymous ≤ number →
    draft.symbols.contains (toString number) = true ∨
      draft.current.name? = some (toString number) → given (toString number)

section Apart

variable {given : String → Prop} {draft after : Draft} {edit : Edit} {symbol : Symbol}

theorem apart_empty : ({} : Draft).Apart given where
  pattern := by
    intro pattern isPattern
    cases isPattern
  charset := by
    intro charset isCharset
    cases isCharset
  ahead := by
    rintro number _ (taken | named)
    · cases taken
    · cases named

theorem Apart.amends (apart : draft.Apart given) (amends : draft.Amends after) :
    after.Apart given := by
  obtain ⟨symbols, anonymous, current⟩ := amends
  have ahead := apart.ahead
  rw [← symbols, ← anonymous, ← current.name?_eq] at ahead
  generalize before : draft.current = first, now : after.current = second at current
  cases current with
  | idle => exact ⟨by simp [now], by simp [now], ahead⟩
  | pattern sameName =>
      refine ⟨?_, by simp [now], ahead⟩
      rintro pattern isPattern taken
      cases now.symm.trans isPattern
      rw [symbols, sameName] at taken
      exact sameName ▸ apart.pattern _ before taken
  | charset sameName =>
      refine ⟨by simp [now], ?_, ahead⟩
      rintro charset isCharset
      cases now.symm.trans isCharset
      rw [symbols, sameName]
      exact apart.charset _ before

/-- The symbol in progress is given up, or stored under its name. -/
theorem Apart.settled (apart : draft.Apart given) {symbol? : Option Symbol}
    (named : ∀ symbol, symbol? = some symbol → draft.current.name? = some symbol.name)
    (symbols : after.symbols = draft.symbols.storing symbol?.toList)
    (anonymous : after.anonymous = draft.anonymous) (idle : after.current = .idle) :
    after.Apart given := by
  refine ⟨by simp [idle], by simp [idle], fun number ahead taken => ?_⟩
  rw [anonymous] at ahead
  refine apart.ahead number ahead ?_
  have isStored := taken.resolve_right (by simp [idle, Construction.name?])
  rw [symbols] at isStored
  cases isSymbol : symbol? with
  | none =>
      rw [isSymbol] at isStored
      exact .inl isStored
  | some symbol =>
      rw [isSymbol] at isStored
      change (draft.symbols.insert symbol.name symbol).contains _ = true at isStored
      rw [Table.contains, Table.get?_insert] at isStored
      split at isStored
      · rename_i isName
        exact .inr (isName ▸ named symbol isSymbol)
      · exact .inl isStored

theorem Apart.commit (apart : draft.Apart given) : draft.commit.draft.Apart given := by
  rcases commit_rests_or_idles draft with same | idle
  · exact same.symm ▸ apart
  · refine apart.settled (fun symbol isSealed => ?_) (commit_symbols draft)
      (commit_anonymous draft) idle
    obtain ⟨charset, isCharset, rfl⟩ := charset_of_sealed isSealed
    exact congrArg Construction.name? isCharset

theorem Apart.endPattern (apart : draft.Apart given) : draft.endPattern.draft.Apart given := by
  rcases endPattern_rests_or_idles draft with same | ⟨idle, anonymous⟩
  · exact same.symm ▸ apart
  · refine apart.settled (fun symbol isEnded => ?_) (endPattern_symbols draft) anonymous idle
    obtain ⟨pattern, children, isPattern, rfl⟩ := pattern_of_ended isEnded
    exact congrArg Construction.name? isPattern

theorem Apart.beginNamed (apart : draft.Apart given) {name : String} (isGiven : given name)
    {construction : Construction} (named : construction.name? = some name) :
    (draft.beginNamed name construction).draft.Apart given := by
  unfold Draft.beginNamed
  split
  · rename_i isFree
    have unused : draft.symbols.contains name = false := by
      simp only [nameIsFree, nameIsUnused, Bool.and_eq_true, Bool.not_eq_true'] at isFree
      exact isFree.2.2
    refine ⟨?_, ?_, ?_⟩
    · rintro pattern rfl taken
      cases named
      cases unused.symm.trans taken
    · rintro charset rfl
      cases named
      exact unused
    · rintro number ahead (taken | isCurrent)
      · exact apart.ahead number ahead (.inl taken)
      · cases named.symm.trans isCurrent
        exact isGiven
  · exact apart

theorem Apart.beginNumbered (apart : draft.Apart given) :
    Apart given { draft with
      anonymous := draft.anonymous + 1
      current := .pattern { name := toString draft.anonymous } } := by
  refine ⟨?_, by simp, ?_⟩
  · rintro pattern ⟨⟩ taken
    exact ⟨apart.ahead draft.anonymous le_rfl (.inl taken), draft.anonymous, rfl⟩
  · rintro number ahead (taken | isCurrent)
    · exact apart.ahead number (Nat.le_of_succ_le ahead) (.inl taken)
    · have isNumber := toString_inj (Option.some.inj isCurrent)
      simp only [← isNumber] at ahead
      omega

theorem Apart.andThen (apart : draft.Apart given) {continuation : Draft → Revision}
    (continues : ∀ between, between.Apart given → (continuation between).draft.Apart given) :
    (draft.commit.andThen continuation).draft.Apart given := by
  unfold Revision.andThen
  split
  · exact continues _ apart.commit
  · exact apart.commit

/-- Every edit, accepted or not, keeps numbers and names as far apart as they are. -/
theorem Apart.apply (apart : draft.Apart given) (edit : Edit)
    (isGiven : ∀ name, edit.name? = some name → given name) :
    (draft.apply edit).draft.Apart given := by
  cases amends : edit.amends with
  | true => exact apart.amends (apply_amends draft amends)
  | false =>
      cases edit with
      | endPattern => exact apart.endPattern
      | beginCharset name =>
          exact apart.andThen fun between apart => apart.beginNamed (isGiven name rfl) rfl
      | beginPattern name =>
          refine apart.andThen fun between apart => ?_
          cases name with
          | some name => exact apart.beginNamed (isGiven name rfl) rfl
          | none => exact apart.beginNumbered
      | _ => cases amends

/-- What is completed under a name that is taken. -/
theorem Apart.taken (apart : draft.Apart given) (completes : draft.completes? edit = some symbol)
    (taken : draft.symbols.contains symbol.name = true) :
    NumberGiven given symbol.name ∧ ∃ pattern, symbol = .pattern pattern := by
  have notSealed : draft.sealed? ≠ some symbol := by
    intro isSealed
    obtain ⟨charset, isCharset, rfl⟩ := charset_of_sealed isSealed
    cases (apart.charset charset isCharset).symm.trans taken
  cases edit with
  | beginPattern | beginCharset => exact absurd completes notSealed
  | endPattern =>
      obtain ⟨pattern, children, isPattern, rfl⟩ := pattern_of_ended completes
      exact ⟨apart.pattern pattern isPattern taken, _, rfl⟩
  | _ => cases completes

/-! ### What stays -/

/-- The table still has the symbol, or it has a pattern of this row under its name, which then is a
number that edits give. -/
def StaysUnless (given : String → Prop) (completed : List Symbol) (symbols : Table Symbol)
    (symbol : Symbol) : Prop :=
  symbols.get? symbol.name = some symbol ∨
    NumberGiven given symbol.name ∧ ∃ pattern, .pattern pattern ∈ completed ∧
      pattern.name = symbol.name ∧ symbols.get? symbol.name = some (.pattern pattern)

theorem StaysUnless.mono {completed more : List Symbol} {symbols : Table Symbol}
    (stays : StaysUnless given completed symbols symbol) (subset : completed ⊆ more) :
    StaysUnless given more symbols symbol :=
  stays.imp_right fun ⟨number, pattern, member, rest⟩ => ⟨number, pattern, subset member, rest⟩

/-- To store one symbol or none leaves what is there, if it has another name. -/
theorem get?_storing_toList {symbols : Table Symbol} (symbol? : Option Symbol)
    (found : symbols.get? symbol.name = some symbol) :
    (symbols.storing symbol?.toList).get? symbol.name = some symbol ∨
      ∃ other, symbol? = some other ∧ other.name = symbol.name := by
  cases symbol? with
  | none => exact .inl found
  | some other =>
      by_cases same : other.name = symbol.name
      · exact .inr ⟨other, rfl, same⟩
      · refine .inl ?_
        change (symbols.insert other.name other).get? symbol.name = _
        rw [Table.get?_insert, if_neg (Ne.symm same), found]

theorem storing_singleton (symbols : Table Symbol) (symbol : Symbol) :
    (symbols.storing [symbol]).get? symbol.name = some symbol := by
  change (symbols.insert symbol.name symbol).get? symbol.name = _
  rw [Table.get?_insert, if_pos rfl]

theorem apply_stored (completes : draft.completes? edit = some symbol) :
    (draft.apply edit).draft.symbols.get? symbol.name = some symbol := by
  rw [apply_symbols, completes]
  exact storing_singleton draft.symbols symbol

theorem contains_of_get? {symbols : Table Symbol} {name : String}
    (found : symbols.get? name = some symbol) : symbols.contains name = true :=
  Option.isSome_iff_exists.2 ⟨symbol, found⟩

/-- The induction is on the edits; where one of them stores a pattern over the symbol, it is this
pattern that is followed from there. -/
theorem Apart.stored_stays (apart : draft.Apart given) {edits : List Edit}
    (isGiven : ∀ edit ∈ edits, ∀ name, edit.name? = some name → given name)
    (found : draft.symbols.get? symbol.name = some symbol) :
    StaysUnless given (draft.completions edits)
      (draft.symbols.storing (draft.completions edits)) symbol := by
  induction edits generalizing draft symbol with
  | nil =>
      rcases get?_storing_toList draft.sealed? found with stays | ⟨other, isSealed, same⟩
      · exact .inl stays
      · obtain ⟨charset, isCharset, rfl⟩ := charset_of_sealed isSealed
        cases (apart.charset charset isCharset).symm.trans (contains_of_get? (same ▸ found))
  | cons edit rest inductionHypothesis =>
      obtain ⟨editGiven, restGiven⟩ := List.forall_mem_cons.1 isGiven
      have next := apart.apply edit editGiven
      have further := List.subset_append_right (draft.completes? edit).toList
        ((draft.apply edit).draft.completions rest)
      rw [storing_completions_cons]
      rcases get?_storing_toList (draft.completes? edit) found with stays | ⟨other, completes, same⟩
      · rw [← apply_symbols] at stays
        exact (inductionHypothesis next restGiven stays).mono further
      · obtain ⟨number, pattern, rfl⟩ := apart.taken completes (contains_of_get? (same ▸ found))
        have completed : .pattern pattern ∈ draft.completions (edit :: rest) := by
          rw [completions, completes]
          exact List.mem_cons_self
        rcases inductionHypothesis next restGiven (apply_stored completes) with
          stays | ⟨_, later, member, sameLater, isLater⟩
        · exact .inr ⟨same ▸ number, pattern, completed, same, same ▸ stays⟩
        · exact .inr ⟨same ▸ number, later, further member, sameLater.trans same, same ▸ isLater⟩

/-- A symbol that is completed on the way. -/
theorem Apart.completed_stays (apart : draft.Apart given) {edits : List Edit}
    (isGiven : ∀ edit ∈ edits, ∀ name, edit.name? = some name → given name) :
    ∀ symbol ∈ draft.completions edits, StaysUnless given (draft.completions edits)
      (draft.symbols.storing (draft.completions edits)) symbol := by
  induction edits generalizing draft with
  | nil =>
      intro symbol member
      rw [completions, Option.mem_toList.1 member]
      exact .inl (storing_singleton draft.symbols symbol)
  | cons edit rest inductionHypothesis =>
      obtain ⟨editGiven, restGiven⟩ := List.forall_mem_cons.1 isGiven
      have next := apart.apply edit editGiven
      have further := List.subset_append_right (draft.completes? edit).toList
        ((draft.apply edit).draft.completions rest)
      intro symbol member
      rw [storing_completions_cons]
      rcases List.mem_append.1 member with completed | isFurther
      · have stored := apply_stored (Option.mem_toList.1 completed)
        exact (next.stored_stays restGiven stored).mono further
      · exact (inductionHypothesis next restGiven symbol isFurther).mono further

end Apart

end Draft

open Draft

/-- One of the edits gives this name. -/
def Gives (edits : List Edit) (name : String) : Prop :=
  ∃ edit ∈ edits, edit.name? = some name

/-- What becomes of the symbols that edits complete, refused edits among them, when the draft can be
sealed. Each is found under its name, unless this name is a number and an edit has given it: then a
pattern that was completed under this number may stand in its place. So no symbol is lost exactly if
no two different ones are completed under one number that has been given as a name. -/
theorem completed_symbols_stay (edits : List Edit) (schema : Schema)
    (finished : (afterAll {} edits).finish = .ok schema) :
    (∀ symbol ∈ completions {} edits, schema.get? symbol.name = some symbol ∨
      (Gives edits symbol.name ∧ ∃ number : Nat, symbol.name = toString number) ∧
      ∃ pattern, .pattern pattern ∈ completions {} edits ∧ pattern.name = symbol.name ∧
        schema.get? symbol.name = some (.pattern pattern)) ∧
    ((∀ symbol ∈ completions {} edits, schema.get? symbol.name = some symbol) ↔
      ∀ number : Nat, Gives edits (toString number) →
        ∀ first ∈ completions {} edits, ∀ second ∈ completions {} edits,
          first.name = toString number → second.name = toString number → first = second) := by
  obtain ⟨rfl, _⟩ := finish_eq_ok finished
  have apart : ({} : Draft).Apart (Gives edits) := apart_empty
  have stays := apart.completed_stays fun edit member name named => ⟨edit, member, named⟩
  rw [← commit_afterAll_symbols] at stays
  refine ⟨stays, ?_, ?_⟩
  · intro allStay number _ first isFirst second isSecond firstNamed secondNamed
    have found := allStay first isFirst
    rw [firstNamed, ← secondNamed, allStay second isSecond] at found
    exact (Option.some.inj found).symm
  · intro unique symbol member
    rcases stays symbol member with
      found | ⟨⟨isGiven, number, isNumber⟩, pattern, completed, same, found⟩
    · exact found
    · have sameSymbol := unique number (isNumber ▸ isGiven) symbol member _ completed isNumber
        (same.trans isNumber)
      exact found.trans (congrArg some sameSymbol.symm)

/-- Edits that give a number as a name, and more patterns without a name than one. Some of the edits
are refused: a name that is taken, behind which a charset is complete all the same; a pattern that
ends empty, so that its number is used up; and a pattern that begins inside another. -/
def editsWithNumberGiven : List Edit :=
  [.beginPattern (some "7"), .addRule {} true, .addCriterion (.literal "a"),
    .beginPattern none, .endPattern, .beginCharset "ab", .addCriterion (.range 'a' 'b'),
    .beginCharset "7", .beginPattern none, .endPattern, .beginPattern none, .addRule {} true,
    .addCriterion (.literal "b"), .endPattern]

/-- Where no number that is given as a name is reached by the count, nothing is lost. -/
theorem given_number_out_of_reach_stays :
    ∃ schema, (afterAll {} editsWithNumberGiven).finish = .ok schema ∧
      (completions {} editsWithNumberGiven).map Symbol.name = ["7", "ab", "1"] ∧
      ∀ symbol ∈ completions {} editsWithNumberGiven,
        schema.get? symbol.name = some symbol := by
  have names : (completions {} editsWithNumberGiven).map Symbol.name = ["7", "ab", "1"] := by
    decide +kernel
  have unique : ((completions {} editsWithNumberGiven).map Symbol.name).Nodup := by
    rw [names]
    decide
  have seals : (afterAll {} editsWithNumberGiven).finish.toOption.isSome = true := by
    decide +kernel
  cases finished : (afterAll {} editsWithNumberGiven).finish with
  | error refusal =>
      rw [finished] at seals
      cases seals
  | ok schema =>
      refine ⟨schema, rfl, names,
        (completed_symbols_stay editsWithNumberGiven schema finished).2.2 ?_⟩
      intro number _ first isFirst second isSecond firstNamed secondNamed
      exact List.inj_on_of_nodup_map unique isFirst isSecond (firstNamed.trans secondNamed.symm)

/-- A pattern with the name "0", and behind it the first pattern without a name. -/
def editsWithNumberTaken : List Edit :=
  [.beginPattern (some "0"), .addRule {} true, .addCriterion (.literal "a"), .endPattern,
    .beginPattern none, .addRule {} true, .addCriterion (.literal "b"), .endPattern]

/-- The name was free when it was given, and the pattern has been completed; but the count takes the
name once more, and the pattern is lost. -/
theorem given_number_is_taken_over :
    ¬∀ edits schema, (afterAll {} edits).finish = .ok schema →
      ∀ symbol ∈ completions {} edits, schema.get? symbol.name = some symbol := by
  intro neverLost
  have completed : completions {} editsWithNumberTaken =
      [.pattern ⟨"0", [.mk (.rule ⟨true, [.literal "a"]⟩) {} .once]⟩,
        .pattern ⟨"0", [.mk (.rule ⟨true, [.literal "b"]⟩) {} .once]⟩] := by
    rfl
  have seals : (afterAll {} editsWithNumberTaken).finish.toOption.isSome = true := by
    decide +kernel
  cases finished : (afterAll {} editsWithNumberTaken).finish with
  | error refusal =>
      rw [finished] at seals
      cases seals
  | ok schema =>
      have stays := neverLost editsWithNumberTaken schema finished
      rw [completed] at stays
      have first := stays _ List.mem_cons_self
      have second := stays _ (List.mem_cons_of_mem _ List.mem_cons_self)
      simpa using first.symm.trans second

end PlainPattern
