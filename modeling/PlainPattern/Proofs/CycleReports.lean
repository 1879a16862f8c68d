import PlainPattern.Proofs.LegalTrees
import PlainPattern.Schema.CharacterClass

/-!
Contract: a draft is refused for a cycle of charsets exactly if it holds one.

Owns: what sealing makes of the answer of the walk (`finish_eq_charsetCycle_iff`), which links a
table that was built by edits can have, and the main result `charset_cycles_are_detected`. The walk
itself is the subject of `Proofs.CharsetWalk`.
-/

set_option autoImplicit false

namespace PlainPattern

theorem exists_findCharsetCycle?_iff {symbols : Table Symbol} :
    (∃ cycle, findCharsetCycle? symbols = some cycle) ↔
      ∃ name, Relation.TransGen (CharsetLink symbols) name name := by
  rw [← Option.ne_none_iff_exists', Ne, findCharsetCycle?_eq_none_iff, CharsetsAcyclic]
  simp only [not_forall, not_not]

theorem CharsetLink.target {symbols : Table Symbol} {name next : String}
    (link : CharsetLink symbols name next) :
    ∃ charset, symbols.get? next = some (.charset charset) :=
  link.elim fun _ linked => linked.elim fun target linked => ⟨target, linked.2.2⟩

/-- Where every step leads down, none leads back. -/
theorem not_returns_of_rank {step : String → String → Prop} (rank : String → Nat)
    (descends : ∀ name next, step name next → rank next < rank name) (name : String) :
    ¬Relation.TransGen step name name := by
  have lower {last : String} (leads : Relation.TransGen step name last) :
      rank last < rank name := by
    induction leads with
    | single link => exact descends _ _ link
    | tail _ link inductionHypothesis => exact Nat.lt_trans (descends _ _ link) inductionHypothesis
  exact fun returns => Nat.lt_irrefl _ (lower returns)

theorem acyclic_of_rank {symbols : Table Symbol} (rank : String → Nat)
    (descends : ∀ name next, CharsetLink symbols name next → rank next < rank name) :
    CharsetsAcyclic symbols :=
  not_returns_of_rank rank descends

namespace Draft

variable {draft : Draft}

/-- Storing the last charset is never refused for a cycle. -/
theorem commit_refusal_ne_charsetCycle (draft : Draft) (cycle : List String) :
    draft.commit.refusal ≠ some (.charsetCycle cycle) := by
  unfold Draft.commit
  split
  · simp [Revision.accepted]
  · split
    · simp [Revision.refused]
    · simp [Revision.accepted]
  · simp [Revision.refused]

theorem finish_eq_charsetCycle_iff {cycle : List String} :
    draft.finish = .error (.charsetCycle cycle) ↔
      draft.commit.refusal = none ∧ findCharsetCycle? draft.commit.draft.symbols = some cycle := by
  unfold Draft.finish
  simp only
  cases committed : draft.commit.refusal with
  | some refusal =>
      have different : refusal ≠ .charsetCycle cycle := fun same =>
        commit_refusal_ne_charsetCycle draft cycle (same ▸ committed)
      simp [different]
  | none => cases findCharsetCycle? draft.commit.draft.symbols <;> simp

/-- In what edits have built, no charset has the name of a character class. -/
theorem SoundlyLegal.not_link_className (sound : draft.SoundlyLegal) (name : String)
    (characterClass : CharacterClass) :
    ¬CharsetLink draft.commit.draft.symbols name characterClass.name := by
  intro link
  obtain ⟨charset, found⟩ := link.target
  have unreserved := ((Sound.commit sound).symbols _ _ found).2.1
  have reserved : Keyword.reserved characterClass.name = true := by
    cases characterClass <;> decide
  rw [reserved] at unreserved
  cases unreserved

end Draft

/-- Whatever edits are made to an empty draft: where sealing comes to look for cycles, it is refused
for one exactly if a charset leads back to itself, and the names that the refusal gives are a cycle.
Only links from charset to charset count, and no character class is ever the end of one; charsets
that are shared do no harm as long as the links lead down. -/
theorem charset_cycles_are_detected (edits : List Edit) :
    let draft := Draft.afterAll {} edits
    let symbols := draft.commit.draft.symbols
    ((∃ cycle, draft.finish = .error (.charsetCycle cycle)) ↔
      draft.commit.refusal = none ∧
        ∃ name, Relation.TransGen (CharsetLink symbols) name name) ∧
    (∀ cycle, draft.finish = .error (.charsetCycle cycle) → CharsetCycle symbols cycle) ∧
    ((∃ cycle, findCharsetCycle? symbols = some cycle) ↔
      ∃ name, Relation.TransGen (CharsetLink symbols) name name) ∧
    (∀ cycle, findCharsetCycle? symbols = some cycle → CharsetCycle symbols cycle) ∧
    (∀ other : Table Symbol, CharsetLink other = CharsetLink symbols →
      ((∃ cycle, findCharsetCycle? other = some cycle) ↔
        ∃ cycle, findCharsetCycle? symbols = some cycle)) ∧
    (∀ name (characterClass : CharacterClass), ¬CharsetLink symbols name characterClass.name) ∧
    (∀ rank : String → Nat,
      (∀ name next, CharsetLink symbols name next → rank next < rank name) →
        findCharsetCycle? symbols = none) := by
  intro draft symbols
  have sound := Draft.soundlyLegal_empty.afterAll edits
  refine ⟨?_, ?_, exists_findCharsetCycle?_iff, fun cycle => cycle_of_findCharsetCycle?, ?_,
    sound.not_link_className, ?_⟩
  · rw [← exists_findCharsetCycle?_iff, ← exists_and_left]
    exact exists_congr fun cycle => Draft.finish_eq_charsetCycle_iff
  · intro cycle refused
    exact cycle_of_findCharsetCycle? (Draft.finish_eq_charsetCycle_iff.1 refused).2
  · intro other sameLinks
    rw [exists_findCharsetCycle?_iff, exists_findCharsetCycle?_iff, sameLinks]
  · exact fun rank descends => findCharsetCycle?_eq_none_iff.2 (acyclic_of_rank rank descends)

/-- Charsets of which two share a third, with references to a pattern, a class and a symbol that
does not exist. -/
def sharingEdits : List Edit :=
  [.beginPattern (some "word"), .addReference "first" {}, .endPattern, .beginCharset "first",
    .addCriterion (.symbol "left"), .addCriterion (.symbol "right"), .beginCharset "left",
    .addCriterion (.symbol "digit"), .addCriterion (.symbol "last"), .beginCharset "right",
    .addCriterion (.symbol "word"), .addCriterion (.symbol "nowhere"),
    .addCriterion (.symbol "last"), .beginCharset "last", .addCriterion (.literal "x")]

/-- Charsets may share another one. If that one leads back to the first of them, the chain is
reported from there on, without the way that leads to it. -/
theorem closed_chain_is_reported :
    (Draft.afterAll {} sharingEdits).finish.toOption.isSome = true ∧
    (Draft.afterAll {} (sharingEdits ++ [.addCriterion (.symbol "left")])).finish =
      .error (.charsetCycle ["left", "last", "left"]) ∧
    CharsetCycle
      (Draft.afterAll {} (sharingEdits ++ [.addCriterion (.symbol "left")])).commit.draft.symbols
      ["left", "last", "left"] := by
  have reported : (Draft.afterAll {} (sharingEdits ++ [.addCriterion (.symbol "left")])).finish =
      .error (.charsetCycle ["left", "last", "left"]) :=
    Draft.finish_eq_charsetCycle_iff.2 (by decide +kernel)
  exact ⟨by decide +kernel, reported, (charset_cycles_are_detected _).2.1 _ reported⟩

end PlainPattern
