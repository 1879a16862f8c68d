import PlainPattern.Matching.Search
import PlainPattern.Proofs.Rollback

/-!
Contract: a search answers with the leftmost match and forgets the attempts before it.

Owns: attempts in a state of their own, the offsets at which they fail, and the three ways in which
a search ends: `search_of_match`, `search_of_undecided` and `search_of_failing`.
`leading_or_failing` says that there is no other. The state that serves all attempts drops out in
`firstMatch_state`.
-/

set_option autoImplicit false

namespace PlainPattern

/-- No attempt from `first` on and before `last` matches, each made in a fresh state. -/
def FailsBetween (evaluator : Evaluator) (first last : Nat) : Prop :=
  ∀ offset, first ≤ offset → offset < last →
    ∃ after, evaluator (State.startingAt offset) = .answer false after

/-- The first offset of the text, from `first` on, at which an attempt does not just fail. -/
structure Leading (evaluator : Evaluator) (text : Array Char) (first start : Nat) : Prop where
  notBefore : first ≤ start
  inside : start < text.size
  failing : FailsBetween evaluator first start

/-! ## Attempts in a row -/

section Attempts

variable {evaluator : Evaluator} {text : Array Char} {first start : Nat}

theorem firstMatch_state (evaluator : Evaluator) (state other : State) (offsets : List Nat) :
    firstMatch evaluator state offsets = firstMatch evaluator other offsets := by
  cases offsets <;> rfl

theorem firstMatch_cons_of_unmatched (state : State) {offset : Nat} {after : State}
    (unmatched : evaluator (State.startingAt offset) = .answer false after) (later : List Nat) :
    firstMatch evaluator state (offset :: later) = firstMatch evaluator state later := by
  rw [firstMatch, State.reset_eq_startingAt, unmatched]
  exact firstMatch_state evaluator after state later

theorem firstMatch_range'_of_failing (state : State) {skipped : Nat} (rest : Nat)
    (failing : FailsBetween evaluator first (first + skipped)) :
    firstMatch evaluator state (List.range' first (skipped + rest)) =
      firstMatch evaluator state (List.range' (first + skipped) rest) := by
  induction skipped generalizing first with
  | zero => rw [Nat.zero_add, Nat.add_zero]
  | succ skipped inductionHypothesis =>
      obtain ⟨after, outcome⟩ := failing first (Nat.le_refl _) (by omega)
      have laterFailing : FailsBetween evaluator (first + 1) (first + 1 + skipped) :=
        fun offset above below => failing offset (by omega) (by omega)
      have shifted : first + 1 + skipped = first + (skipped + 1) := by omega
      rw [Nat.add_right_comm, List.range'_succ, firstMatch_cons_of_unmatched state outcome,
        inductionHypothesis laterFailing, shifted]

theorem firstMatch_offsetsFrom (state : State) (notBefore : first ≤ start)
    (inside : start ≤ text.size) (failing : FailsBetween evaluator first start) :
    firstMatch evaluator state (offsetsFrom first text) =
      firstMatch evaluator state (offsetsFrom start text) := by
  obtain ⟨skipped, rfl⟩ := Nat.exists_eq_add_of_le notBefore
  have count : text.size - first = skipped + (text.size - (first + skipped)) := by omega
  rw [offsetsFrom, count, firstMatch_range'_of_failing state _ failing]
  rfl

theorem offsetsFrom_of_inside (inside : start < text.size) :
    offsetsFrom start text = start :: offsetsFrom (start + 1) text := by
  have count : text.size - start = text.size - (start + 1) + 1 := by omega
  rw [offsetsFrom, count, List.range'_succ]
  rfl

theorem offsetsFrom_of_behind (behind : text.size ≤ start) : offsetsFrom start text = [] := by
  rw [offsetsFrom, Nat.sub_eq_zero_of_le behind]
  rfl

theorem firstMatch_of_leading (leading : Leading evaluator text first start) :
    firstMatch evaluator {} (offsetsFrom first text) =
      firstMatch evaluator {} (start :: offsetsFrom (start + 1) text) := by
  rw [firstMatch_offsetsFrom {} leading.notBefore (Nat.le_of_lt leading.inside) leading.failing,
    offsetsFrom_of_inside leading.inside]

theorem firstMatch_of_failing (failing : FailsBetween evaluator first text.size) :
    firstMatch evaluator {} (offsetsFrom first text) = .ok none := by
  by_cases behind : text.size ≤ first
  · rw [offsetsFrom_of_behind behind]
    rfl
  · rw [firstMatch_offsetsFrom {} (by omega) (Nat.le_refl _) failing,
      offsetsFrom_of_behind (Nat.le_refl _)]
    rfl

theorem FailsBetween.fromUnmatched {last : Nat} {after : State}
    (unmatched : evaluator (State.startingAt first) = .answer false after)
    (failing : FailsBetween evaluator (first + 1) last) : FailsBetween evaluator first last := by
  intro offset above below
  by_cases isFirst : offset = first
  · exact ⟨after, isFirst ▸ unmatched⟩
  · exact failing offset (by omega) below

/-- Either all attempts from an offset on fail, or one of them is the first that does not. -/
theorem leading_or_failing (evaluator : Evaluator) (text : Array Char) (first : Nat) :
    (∃ start, Leading evaluator text first start ∧
      ((∃ after, evaluator (State.startingAt start) = .answer true after) ∨
        ∃ error after, evaluator (State.startingAt start) = .undecided error after)) ∨
    FailsBetween evaluator first text.size := by
  obtain ⟨left, same⟩ : ∃ left, left = text.size - first := ⟨_, rfl⟩
  induction left generalizing first with
  | zero => exact Or.inr fun offset above below => by omega
  | succ left inductionHypothesis =>
      have here : Leading evaluator text first first :=
        ⟨Nat.le_refl _, by omega, fun offset above below => by omega⟩
      match outcome : evaluator (State.startingAt first) with
      | .answer true after => exact Or.inl ⟨first, here, Or.inl ⟨after, outcome⟩⟩
      | .undecided error after => exact Or.inl ⟨first, here, Or.inr ⟨error, after, outcome⟩⟩
      | .answer false after =>
          rcases inductionHypothesis (first + 1) (by omega) with
            ⟨start, leading, decided⟩ | failing
          · have notBefore := Nat.le_of_succ_le leading.notBefore
            have failing := leading.failing.fromUnmatched outcome
            exact Or.inl ⟨start, ⟨notBefore, leading.inside, failing⟩, decided⟩
          · exact Or.inr (failing.fromUnmatched outcome)

end Attempts

/-! ## Searches -/

namespace Tracker

variable {schema : Schema} {text : Array Char} {options : Options} {pattern : Pattern}
  {global : Bool} {start : Nat} {after : State}

/-- Where a search begins. -/
def beginning (tracker : Tracker) (global : Bool) : Nat :=
  if global then tracker.lastIndex else 0

theorem search_eq (tracker : Tracker) (resolved : schema.entryPattern options.entry = .ok pattern) :
    tracker.search schema text options global =
      match firstMatch (Scene.pattern ⟨schema, text, options.supplied⟩ pattern) {}
          (offsetsFrom (tracker.beginning global) text) with
      | .error error => (.error error, ⟨tracker.beginning global⟩)
      | .ok none => (.ok none, ⟨0⟩)
      | .ok (some span) =>
          (.ok (some span),
            ⟨if global && span.start == span.stop then span.stop + 1 else span.stop⟩) := by
  simp only [search, resolved]
  rfl

theorem search_of_match (tracker : Tracker)
    (resolved : schema.entryPattern options.entry = .ok pattern)
    (leading : Leading (Scene.pattern ⟨schema, text, options.supplied⟩ pattern) text
      (tracker.beginning global) start)
    (matched : Scene.pattern ⟨schema, text, options.supplied⟩ pattern (State.startingAt start) =
      .answer true after) :
    tracker.search schema text options global =
      (.ok (some ⟨start, after.position, after.captured⟩),
        ⟨if global && start == after.position then after.position + 1 else after.position⟩) := by
  rw [tracker.search_eq resolved, firstMatch_of_leading leading, firstMatch,
    State.reset_eq_startingAt, matched]

theorem search_of_undecided (tracker : Tracker) {error : MatchError}
    (resolved : schema.entryPattern options.entry = .ok pattern)
    (leading : Leading (Scene.pattern ⟨schema, text, options.supplied⟩ pattern) text
      (tracker.beginning global) start)
    (undecided : Scene.pattern ⟨schema, text, options.supplied⟩ pattern (State.startingAt start) =
      .undecided error after) :
    tracker.search schema text options global = (.error error, ⟨tracker.beginning global⟩) := by
  rw [tracker.search_eq resolved, firstMatch_of_leading leading, firstMatch,
    State.reset_eq_startingAt, undecided]

theorem search_of_failing (tracker : Tracker)
    (resolved : schema.entryPattern options.entry = .ok pattern)
    (failing : FailsBetween (Scene.pattern ⟨schema, text, options.supplied⟩ pattern)
      (tracker.beginning global) text.size) :
    tracker.search schema text options global = (.ok none, ⟨0⟩) := by
  rw [tracker.search_eq resolved, firstMatch_of_failing failing]

theorem entryPattern_of_search {tracker next : Tracker} {found : Option Span}
    (answered : tracker.search schema text options global = (.ok found, next)) :
    ∃ pattern, schema.entryPattern options.entry = .ok pattern := by
  cases entry : schema.entryPattern options.entry with
  | ok pattern => exact ⟨pattern, rfl⟩
  | error error => simp [search, entry] at answered

theorem leading_of_search {tracker next : Tracker} {span : Span}
    (resolved : schema.entryPattern options.entry = .ok pattern)
    (found : tracker.search schema text options global = (.ok (some span), next)) :
    ∃ after, Leading (Scene.pattern ⟨schema, text, options.supplied⟩ pattern) text
        (tracker.beginning global) span.start ∧
      Scene.pattern ⟨schema, text, options.supplied⟩ pattern (State.startingAt span.start) =
        .answer true after ∧
      span = ⟨span.start, after.position, after.captured⟩ := by
  rcases leading_or_failing (Scene.pattern ⟨schema, text, options.supplied⟩ pattern) text
    (tracker.beginning global) with ⟨start, leading, ⟨after, matched⟩ | ⟨error, after, undecided⟩⟩ |
    failing
  · rw [tracker.search_of_match resolved leading matched] at found
    cases found
    exact ⟨after, leading, matched, rfl⟩
  · rw [tracker.search_of_undecided resolved leading undecided] at found
    cases found
  · rw [tracker.search_of_failing resolved failing] at found
    cases found

/-- A search that is not global has no use for what the tracker remembers. -/
theorem search_of_not_global (tracker other : Tracker)
    (resolved : schema.entryPattern options.entry = .ok pattern) :
    other.search schema text options false = tracker.search schema text options false := by
  rw [other.search_eq resolved, tracker.search_eq resolved]
  rfl

theorem test_of_find {tracker next : Tracker} {found : Option Span}
    (search : tracker.find schema text options = (.ok found, next)) :
    tracker.test schema text options = (.ok found.isSome, next) := by
  rw [test, search]

theorem test_of_find_error {tracker next : Tracker} {error : MatchError}
    (search : tracker.find schema text options = (.error error, next)) :
    tracker.test schema text options = (.error error, next) := by
  rw [test, search]

end Tracker

/-- A match lies in the text, and so does the place where the next search begins. -/
theorem Evaluator.Lawful.bounds {text : Array Char} {evaluator : Evaluator} {start : Nat}
    {after : State} (lawful : Evaluator.Lawful text evaluator) (inside : start < text.size)
    (matched : evaluator (State.startingAt start) = .answer true after) :
    start ≤ after.position ∧ after.position ≤ text.size := by
  have consumes := lawful.matched matched
  have bounded : after.position ≤ max start text.size := consumes.position_le_max
  exact ⟨consumes.position_le, by omega⟩

theorem Span.toList_text (span : Span) (text : Array Char) :
    (span.text text).toList = stretch text span.start span.stop := by
  rw [Span.text, String.toList_ofList, stretch, Array.toList_extract, List.extract_eq_take_drop,
    List.drop_take]

/-- A call decides by the first attempt that does not just fail, made in a fresh state: its match
is the answer and its error is the error of the call. If all attempts fail, so does the call. -/
theorem search_is_leftmost (tracker : Tracker) (schema : Schema) (text : Array Char)
    (options : Options) {pattern : Pattern}
    (resolved : schema.entryPattern options.entry = .ok pattern) :
    let evaluator := Scene.pattern ⟨schema, text, options.supplied⟩ pattern
    let global := options.global.getD false
    let first := if global then tracker.lastIndex else 0
    (∀ start after, Leading evaluator text first start →
      evaluator (State.startingAt start) = .answer true after →
        let span : Span := ⟨start, after.position, after.captured⟩
        let next := if global && start == after.position then after.position + 1 else after.position
        tracker.test schema text options = (.ok true, ⟨next⟩) ∧
        tracker.find schema text options = (.ok (some span), ⟨next⟩) ∧
        (span.text text).toList = stretch text start after.position ∧
        start ≤ after.position ∧ next ≤ text.size) ∧
    (∀ start error after, Leading evaluator text first start →
      evaluator (State.startingAt start) = .undecided error after →
        tracker.test schema text options = (.error error, ⟨first⟩) ∧
        tracker.find schema text options = (.error error, ⟨first⟩)) ∧
    (FailsBetween evaluator first text.size →
        tracker.test schema text options = (.ok false, ⟨0⟩) ∧
        tracker.find schema text options = (.ok none, ⟨0⟩)) ∧
    (global = false → ∀ other : Tracker,
        other.test schema text options = tracker.test schema text options ∧
        other.find schema text options = tracker.find schema text options) ∧
    (options.global = some false → ∀ (other : Tracker) (template : String),
        other.replace schema text template options =
          tracker.replace schema text template options) := by
  intro evaluator global first
  refine ⟨?_, ?_, ?_, ?_, ?_⟩
  · intro start after leading matched span next
    have found := tracker.search_of_match resolved leading matched
    have bounds := (Scene.pattern_lawful _ pattern).bounds leading.inside matched
    refine ⟨Tracker.test_of_find found, found, span.toList_text text, bounds.1, ?_⟩
    show (if global && start == after.position then after.position + 1 else after.position) ≤ _
    split
    · rename_i empty
      have inside := leading.inside
      simp only [Bool.and_eq_true, beq_iff_eq] at empty
      omega
    · exact bounds.2
  · intro start error after leading undecided
    have failed := tracker.search_of_undecided resolved leading undecided
    exact ⟨Tracker.test_of_find_error failed, failed⟩
  · intro failing
    have nothing := tracker.search_of_failing resolved failing
    exact ⟨Tracker.test_of_find nothing, nothing⟩
  · intro notGlobal other
    have same : other.find schema text options = tracker.find schema text options := by
      rw [Tracker.find, Tracker.find, show options.global.getD false = false from notGlobal]
      exact tracker.search_of_not_global other resolved
    exact ⟨by rw [Tracker.test, Tracker.test, same], same⟩
  · intro notGlobal other template
    have same : other.spansToReplace schema text options =
        tracker.spansToReplace schema text options := by
      simp only [Tracker.spansToReplace, notGlobal, Option.getD_some, Bool.false_eq_true, if_false,
        tracker.search_of_not_global other resolved]
    rw [Tracker.replace, Tracker.replace, same]

/-- The schema of a single pattern without a name. -/
def Schema.ofPattern (children : List Node) : Schema :=
  ⟨(∅ : Table Symbol).insert defaultEntry (.pattern ⟨defaultEntry, children⟩)⟩

theorem Schema.entryPattern_ofPattern (children : List Node) :
    (Schema.ofPattern children).entryPattern none = .ok ⟨defaultEntry, children⟩ := rfl

/-- An attempt that captured something before it failed leaves no trace in the match behind it. -/
theorem search_forgets_failed_attempt :
    let children : List Node :=
      [.exactly "a" { collectAs := some "first" }, .exactly "b" { collectAs := some "second" }]
    let captured : Bindings := Bindings.ofPairs [("first", "a"), ("second", "b")]
    Tracker.find {} (Schema.ofPattern children) #['a', 'a', 'b'] {} =
      (.ok (some ⟨1, 3, captured⟩), ⟨3⟩) := by
  intro children captured
  have leading : Leading
      (Scene.pattern ⟨Schema.ofPattern children, #['a', 'a', 'b'], ∅⟩ ⟨defaultEntry, children⟩)
      #['a', 'a', 'b'] 0 1 := by
    refine ⟨Nat.zero_le _, by decide, fun offset _ below => ?_⟩
    obtain rfl : offset = 0 := by omega
    exact ⟨{}, rfl⟩
  have outcomes := search_is_leftmost {} (Schema.ofPattern children) #['a', 'a', 'b'] {}
    (Schema.entryPattern_ofPattern children)
  exact (outcomes.1 1 ⟨3, captured, []⟩ leading rfl).2.1

end PlainPattern
