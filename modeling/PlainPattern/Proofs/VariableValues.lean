import PlainPattern.Proofs.Captures

/-!
Contract: a variable matches exactly its value, wherever text is left.

Owns: `State.Passes`, what stepping over a stretch of text does to a state; the two lemmas that say
when a given text can be consumed and what comes of it; and the main result
`variable_matches_its_value`. Two layers decide a rule of one variable: the rule looks first whether
any text is left, and only then is the value compared. So where no text is left even the empty value
does not match, as `empty_value_fails_at_end` shows.
-/

set_option autoImplicit false

namespace PlainPattern

/-- `after` is the state behind the characters in `added`, which every name that was collecting has
gained, and no other. -/
structure State.Passes (entry : State) (added : List Char) (after : State) : Prop where
  position : after.position = entry.position + added.length
  collecting : after.collecting = entry.collecting
  captured : ∀ name, after.captured.get? name =
    if name ∈ entry.collecting then extended (entry.captured.get? name) added
    else entry.captured.get? name

namespace State.Passes

variable {text : Array Char} {entry after : State} {character : Char} {rest : List Char}

theorem nothing (entry : State) : entry.Passes [] entry where
  position := rfl
  collecting := rfl
  captured := by simp

/-- One character, and then what stands behind it. -/
theorem cons (distinct : entry.collecting.Nodup) (inside : entry.current? text = some character)
    (behind : (entry.advance text).Passes rest after) : entry.Passes (character :: rest) after where
  position := by
    rw [behind.position, State.position_advance_of_inside inside, List.length_cons]
    omega
  collecting := behind.collecting.trans (entry.advance_collecting text)
  captured := by
    intro name
    rw [behind.captured, State.advance_collecting, State.get?_captured_advance inside distinct]
    split
    · rw [extended_append, List.singleton_append]
    · rfl

end State.Passes

namespace Evaluator

variable {text : Array Char} {entry after : State} {expected : List Char}

theorem cons_prefix_drop_iff {character : Char} {rest : List Char} {place : Nat} :
    character :: rest <+: text.toList.drop place ↔
      text[place]? = some character ∧ rest <+: text.toList.drop (place + 1) := by
  rw [← Array.getElem?_toList, ← List.drop_drop, List.drop_one, ← List.head?_drop]
  cases text.toList.drop place with
  | nil => simp
  | cons head tail => simp [List.cons_prefix_cons, eq_comm]

/-- The induction is on the text that is expected: it is consumed one character at a time. -/
theorem prefix_of_consume? (found : consume? text expected entry = some after)
    (distinct : entry.collecting.Nodup) :
    expected <+: text.toList.drop entry.position ∧ entry.Passes expected after := by
  induction expected generalizing entry with
  | nil =>
      cases found
      exact ⟨List.nil_prefix, .nothing after⟩
  | cons character rest inductionHypothesis =>
      unfold consume? at found
      split at found
      · rename_i inside
        have advanced := entry.advance_collecting text
        obtain ⟨stands, passes⟩ := inductionHypothesis found (advanced ▸ distinct)
        rw [State.position_advance_of_inside inside] at stands
        exact ⟨cons_prefix_drop_iff.2 ⟨inside, stands⟩, .cons distinct inside passes⟩
      · cases found

theorem exists_of_prefix (stands : expected <+: text.toList.drop entry.position) :
    ∃ after, consume? text expected entry = some after := by
  induction expected generalizing entry with
  | nil => exact ⟨entry, rfl⟩
  | cons character rest inductionHypothesis =>
      obtain ⟨inside, behind⟩ := cons_prefix_drop_iff.1 stands
      have current : entry.current? text = some character := inside
      rw [consume?, if_pos current]
      refine inductionHypothesis ?_
      rwa [State.position_advance_of_inside current]

/-- A text is matched exactly where it stands, and is stepped over. -/
theorem exactly_cases (text : Array Char) (expected : List Char)
    (distinct : entry.collecting.Nodup) :
    (expected <+: text.toList.drop entry.position ∧
      ∃ after, exactly text expected entry = .answer true after ∧ entry.Passes expected after) ∨
    (¬expected <+: text.toList.drop entry.position ∧
      exactly text expected entry = .answer false entry) := by
  unfold exactly
  cases found : consume? text expected entry with
  | some after =>
      obtain ⟨stands, passes⟩ := prefix_of_consume? found distinct
      exact .inl ⟨stands, after, rfl, passes⟩
  | none =>
      refine .inr ⟨fun stands => ?_, rfl⟩
      obtain ⟨after, consumed⟩ := exists_of_prefix stands
      cases found.symm.trans consumed

end Evaluator

namespace Scene

variable {scene : Scene} {entry : State} {name value : String}

/-- What this match has captured goes before what the caller has supplied. -/
theorem value?_of_bound
    (bound : entry.captured.get? name = some value ∨
      entry.captured.get? name = none ∧ scene.supplied.get? name = some value) :
    entry.value? scene.supplied name = some value := by
  unfold State.value?
  rcases bound with captured | ⟨fresh, supplied⟩
  · rw [captured]
  · rw [fresh]
    exact supplied

theorem rule_variable_inside (inside : entry.atEnd scene.text = false)
    (bound : entry.value? scene.supplied name = some value) :
    scene.rule ⟨true, [.valueOf name]⟩ entry =
      Evaluator.exactly scene.text value.toList entry := by
  simp only [rule, inside, Bool.false_eq_true, ↓reduceIte, List.map_cons, List.map_nil,
    Evaluator.firstOf, criterion, criterionWith, bound]
  split <;> simp_all

/-- Where no text is left, the rule of a variable does not ask for its value. -/
theorem rule_variable_atEnd (atEnd : entry.atEnd scene.text = true) (name : String) :
    scene.rule ⟨true, [.valueOf name]⟩ entry = .answer false entry := by
  simp [rule, atEnd]

end Scene

/-- A rule that is one variable matches where text is left and the value of the variable stands, the
empty value included. Then the cursor moves by the length of the value, and every name that was
collecting gains the value, also if it is the name of the variable itself. Anywhere else the rule
fails, and the state is as before: in particular behind the last character, whatever the value. -/
theorem variable_matches_its_value (scene : Scene) (entry : State) (names : List String)
    (name value : String)
    (begun : entry.collecting = (names.foldl State.beginCapture {}).collecting)
    (bound : entry.captured.get? name = some value ∨
      entry.captured.get? name = none ∧ scene.supplied.get? name = some value) :
    let outcome := scene.rule ⟨true, [.valueOf name]⟩ entry
    ((∃ after, outcome = .answer true after) ↔
      entry.position < scene.text.size ∧
        value.toList <+: scene.text.toList.drop entry.position) ∧
    (∀ after, outcome = .answer true after → entry.Passes value.toList after) ∧
    ((∀ after, outcome ≠ .answer true after) → outcome = .answer false entry) ∧
    (value = "" → entry.position < scene.text.size → outcome = .answer true entry) := by
  intro outcome
  have isValue := Scene.value?_of_bound bound
  cases atEnd : entry.atEnd scene.text with
  | true =>
      have failed : outcome = .answer false entry := Scene.rule_variable_atEnd atEnd name
      have behind : ¬entry.position < scene.text.size := by simpa [State.atEnd] using atEnd
      rw [failed]
      simp [behind]
  | false =>
      have inside : entry.position < scene.text.size := by simpa [State.atEnd] using atEnd
      have compared : outcome = Evaluator.exactly scene.text value.toList entry :=
        Scene.rule_variable_inside atEnd isValue
      have empty : value = "" → outcome = .answer true entry := by
        rintro rfl
        exact compared
      rcases Evaluator.exactly_cases scene.text value.toList (State.nodup_of_begun begun) with
        ⟨stands, after, matched, passes⟩ | ⟨missing, failed⟩
      · rw [← compared] at matched
        refine ⟨⟨fun _ => ⟨inside, stands⟩, fun _ => ⟨after, matched⟩⟩, ?_, ?_,
          fun isEmpty _ => empty isEmpty⟩
        · intro other isOther
          cases matched.symm.trans isOther
          exact passes
        · exact fun never => absurd matched (never after)
      · rw [← compared] at failed
        refine ⟨⟨?_, fun both => absurd both.2 missing⟩, ?_, fun _ => failed,
          fun isEmpty _ => empty isEmpty⟩
        · rintro ⟨after, matched⟩
          cases failed.symm.trans matched
        · intro after matched
          cases failed.symm.trans matched

/-- A variable that stands for its own capture is compared with what was captured before, and the
capture grows by it; a supplied value that is empty matches in front of the last character. -/
theorem own_capture_grows_by_its_value :
    let scene : Scene := ⟨∅, #['a', 'b', 'a', 'b', 'c'], Bindings.ofPairs [("blank", "")]⟩
    let growing : State := ⟨2, Bindings.ofPairs [("pair", "ab")], ["pair"]⟩
    let behind : State := ⟨4, ∅, ["pair"]⟩
    growing.collecting = (["pair"].foldl State.beginCapture {}).collecting ∧
      growing.captured.get? "pair" = some "ab" ∧ scene.supplied.get? "blank" = some "" ∧
      (∃ after, scene.rule ⟨true, [.valueOf "pair"]⟩ growing = .answer true after ∧
        after.position = 4 ∧ after.captured.get? "pair" = some "abab") ∧
      scene.rule ⟨true, [.valueOf "blank"]⟩ behind = .answer true behind := by
  intro scene growing behind
  have begun : growing.collecting = (["pair"].foldl State.beginCapture {}).collecting := rfl
  have captured : growing.captured.get? "pair" = some "ab" := by decide
  have supplied : scene.supplied.get? "blank" = some "" := by decide
  have grows := variable_matches_its_value scene growing ["pair"] "pair" "ab" begun (.inl captured)
  have empty := variable_matches_its_value scene behind ["pair"] "blank" "" begun
    (.inr ⟨rfl, supplied⟩)
  obtain ⟨after, matched⟩ := grows.1.2 ⟨by decide, by decide⟩
  have passes := grows.2.1 after matched
  refine ⟨begun, captured, supplied, ⟨after, matched, passes.position, ?_⟩,
    empty.2.2.2 rfl (by decide)⟩
  rw [passes.captured, captured]
  rfl

/-- Behind the last character a variable does not match, though its value is empty and so begins
what is left of the text. -/
theorem empty_value_fails_at_end :
    let scene : Scene := ⟨∅, #['a'], Bindings.ofPairs [("blank", "")]⟩
    let entry : State := ⟨1, ∅, []⟩
    entry.captured.get? "blank" = none ∧ scene.supplied.get? "blank" = some "" ∧
      entry.position ≤ scene.text.size ∧
      "".toList <+: scene.text.toList.drop entry.position ∧
      ¬∃ after, scene.rule ⟨true, [.valueOf "blank"]⟩ entry = .answer true after := by
  intro scene entry
  refine ⟨rfl, by decide, by decide, by decide, ?_⟩
  rintro ⟨after, matched⟩
  have failed : scene.rule ⟨true, [.valueOf "blank"]⟩ entry = .answer false entry :=
    Scene.rule_variable_atEnd rfl "blank"
  cases failed.symm.trans matched

end PlainPattern
