import PlainPattern.Matching.State

/-!
Contract: what a successful attempt does to the state of a match.

Owns: `Consumes`, the ways in which one state can lead to another: nothing happens, a character is
stepped over, a capture is opened and closed around something, or one thing follows another. Going
back is none of them. From it come the bounds of the cursor, the unchanged collecting names and
`Consumes.gains`, which says for every name what its captured value gains.

Does not own: that attempts consume in this sense. That is `Proofs.Rollback`.
-/

set_option autoImplicit false

namespace PlainPattern

/-! ## Stretches of text -/

/-- The characters of a text from one place up to another. -/
def stretch (text : Array Char) (first last : Nat) : List Char :=
  (text.extract first last).toList

section Stretch

variable {text : Array Char} {first middle last : Nat}

@[simp] theorem stretch_self (text : Array Char) (place : Nat) : stretch text place place = [] := by
  simp [stretch]

theorem stretch_append (left : first ≤ middle) (right : middle ≤ last) :
    stretch text first middle ++ stretch text middle last = stretch text first last := by
  unfold stretch
  rw [← Array.toList_append, Array.extract_append_extract, Nat.min_eq_left left,
    Nat.max_eq_right right]

theorem stretch_succ {character : Char} (found : text[first]? = some character) :
    stretch text first (first + 1) = [character] := by
  obtain ⟨inside, rfl⟩ := Array.getElem?_eq_some_iff.1 found
  apply List.ext_getElem
  · simp [stretch]
    omega
  · intro index _ below
    have isFirst : index = 0 := by simpa using below
    subst isFirst
    simp [stretch]

end Stretch

/-! ## Values that grow -/

/-- A captured value after more characters have been collected under its name. A name that collects
no character gets no value. -/
def extended (value : Option String) : List Char → Option String
  | [] => value
  | added@(_ :: _) => some (value.getD "" ++ String.ofList added)

@[simp] theorem extended_nil (value : Option String) : extended value [] = value := rfl

theorem extended_of_ne_nil (value : Option String) {added : List Char} (nonempty : added ≠ []) :
    extended value added = some (value.getD "" ++ String.ofList added) := by
  cases added with
  | nil => exact absurd rfl nonempty
  | cons head tail => rfl

theorem extended_append (value : Option String) (first second : List Char) :
    extended (extended value first) second = extended value (first ++ second) := by
  cases first with
  | nil => rfl
  | cons head tail =>
      cases second with
      | nil => simp
      | cons other rest =>
          rw [extended_of_ne_nil _ (by simp), extended_of_ne_nil _ (by simp),
            extended_of_ne_nil _ (by simp), String.ofList_append, ← String.append_assoc]
          rfl

theorem eq_empty_of_extended_eq_empty {value : Option String} {added : List Char}
    (empty : extended value added = some "") : value = some "" := by
  cases added with
  | nil => exact empty
  | cons head tail =>
      rw [extended_of_ne_nil _ (by simp), Option.some_inj, String.append_eq_empty_iff] at empty
      simp at empty

theorem of_extended_none_eq_some {value : String} {added : List Char}
    (gained : extended none added = some value) : value ≠ "" ∧ value.toList = added := by
  cases added with
  | nil => cases gained
  | cons head tail =>
      obtain rfl := Option.some.inj gained
      simp

namespace Bindings

theorem get?_append (bindings : Bindings) (name other : String) (character : Char) :
    (bindings.append name character).get? other =
      if other = name then extended (bindings.get? name) [character]
      else bindings.get? other := by
  rw [append, Table.get?_insert, String.push_eq_append]
  rfl

/-- A character that is collected under distinct names reaches each of them once. -/
theorem get?_foldl_append {names : List String} (distinct : names.Nodup) (bindings : Bindings)
    (character : Char) (other : String) :
    (names.foldl (fun captured name => captured.append name character) bindings).get? other =
      if other ∈ names then extended (bindings.get? other) [character]
      else bindings.get? other := by
  induction names generalizing bindings with
  | nil => simp
  | cons name rest inductionHypothesis =>
      obtain ⟨fresh, restDistinct⟩ := List.nodup_cons.1 distinct
      rw [List.foldl_cons, inductionHypothesis restDistinct, get?_append]
      by_cases same : other = name
      · subst same
        simp [fresh]
      · simp [same]

end Bindings

/-! ## Consumption -/

/-- One state leads to another by consuming text. -/
inductive Consumes (text : Array Char) : State → State → Prop where
  | nothing (state : State) : Consumes text state state
  | character (state : State) : Consumes text state (state.advance text)
  /-- What is consumed while a name collects that was not collecting before. -/
  | collected {entry after : State} {name : String} (fresh : name ∉ entry.collecting)
      (inside : Consumes text (entry.beginCapture name) after) :
      Consumes text entry after.endCapture
  | andThen {entry middle after : State} (first : Consumes text entry middle)
      (second : Consumes text middle after) : Consumes text entry after

namespace State

theorem beginCapture_of_fresh {state : State} {name : String} (fresh : name ∉ state.collecting) :
    state.beginCapture name = { state with collecting := name :: state.collecting } :=
  if_neg fresh

theorem nodup_beginCapture {state : State} (distinct : state.collecting.Nodup) (name : String) :
    (state.beginCapture name).collecting.Nodup := by
  unfold beginCapture
  split
  · exact distinct
  · rename_i fresh
    exact List.nodup_cons.2 ⟨fresh, distinct⟩

theorem position_advance_of_inside {state : State} {text : Array Char} {character : Char}
    (inside : state.current? text = some character) :
    (state.advance text).position = state.position + 1 := by
  rw [advance_of_inside inside]

theorem get?_captured_advance {state : State} {text : Array Char} {character : Char}
    (inside : state.current? text = some character) (distinct : state.collecting.Nodup)
    (name : String) :
    (state.advance text).captured.get? name =
      if name ∈ state.collecting then extended (state.captured.get? name) [character]
      else state.captured.get? name := by
  rw [advance_of_inside inside]
  exact Bindings.get?_foldl_append distinct state.captured character name

end State

namespace Consumes

variable {text : Array Char} {entry after : State}

theorem collecting_eq (consumes : Consumes text entry after) :
    after.collecting = entry.collecting := by
  induction consumes with
  | nothing state => rfl
  | character state => exact State.advance_collecting state text
  | collected fresh _ inductionHypothesis =>
      rw [State.beginCapture_of_fresh fresh] at inductionHypothesis
      rw [State.endCapture, inductionHypothesis]
      rfl
  | andThen _ _ firstHypothesis secondHypothesis => exact secondHypothesis.trans firstHypothesis

theorem position_le (consumes : Consumes text entry after) :
    entry.position ≤ after.position := by
  induction consumes with
  | nothing state => exact Nat.le_refl _
  | character state =>
      cases found : state.current? text with
      | none =>
          have stays := State.advance_of_atEnd found
          exact Nat.le_of_eq (congrArg State.position stays.symm)
      | some character =>
          rw [State.position_advance_of_inside found]
          exact Nat.le_succ _
  | collected fresh _ inductionHypothesis =>
      rw [State.beginCapture_of_fresh fresh] at inductionHypothesis
      exact inductionHypothesis
  | andThen _ _ firstHypothesis secondHypothesis =>
      exact Nat.le_trans firstHypothesis secondHypothesis

/-- The cursor does not leave the text, unless it stood behind the end already. -/
theorem position_le_max (consumes : Consumes text entry after) :
    after.position ≤ max entry.position text.size := by
  induction consumes with
  | nothing state => exact Nat.le_max_left _ _
  | character state =>
      cases found : state.current? text with
      | none =>
          rw [State.advance_of_atEnd found]
          exact Nat.le_max_left _ _
      | some character =>
          obtain ⟨inside, _⟩ := Array.getElem?_eq_some_iff.1 found
          rw [State.position_advance_of_inside found]
          omega
  | collected fresh _ inductionHypothesis =>
      rw [State.beginCapture_of_fresh fresh] at inductionHypothesis
      exact inductionHypothesis
  | andThen _ _ firstHypothesis secondHypothesis => omega

/-- Whoever consumes something goes on from another place. -/
theorem eq_of_position_eq (consumes : Consumes text entry after)
    (same : after.position = entry.position) : after = entry := by
  induction consumes with
  | nothing state => rfl
  | character state =>
      cases found : state.current? text with
      | none => exact State.advance_of_atEnd found
      | some character =>
          rw [State.position_advance_of_inside found] at same
          exact absurd same (Nat.succ_ne_self _)
  | @collected entry after name fresh _ inductionHypothesis =>
      have begun := State.beginCapture_of_fresh fresh
      have samePosition : after.position = (entry.beginCapture name).position := by
        rw [begun]
        exact same
      rw [inductionHypothesis samePosition, begun]
      rfl
  | andThen first second firstHypothesis secondHypothesis =>
      have forward := first.position_le
      have onward := second.position_le
      rw [secondHypothesis (by omega), firstHypothesis (by omega)]

/-- What brings the cursor no nearer to the end of the text leaves everything as it was. -/
theorem eq_of_remaining_le (consumes : Consumes text entry after)
    (idle : entry.remaining text ≤ after.remaining text) : after = entry := by
  have forward := consumes.position_le
  have inside := consumes.position_le_max
  unfold State.remaining at idle
  exact consumes.eq_of_position_eq (by omega)

/-- To move the cursor is to bring it nearer to the end of the text. -/
theorem remaining_lt_iff (consumes : Consumes text entry after) :
    after.remaining text < entry.remaining text ↔ after.position ≠ entry.position := by
  constructor
  · intro nearer same
    rw [consumes.eq_of_position_eq same] at nearer
    exact Nat.lt_irrefl _ nearer
  · intro moved
    refine Nat.lt_of_not_le fun idle => moved ?_
    rw [consumes.eq_of_remaining_le idle]

end Consumes

/-! ## What is captured -/

/-- What the captures of two states have to do with the text between their cursors. -/
structure Gains (text : Array Char) (entry after : State) : Prop where
  /-- A name that was collecting gains all of the text. -/
  whole : ∀ name ∈ entry.collecting, after.captured.get? name =
    extended (entry.captured.get? name) (stretch text entry.position after.position)
  /-- Every name gains some of the characters, in their order. -/
  part : ∀ name, ∃ added, added.Sublist (stretch text entry.position after.position) ∧
    after.captured.get? name = extended (entry.captured.get? name) added

namespace Gains

variable {text : Array Char} {entry middle after : State}

theorem refl (text : Array Char) (state : State) : Gains text state state where
  whole := by simp
  part := fun name => ⟨[], by simp, rfl⟩

theorem advance (state : State) (distinct : state.collecting.Nodup) :
    Gains text state (state.advance text) := by
  cases found : state.current? text with
  | none =>
      rw [State.advance_of_atEnd found]
      exact refl text state
  | some character =>
      have between : stretch text state.position (state.advance text).position = [character] := by
        rw [State.position_advance_of_inside found]
        exact stretch_succ found
      constructor
      · intro name member
        rw [between, State.get?_captured_advance found distinct, if_pos member]
      · intro name
        rw [between, State.get?_captured_advance found distinct]
        by_cases member : name ∈ state.collecting
        · exact ⟨[character], List.Sublist.refl _, if_pos member⟩
        · exact ⟨[], List.nil_sublist _, if_neg member⟩

/-- What is gained inside a capture is gained by the names around it as well. -/
theorem ofCapture {name : String} (fresh : name ∉ entry.collecting)
    (inside : Gains text (entry.beginCapture name) after) : Gains text entry after.endCapture := by
  rw [State.beginCapture_of_fresh fresh] at inside
  exact ⟨fun other member => inside.whole other (List.mem_cons_of_mem name member), inside.part⟩

theorem trans (forward : entry.position ≤ middle.position)
    (onward : middle.position ≤ after.position)
    (sameCollecting : middle.collecting = entry.collecting) (first : Gains text entry middle)
    (second : Gains text middle after) : Gains text entry after := by
  constructor
  · intro name member
    rw [second.whole name (sameCollecting ▸ member), first.whole name member, extended_append,
      stretch_append forward onward]
  · intro name
    obtain ⟨firstAdded, firstSublist, firstValue⟩ := first.part name
    obtain ⟨secondAdded, secondSublist, secondValue⟩ := second.part name
    refine ⟨firstAdded ++ secondAdded, ?_, ?_⟩
    · rw [← stretch_append forward onward]
      exact firstSublist.append secondSublist
    · rw [secondValue, firstValue, extended_append]

theorem captured_eq (gains : Gains text entry after) (same : after.position = entry.position) :
    after.captured = entry.captured := by
  apply Table.ext_get?
  intro name
  obtain ⟨added, sublist, value⟩ := gains.part name
  rw [same, stretch_self, List.sublist_nil] at sublist
  rw [value, sublist, extended_nil]

end Gains

theorem Consumes.gains {text : Array Char} {entry after : State}
    (consumes : Consumes text entry after) (distinct : entry.collecting.Nodup) :
    Gains text entry after := by
  induction consumes with
  | nothing state => exact Gains.refl text state
  | character state => exact Gains.advance state distinct
  | collected fresh _ inductionHypothesis =>
      exact Gains.ofCapture fresh (inductionHypothesis (State.nodup_beginCapture distinct _))
  | andThen first second firstHypothesis secondHypothesis =>
      have sameCollecting := first.collecting_eq
      exact Gains.trans first.position_le second.position_le sameCollecting
        (firstHypothesis distinct) (secondHypothesis (sameCollecting ▸ distinct))

end PlainPattern
