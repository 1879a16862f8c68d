import PlainPattern.Schema.Basic

/-!
Contract: how far a match has come.

Owns: the cursor, the captures and the names that are collecting; the step over one character, which
appends it to every collecting capture; and checkpoints, which hold cursor and captures but not the
collecting names. `advance_of_inside` and `advance_of_atEnd` are the two equations of the step.
-/

set_option autoImplicit false

namespace PlainPattern

abbrev Bindings := Table String

/-- Appends a character to the text under a name, which is empty if there is none yet. -/
def Bindings.append (bindings : Bindings) (name : String) (character : Char) : Bindings :=
  bindings.insert name (((bindings.get? name).getD "").push character)

/-- Later pairs go over earlier ones of the same name. -/
def Bindings.ofPairs (pairs : List (String × String)) : Bindings :=
  pairs.foldl (fun bindings pair => bindings.insert pair.1 pair.2) ∅

/-- What a match reads and never changes. -/
structure Scene where
  schema : Schema
  text : Array Char
  /-- The caller's values for names that the match has not captured. -/
  supplied : Bindings

structure State where
  /-- How many characters of the text stand before the cursor. -/
  position : Nat := 0
  captured : Bindings := ∅
  /-- The captures that collect what is consumed, the latest first. -/
  collecting : List String := []
deriving DecidableEq

structure Checkpoint where
  position : Nat
  captured : Bindings

namespace State

def startingAt (offset : Nat) : State :=
  { position := offset }

/-- Prepares a state for another attempt at an offset: the cursor goes there, and what an earlier
attempt captured or was collecting is given up. -/
def reset (state : State) (offset : Nat) : State :=
  { state with position := offset, captured := ∅, collecting := [] }

def current? (state : State) (text : Array Char) : Option Char :=
  text[state.position]?

def atEnd (state : State) (text : Array Char) : Bool :=
  decide (text.size ≤ state.position)

def remaining (state : State) (text : Array Char) : Nat :=
  text.size - state.position

/-- Steps over one character, if there is one. -/
def advance (state : State) (text : Array Char) : State :=
  match state.current? text with
  | none => state
  | some character =>
      { state with
        position := state.position + 1
        captured := state.collecting.foldl
          (fun captured name => captured.append name character) state.captured }

def checkpoint (state : State) : Checkpoint :=
  ⟨state.position, state.captured⟩

/-- Goes back to a checkpoint. Names that collect now go on collecting. -/
def restore (state : State) (checkpoint : Checkpoint) : State :=
  { state with position := checkpoint.position, captured := checkpoint.captured }

/-- A name collects once: nothing happens if it is collecting already. -/
def beginCapture (state : State) (name : String) : State :=
  if name ∈ state.collecting then state
  else { state with collecting := name :: state.collecting }

/-- The name that began to collect last stops. -/
def endCapture (state : State) : State :=
  { state with collecting := state.collecting.tail }

/-- The value of a name: what this match captured goes before what the caller supplied. -/
def value? (state : State) (supplied : Bindings) (name : String) : Option String :=
  match state.captured.get? name with
  | some value => some value
  | none => supplied.get? name

theorem advance_of_inside {state : State} {text : Array Char} {character : Char}
    (inside : state.current? text = some character) :
    state.advance text =
      { state with
        position := state.position + 1
        captured := state.collecting.foldl
          (fun captured name => captured.append name character) state.captured } := by
  simp [advance, inside]

theorem advance_of_atEnd {state : State} {text : Array Char}
    (ended : state.current? text = none) : state.advance text = state := by
  simp [advance, ended]

theorem current?_eq_none_iff {state : State} {text : Array Char} :
    state.current? text = none ↔ state.atEnd text = true := by
  simp [current?, atEnd]

@[simp] theorem advance_collecting (state : State) (text : Array Char) :
    (state.advance text).collecting = state.collecting := by
  unfold advance
  split <;> rfl

@[simp] theorem reset_eq_startingAt (state : State) (offset : Nat) :
    state.reset offset = startingAt offset := rfl

@[simp] theorem restore_collecting (state : State) (checkpoint : Checkpoint) :
    (state.restore checkpoint).collecting = state.collecting := rfl

@[simp] theorem restore_checkpoint (state : State) : state.restore state.checkpoint = state := rfl

@[simp] theorem checkpoint_restore (state : State) (checkpoint : Checkpoint) :
    (state.restore checkpoint).checkpoint = checkpoint := rfl

end State

end PlainPattern
