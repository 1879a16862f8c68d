import PlainPattern.Matching.State

/-!
Contract: the ways in which attempts to match are put together.

Owns: outcomes, evaluators and their combinators: text, single characters, choice, exclusion,
absence, collection, blocks and repeats. An evaluator always says in which state it leaves the
match, also when it cannot answer. Each combinator places its own checkpoint, so an attempt that
does not match leaves the state it found.
-/

set_option autoImplicit false

namespace PlainPattern

inductive MatchError where
  | lookup (error : LookupError)
  | missingEntryPoint
  | missingVariable (name : String)
  /-- References lead to this symbol again and again without consuming anything. No call reports
  it: it stands for a call that does not come back. -/
  | endlessReference (name : String)
deriving DecidableEq, Repr

def MatchError.message : MatchError → String
  | .lookup error => error.message
  | .missingEntryPoint => "Must provide an entry point"
  | .missingVariable name => "No variable '" ++ name ++ "' provided"
  | .endlessReference name => "Symbol '" ++ name ++ "' refers to itself without end"

/-- What an attempt comes to, and the state after it. -/
inductive Outcome where
  | answer (matched : Bool) (after : State)
  | undecided (error : MatchError) (after : State)
deriving DecidableEq

namespace Outcome

def after : Outcome → State
  | .answer _ after => after
  | .undecided _ after => after

def mapState (change : State → State) : Outcome → Outcome
  | .answer matched after => .answer matched (change after)
  | .undecided error after => .undecided error (change after)

end Outcome

abbrev Evaluator := State → Outcome

namespace Evaluator

/-- The state behind exactly this text, if it stands here. -/
def consume? (text : Array Char) : List Char → State → Option State
  | [], state => some state
  | expected :: rest, state =>
      if state.current? text = some expected then consume? text rest (state.advance text)
      else none

def exactly (text : Array Char) (expected : List Char) : Evaluator := fun entry =>
  match consume? text expected entry with
  | some after => .answer true after
  | none => .answer false entry

def oneCharacter (text : Array Char) (test : Char → Bool) : Evaluator := fun entry =>
  match entry.current? text with
  | some character =>
      if test character then .answer true (entry.advance text) else .answer false entry
  | none => .answer false entry

def firstOf : List Evaluator → Evaluator
  | [], state => .answer false state
  | evaluator :: others, state =>
      match evaluator state with
      | .answer true after => .answer true after
      | .answer false after => firstOf others after
      | .undecided error after => .undecided error after

/-- Tries all of these at the same place, and steps over one character if none matches. -/
def stepUnless (text : Array Char) : List Evaluator → Evaluator
  | [], entry => .answer true (entry.advance text)
  | evaluator :: others, entry =>
      match evaluator entry with
      | .answer true after => .answer false (after.restore entry.checkpoint)
      | .answer false after => stepUnless text others (after.restore entry.checkpoint)
      | .undecided error after => .undecided error after

/-- Matches without consuming anything exactly where the evaluator does not match. -/
def absent (evaluator : Evaluator) : Evaluator := fun entry =>
  match evaluator entry with
  | .answer matched after => .answer (!matched) (after.restore entry.checkpoint)
  | .undecided error after => .undecided error after

/-- Collects what the evaluator consumes. A name that is collecting already goes on to collect for
the node that began it. -/
def collectingAs (name : Option String) (evaluator : Evaluator) : Evaluator := fun entry =>
  match name with
  | none => evaluator entry
  | some name =>
      if name ∈ entry.collecting then evaluator entry
      else (evaluator (entry.beginCapture name)).mapState State.endCapture

structure Branch where
  forks : Bool
  optional : Bool
  evaluator : Evaluator

/-- Goes on with the children of a block that began at the checkpoint `entry`. `filled` says whether
the place of the child before is filled. If it is, its alternatives are passed over; if it is not,
only an alternative can fill it. -/
def children (entry : Checkpoint) : Bool → List Branch → Evaluator
  | true, [], state => .answer true state
  | false, [], state => .answer false (state.restore entry)
  | filled, child :: rest, state =>
      match filled, child.forks with
      | true, true => children entry true rest state
      | false, false => .answer false (state.restore entry)
      | _, _ =>
          match child.evaluator state with
          | .answer matched after => children entry (matched || child.optional) rest after
          | .undecided error after => .undecided error after

def block (branches : List Branch) : Evaluator := fun entry =>
  children entry.checkpoint true branches entry

structure Separator where
  optional : Bool
  evaluator : Evaluator

/-- What stands behind an item of a repeat. -/
inductive Gap where
  /-- Another item may follow. -/
  | onward (after : State)
  /-- The separator is missing, so no item follows. -/
  | ended (after : State)
  | undecided (error : MatchError) (after : State)

/-- Tries the separator, if there is one. A separator that does not match consumes nothing. -/
def gap (separator : Option Separator) (state : State) : Gap :=
  match separator with
  | none => .onward state
  | some separator =>
      match separator.evaluator state with
      | .answer true after => .onward after
      | .answer false after =>
          let back := after.restore state.checkpoint
          if separator.optional then .onward back else .ended back
      | .undecided error after => .undecided error after

/-- Ends a repeat that began at `entry`; one that falls short consumes nothing. -/
def conclude (bounds : Bounds) (entry : Checkpoint) (count : Nat) (state : State) : Outcome :=
  if bounds.satisfiedBy count then .answer true state else .answer false (state.restore entry)

/-- Goes on with a repeat after `count` items. A separator with no item behind it is given back:
`beforeGap` is where the last one began. A round that brings the cursor no nearer to the end of the
text would be followed by others just like it, and so counts for as many as are needed. -/
def repeatFrom (text : Array Char) (bounds : Bounds) (separator : Option Separator)
    (item : Evaluator) (entry : Checkpoint) (count : Nat) (beforeGap : Option Checkpoint)
    (state : State) : Outcome :=
  match item state with
  | .undecided error after => .undecided error after
  | .answer false after =>
      match beforeGap with
      | none => conclude bounds entry count after
      | some before => conclude bounds entry count (after.restore before)
  | .answer true matched =>
      if bounds.max = some (count + 1) then .answer true matched
      else
        match gap separator matched with
        | .undecided error after => .undecided error after
        | .ended after => conclude bounds entry (count + 1) after
        | .onward after =>
            if after.remaining text < state.remaining text then
              repeatFrom text bounds separator item entry (count + 1)
                (separator.map fun _ => matched.checkpoint) after
            else conclude bounds entry (max (count + 1) bounds.min) after
termination_by state.remaining text

/-- Matches the item as often as the bounds ask for, and as often as it can up to the maximum. -/
def repeated (text : Array Char) (bounds : Bounds) (separator : Option Separator)
    (item : Evaluator) : Evaluator := fun entry =>
  repeatFrom text bounds separator item entry.checkpoint 0 none entry

end Evaluator

end PlainPattern
