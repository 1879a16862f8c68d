import PlainPattern.Matching.Scene
import PlainPattern.Matching.Template

/-!
Contract: searching a text for matches, and replacing them.

Owns: options, matches, and the tracker, which remembers where a global search goes on. An attempt
is made at every offset in turn, and the first that matches is the answer. One state serves all
attempts of a search; it is reset before each. Behind an empty match the search goes on one
character further, so that it is not found again; when nothing is found, the next search begins at
the start of the text.
-/

set_option autoImplicit false

namespace PlainPattern

structure Options where
  /-- The pattern to match; none or an empty name stands for the first pattern without a name. -/
  entry : Option String := none
  /-- Go on where the last search ended. -/
  global : Option Bool := none
  /-- Values for names that a match has not captured. -/
  supplied : Bindings := ∅

def defaultEntry : String := "0"

/-- The pattern that a search tries; the default one is not missed by its name. -/
def Schema.entryPattern (schema : Schema) (entry : Option String) : Except MatchError Pattern :=
  match entry.filter fun name => !name.isEmpty with
  | some name =>
      match schema.pattern name with
      | .ok pattern => .ok pattern
      | .error error => .error (.lookup error)
  | none =>
      match schema.pattern defaultEntry with
      | .ok pattern => .ok pattern
      | .error _ => .error .missingEntryPoint

/-- A match: where it begins, where it ends, and what it captured. -/
structure Span where
  start : Nat
  stop : Nat
  captured : Bindings
deriving DecidableEq

def Span.text (span : Span) (text : Array Char) : String :=
  String.ofList ((text.toList.take span.stop).drop span.start)

/-- The first of these offsets at which the evaluator matches. What an attempt leaves behind is the
state that the next one resets. -/
def firstMatch (evaluator : Evaluator) : State → List Nat → Except MatchError (Option Span)
  | _, [] => .ok none
  | state, offset :: later =>
      match evaluator (state.reset offset) with
      | .answer true after => .ok (some ⟨offset, after.position, after.captured⟩)
      | .answer false after => firstMatch evaluator after later
      | .undecided error _ => .error error

/-- The offsets from `first` on that have a character behind them. -/
def offsetsFrom (first : Nat) (text : Array Char) : List Nat :=
  List.range' first (text.size - first)

structure Tracker where
  lastIndex : Nat := 0
deriving DecidableEq, Repr

namespace Tracker

/-- Searches once, and says where the next search goes on. A search that is not global begins at the
start of the text; an error leaves the tracker where the search began. -/
def search (tracker : Tracker) (schema : Schema) (text : Array Char) (options : Options)
    (global : Bool) : Except MatchError (Option Span) × Tracker :=
  match schema.entryPattern options.entry with
  | .error error => (.error error, tracker)
  | .ok pattern =>
      let scene : Scene := ⟨schema, text, options.supplied⟩
      let first := if global then tracker.lastIndex else 0
      match firstMatch (scene.pattern pattern) {} (offsetsFrom first text) with
      | .error error => (.error error, ⟨first⟩)
      | .ok none => (.ok none, ⟨0⟩)
      | .ok (some span) =>
          let next := if global && span.start == span.stop then span.stop + 1 else span.stop
          (.ok (some span), ⟨next⟩)

/-- Finds the next match; global only if the options say so. -/
def find (tracker : Tracker) (schema : Schema) (text : Array Char) (options : Options) :
    Except MatchError (Option Span) × Tracker :=
  tracker.search schema text options (options.global.getD false)

def test (tracker : Tracker) (schema : Schema) (text : Array Char) (options : Options) :
    Except MatchError Bool × Tracker :=
  match tracker.find schema text options with
  | (.ok span, next) => (.ok span.isSome, next)
  | (.error error, next) => (.error error, next)

/-- The matches of a row of global searches, and how the row ended. -/
structure Sweep where
  spans : List Span
  failure : Option MatchError
  tracker : Tracker

/-- Searches globally until nothing is found, at most `limit` times. -/
def sweepTo (schema : Schema) (text : Array Char) (options : Options) : Nat → Tracker → Sweep
  | 0, tracker => ⟨[], none, tracker⟩
  | limit + 1, tracker =>
      match tracker.search schema text options true with
      | (.error error, next) => ⟨[], some error, next⟩
      | (.ok none, next) => ⟨[], none, next⟩
      | (.ok (some span), next) =>
          let later := sweepTo schema text options limit next
          { later with spans := span :: later.spans }

/-- Searches globally until nothing is found. Each match moves the tracker on, so there are no more
matches than characters, and one more search finds none. -/
def sweep (tracker : Tracker) (schema : Schema) (text : Array Char) (options : Options) : Sweep :=
  sweepTo schema text options (text.size - tracker.lastIndex + 1) tracker

/-- The matches that a replacement takes: all of them, or only the first. -/
def spansToReplace (tracker : Tracker) (schema : Schema) (text : Array Char)
    (options : Options) : Except MatchError (List Span) × Tracker :=
  if options.global.getD true then
    let sweep := tracker.sweep schema text options
    match sweep.failure with
    | some error => (.error error, sweep.tracker)
    | none => (.ok sweep.spans, sweep.tracker)
  else
    match tracker.search schema text options false with
    | (.ok span, next) => (.ok span.toList, next)
    | (.error error, next) => (.error error, next)

end Tracker

def splice (text : List Char) (span : Span) (replacement : List Char) : List Char :=
  text.take span.start ++ replacement ++ text.drop span.stop

/-- Replaces every span by the template with its captures, the last span first, so that the places
of the others stay what they are. -/
def spliceAll (text template : List Char) (spans : List Span) : List Char :=
  spans.foldr (fun span spliced => splice spliced span (Template.expand span.captured template))
    text

namespace Tracker

/-- Replaces matches by a template; global unless the options say otherwise. -/
def replace (tracker : Tracker) (schema : Schema) (text : Array Char) (template : String)
    (options : Options) : Except MatchError String × Tracker :=
  match tracker.spansToReplace schema text options with
  | (.ok spans, next) =>
      (.ok (String.ofList (spliceAll text.toList template.toList spans)), next)
  | (.error error, next) => (.error error, next)

end Tracker

/-! ## Without a tracker -/

namespace Schema

def isMatch (schema : Schema) (text : Array Char) (options : Options) : Except MatchError Bool :=
  (({} : Tracker).test schema text options).1

def find (schema : Schema) (text : Array Char) (options : Options) :
    Except MatchError (Option Span) :=
  (({} : Tracker).find schema text options).1

def replace (schema : Schema) (text : Array Char) (template : String) (options : Options) :
    Except MatchError String :=
  (({} : Tracker).replace schema text template options).1

end Schema

end PlainPattern
