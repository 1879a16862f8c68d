import PlainPattern.Matching.State

/-!
Contract: what the arguments of the command line ask for.

Owns: the switches, the grammar of arguments, and the rules about which switches go together. An
argument is a switch, the value of the switch before it, or one of the two operands, the schema file
and the text. A value may be attached to its switch, and then may begin with a dash; after two
dashes everything is an operand. Arguments are taken from left to right and the first that breaks a
rule refuses the whole line.
-/

set_option autoImplicit false

namespace PlainPattern.CommandLine

inductive Switch where
  | entry
  | global
  | single
  | assign
  | replace
  | test
  | logLevel
deriving DecidableEq, Repr

namespace Switch

def ofLong? (name : List Char) : Option Switch :=
  match String.ofList name with
  | "entry" => some .entry
  | "global" => some .global
  | "single" => some .single
  | "var" => some .assign
  | "replace" => some .replace
  | "test" => some .test
  | "log-level" => some .logLevel
  | _ => none

def ofShort? : Char → Option Switch
  | 'e' => some .entry
  | 'g' => some .global
  | 'D' => some .assign
  | 'r' => some .replace
  | 't' => some .test
  | _ => none

def takesValue : Switch → Bool
  | .entry | .assign | .replace | .logLevel => true
  | .global | .single | .test => false

end Switch

structure Invocation where
  schemaFile : Option String := none
  /-- The text to search; without one it is read from the standard input. -/
  text : Option String := none
  entry : Option String := none
  global : Bool := false
  /-- Only the first match is replaced. -/
  single : Bool := false
  assignments : List (String × String) := []
  template : Option String := none
  /-- Say only whether there is a match. -/
  test : Bool := false
  logFilter : Option String := none
deriving DecidableEq, Repr

namespace Invocation

/-- A value that may be given once. -/
def setOnce (old : Option String) (value : List Char) : Option (Option String) :=
  match old with
  | none => some (some (String.ofList value))
  | some _ => none

/-- A name, which is not empty, and everything behind the first equals sign. -/
def pair? (value : List Char) : Option (String × String) :=
  let name := value.takeWhile fun character => character != '='
  match value.dropWhile fun character => character != '=' with
  | [] => none
  | _ :: rest => if name.isEmpty then none else some (String.ofList name, String.ofList rest)

/-- Gives a switch its value. Only assignments may be given more than once. -/
def withValue (invocation : Invocation) (switch : Switch) (value : List Char) :
    Option Invocation :=
  match switch with
  | .entry => (setOnce invocation.entry value).map fun entry => { invocation with entry }
  | .replace =>
      (setOnce invocation.template value).map fun template => { invocation with template }
  | .logLevel =>
      (setOnce invocation.logFilter value).map fun logFilter => { invocation with logFilter }
  | .assign =>
      (pair? value).map fun pair =>
        { invocation with assignments := invocation.assignments ++ [pair] }
  | .global | .single | .test => none

/-- Turns a switch on that takes no value, once. -/
def withSwitch (invocation : Invocation) (switch : Switch) : Option Invocation :=
  match switch with
  | .global => if invocation.global then none else some { invocation with global := true }
  | .single => if invocation.single then none else some { invocation with single := true }
  | .test => if invocation.test then none else some { invocation with test := true }
  | .entry | .assign | .replace | .logLevel => none

/-- The operands are the schema file and the text, in this order. -/
def withOperand (invocation : Invocation) (operand : String) : Option Invocation :=
  match invocation.schemaFile, invocation.text with
  | none, _ => some { invocation with schemaFile := some operand }
  | some _, none => some { invocation with text := some operand }
  | some _, some _ => none

/-- What is done once cannot be done everywhere, and nothing is replaced where only the verdict
counts. -/
def compatible (invocation : Invocation) : Bool :=
  !(invocation.single && invocation.global) && !(invocation.template.isSome && invocation.test)

end Invocation

structure Progress where
  invocation : Invocation := {}
  /-- The switch whose value comes next. -/
  awaiting : Option Switch := none
  operandsOnly : Bool := false

namespace Progress

/-- Takes a switch by its long name, with the value behind an equals sign if there is one. -/
def takeLong (progress : Progress) (written : List Char) : Option Progress :=
  let name := written.takeWhile fun character => character != '='
  match Switch.ofLong? name, written.dropWhile fun character => character != '=' with
  | none, _ => none
  | some switch, _ :: value =>
      (progress.invocation.withValue switch value).map fun invocation =>
        { progress with invocation }
  | some switch, [] =>
      if switch.takesValue then some { progress with awaiting := some switch }
      else
        (progress.invocation.withSwitch switch).map fun invocation =>
          { progress with invocation }

/-- Takes a row of switches by their letters. The first that takes a value takes what is left of the
row, without an equals sign in front, or else the next argument. -/
def takeShort (progress : Progress) : List Char → Option Progress
  | [] => some progress
  | letter :: row =>
      match Switch.ofShort? letter with
      | none => none
      | some switch =>
          if switch.takesValue then
            match row with
            | [] => some { progress with awaiting := some switch }
            | '=' :: value =>
                (progress.invocation.withValue switch value).map fun invocation =>
                  { progress with invocation }
            | value =>
                (progress.invocation.withValue switch value).map fun invocation =>
                  { progress with invocation }
          else
            match progress.invocation.withSwitch switch with
            | some invocation => takeShort { progress with invocation } row
            | none => none

def takePlain (progress : Progress) (argument : String) : Option Progress :=
  match progress.awaiting with
  | some switch =>
      (progress.invocation.withValue switch argument.toList).map fun invocation =>
        { progress with invocation, awaiting := none }
  | none =>
      (progress.invocation.withOperand argument).map fun invocation =>
        { progress with invocation }

/-- Takes the next argument. A single dash is no switch, and a switch that awaits its value cannot
be followed by another one. -/
def take (progress : Progress) (argument : String) : Option Progress :=
  if progress.operandsOnly then
    (progress.invocation.withOperand argument).map fun invocation =>
      { progress with invocation }
  else
    match argument.toList with
    | ['-', '-'] => some { progress with operandsOnly := true }
    | '-' :: '-' :: written =>
        if progress.awaiting.isSome then none else progress.takeLong written
    | '-' :: letter :: row =>
        if progress.awaiting.isSome then none else progress.takeShort (letter :: row)
    | _ => progress.takePlain argument

/-- The whole line, if no value is missing, a schema file is named and the switches go together. -/
def complete? (progress : Progress) : Option Invocation :=
  if progress.awaiting.isSome || progress.invocation.schemaFile.isNone ||
      !progress.invocation.compatible then none
  else some progress.invocation

end Progress

/-- Reads the arguments; none if they break a rule. -/
def Invocation.ofArguments? (arguments : List String) : Option Invocation :=
  (arguments.foldlM Progress.take ({} : Progress)).bind Progress.complete?

end PlainPattern.CommandLine
