import PlainPattern.CommandLine.Invocation
import PlainPattern.Matching.Search
import PlainPattern.Source.Compile

/-!
Contract: what the command line answers.

Owns: the form of a printed match, the order in which things can go wrong, and the exit codes. Zero
means that there was a match, or that a replacement was made; one that there was none, or that
something failed; two that the arguments could not be understood. Where references lead on without
end the run does not come back, and has no code of its own. What was found before a failure, or
before such an attempt, stays printed.
-/

set_option autoImplicit false

namespace PlainPattern.CommandLine

/-- How a run ends, if it does. -/
inductive Ending where
  | exit (code : Nat)
  /-- It follows references until its stack is used up. -/
  | endless
deriving DecidableEq, Repr

structure Report where
  ending : Ending
  output : String := ""
  problem : Option String := none
deriving DecidableEq, Repr

namespace Report

/-- What a shell sees: a run without end is aborted. -/
def code (report : Report) : Nat :=
  match report.ending with
  | .exit code => code
  | .endless => 134

def failure (problem : String) (output : String := "") : Report :=
  ⟨.exit 1, output, some problem⟩

/-- What becomes of an error behind this output. An endless reference is none: the call that would
report it does not come back. -/
def ofError (error : MatchError) (output : String := "") : Report :=
  match error with
  | .endlessReference _ => ⟨.endless, output, none⟩
  | .lookup _ | .missingEntryPoint | .missingVariable _ => .failure error.message output

def usage : Report :=
  ⟨.exit 2, "", some ("usage: SCHEMA_FILE [TEXT] [-e PATTERN] [-g] [--single] " ++
    "[-D NAME=VALUE]... [-r TEMPLATE] [-t] [--log-level LEVEL]")⟩

end Report

/-- The names of the log levels, which may also be given by number. -/
def logLevels : List String :=
  ["off", "error", "warn", "info", "debug", "trace", "0", "1", "2", "3", "4", "5"]

def validDirective (directive : List Char) : Bool :=
  match directive.dropWhile fun character => character != '=' with
  | [] => true
  | _ :: level =>
      logLevels.any fun name => decide (name.toList = level.map Char.toLower)

/-- A log filter is a list of directives; what stands behind an equals sign is a level. -/
def validLogFilter (filter : List Char) : Bool :=
  (filter.splitOn ',').all validDirective

/-- A text that was read, without the end of its last line. -/
def withoutLineEnd (input : List Char) : List Char :=
  match input.reverse with
  | '\n' :: '\r' :: rest => rest.reverse
  | '\n' :: rest => rest.reverse
  | _ => input

/-- The matched text, its start, and the captures in the order of their names. -/
def printedMatch (text : Array Char) (span : Span) : String :=
  let captures := span.captured.entries.map fun entry => entry.1 ++ ": " ++ entry.2 ++ "\n"
  span.text text ++ "\nstart: " ++ toString span.start ++ "\n" ++ String.join captures

/-- Matches with a blank line between any two of them. -/
def printedMatches (text : Array Char) (spans : List Span) : String :=
  String.intercalate "\n" (spans.map (printedMatch text))

namespace Invocation

def options (invocation : Invocation) (global : Option Bool) : Options :=
  ⟨invocation.entry, global, Bindings.ofPairs invocation.assignments⟩

def replacement (invocation : Invocation) (schema : Schema) (text : Array Char)
    (template : String) : Report :=
  match schema.replace text template (invocation.options (some (!invocation.single))) with
  | .ok result => ⟨.exit 0, result ++ "\n", none⟩
  | .error error => .ofError error

def verdict (invocation : Invocation) (schema : Schema) (text : Array Char) : Report :=
  match schema.isMatch text (invocation.options none) with
  | .ok true => ⟨.exit 0, "true\n", none⟩
  | .ok false => ⟨.exit 1, "false\n", none⟩
  | .error error => .ofError error

def listing (invocation : Invocation) (schema : Schema) (text : Array Char) : Report :=
  let options := invocation.options (some invocation.global)
  if invocation.global then
    let sweep := ({} : Tracker).sweep schema text options
    let output := printedMatches text sweep.spans
    match sweep.failure with
    | some error => .ofError error output
    | none => ⟨.exit (if sweep.spans.isEmpty then 1 else 0), output, none⟩
  else
    match schema.find text options with
    | .ok (some span) => ⟨.exit 0, printedMatch text span, none⟩
    | .ok none => ⟨.exit 1, "", none⟩
    | .error error => .ofError error

/-- What is done with a text, once the schema is compiled. -/
def answer (invocation : Invocation) (schema : Schema) (text : Array Char) : Report :=
  match invocation.template with
  | some template => invocation.replacement schema text template
  | none =>
      if invocation.single then .failure "--single only applies to --replace"
      else if invocation.test then invocation.verdict schema text
      else invocation.listing schema text

def searchedText (invocation : Invocation) (input : String) : Array Char :=
  match invocation.text with
  | some text => text.toList.toArray
  | none => (withoutLineEnd input.toList).toArray

/-- The report, given the text of the schema file if it could be read. A bad log filter is found
first, then a missing file, then a schema that does not compile. -/
def report (invocation : Invocation) (source : Option String) (input : String) : Report :=
  if !(invocation.logFilter.all fun filter => validLogFilter filter.toList) then
    .failure "Bad log level"
  else
    match source with
    | none => .failure "Failed to read the schema file"
    | some source =>
        match compile source with
        | .error error => .failure error.message
        | .ok schema => invocation.answer schema (invocation.searchedText input)

end Invocation

def report (arguments : List String) (source : Option String) (input : String) : Report :=
  match Invocation.ofArguments? arguments with
  | none => .usage
  | some invocation => invocation.report source input

end PlainPattern.CommandLine
