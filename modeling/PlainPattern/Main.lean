import PlainPattern.CommandLine.Report

/-!
Contract: the program.

Owns: reading the schema file and the standard input, printing a report and leaving with its code.
What is printed is decided elsewhere.
-/

set_option autoImplicit false

open PlainPattern.CommandLine

/-- The text of a file, if it can be read. -/
def readSource? (path : String) : IO (Option String) := do
  try
    return some (← IO.FS.readFile path)
  catch _ =>
    return none

def main (arguments : List String) : IO UInt32 := do
  match Invocation.ofArguments? arguments with
  | none => finish .usage
  | some invocation =>
      let source ← readSource? (invocation.schemaFile.getD "")
      let input ← if invocation.text.isNone then (← IO.getStdin).readToEnd else pure ""
      finish (invocation.report source input)
where
  /-- Prints a report and answers with its code. -/
  finish (report : Report) : IO UInt32 := do
    IO.print report.output
    if let some problem := report.problem then IO.eprintln problem
    return report.code.toUInt32
