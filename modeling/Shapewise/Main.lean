import Shapewise.CommandLine.Run

/-!
# The program

Reads the schema file and prints what the run gives back. A command line that cannot be read ends
with status 2, a run that breaks off with status 1.
-/

namespace Shapewise

/-- How the program is called. -/
def usage : String :=
  "usage: typed-selections [--json] [--page PAGE] [--offset] [--keyset] [--get] " ++
    "[--max-depth MAX_DEPTH] [-v] schema entity selection"

/-- The text of a file, if it is there. -/
def readFile? (path : String) : IO (Option String) := do
  try
    return some (← IO.FS.readFile path)
  catch _ =>
    return none

end Shapewise

open Shapewise in
/-- Runs the command line. -/
def main (words : List String) : IO UInt32 := do
  match CommandLine.Options.ofWords? words with
  | none =>
    IO.eprintln usage
    return 2
  | some options =>
    match CommandLine.report options (← readFile? options.schema) with
    | .error missing =>
      IO.eprintln missing.message
      return 1
    | .ok report =>
      IO.print report.out
      IO.eprint report.err
      return report.status.toUInt32
