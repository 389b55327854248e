/-
  TransitRouting.Main
  ───────────────────
  The command line.
-/
import TransitRouting.CommandLine

open TransitRouting

/-- What is told about a command line that cannot be understood. -/
def usage : String :=
  "usage: --snapshot FILE --from STOP --to STOP (--depart HH:MM | --arrive-by HH:MM)\n" ++
  "       [--window MINUTES] [--date YYYY-MM-DD] [--max-transfers COUNT] [--config FILE]\n" ++
  "       [--json]\n"

/-- The content of a file, if it can be read. -/
def readFile (path : String) : IO (Option ByteArray) := do
  try
    return some (← IO.FS.readBinFile path)
  catch _ => return none

/-- Runs the command line.  The exit code is 2 if the arguments are wrong, and 1
if anything else is. -/
def main (args : List String) : IO UInt32 := do
  match Arguments.parse? args with
  | none =>
    (← IO.getStderr).putStr usage
    return 2
  | some a =>
    let paths := a.feed :: a.settings.toList
    let contents ← paths.mapM readFile
    match a.run fun path => ((paths.zip contents).lookup path).join with
    | .ok text =>
      (← IO.getStdout).putStr text
      return 0
    | .error e =>
      (← IO.getStderr).putStr (e.message ++ "\n")
      return 1
