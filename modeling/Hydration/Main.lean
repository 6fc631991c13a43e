import Hydration.CommandLine.Answer
import Hydration.Url.Parse

/-!
# The program

Reads the files that the arguments ask for, prints the answer, and ends with its code.  URLs are
joined by `Url.joinTexts`.
-/

namespace Hydration.CommandLine

/-- The text of a file, if it can be read and is UTF-8. -/
def readText (path : String) : IO (Option String) := do
  try
    return String.fromUTF8? (← IO.FS.readBinFile path)
  catch _ => return none

/-- The texts of the files that some arguments ask for. -/
def readFiles (args : List String) : IO (List (String × String)) := do
  let paths := match Request.ofArguments? args with
    | some request => request.paths
    | none => []
  paths.filterMapM fun path => do return (← readText path).map fun text => (path, text)

/-- Answers the arguments and gives the exit code. -/
def runProgram (args : List String) : IO UInt32 := do
  let files ← readFiles args
  let result := answer Url.joinTexts (fun path => files.lookup path) args
  IO.print result.output
  unless result.complaint.isEmpty do IO.eprintln result.complaint
  return UInt32.ofNat result.code

end Hydration.CommandLine

/-- Runs the program. -/
def main (args : List String) : IO UInt32 :=
  Hydration.CommandLine.runProgram args
