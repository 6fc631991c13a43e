import Hydration.CommandLine.Help
import Hydration.Data.Printer
import Hydration.Requirement.Display
import Hydration.Requirement.Listing
import Hydration.Requirement.Parse
import Hydration.Scenario.File
import Hydration.Scenario.Run
import Hydration.Yaml.Printer

/-!
# Answering a request

The output of the program and its exit code: 0 when all is well, 1 when a request fails, and 2
when the arguments are not in order.  Nothing is printed unless all is well.

The files that a request needs are given as a function from paths to texts, so that an
answer is a value; a file that cannot be read has no text.  How URLs are joined is given in the
same way.
-/

namespace Hydration.CommandLine

/-- What a run of the program gives. -/
structure Answer where
  code : Nat
  output : String
  /-- What is said about a failure. -/
  complaint : String
deriving DecidableEq, Repr, Inhabited

namespace Answer

/-- All is well. -/
def success (output : String) : Answer := ⟨0, output, ""⟩

/-- A request has failed. -/
def failure (f : Failure) : Answer := ⟨1, "", f.message⟩

/-- The arguments are not in order. -/
def misuse : Answer := ⟨2, "", "the arguments are not in order; try '--help'"⟩

/-- The answer that a result gives. -/
def ofResult : Except Failure String → Answer
  | .ok output => success output
  | .error f => failure f

end Answer

/-- Lines as output. -/
def linesOutput (lines : List String) : String :=
  String.join (lines.map (· ++ "\n"))

/-- The text of a file. -/
def fileText (files : String → Option String) (path : String) : Except Failure String :=
  match files path with
  | some text => .ok text
  | none => .error .unreadable

namespace Request

/-- Shows the tree of a requirement. -/
def showTree (expression : String) (json : Bool) : Except Failure String := do
  let tree ← (Requirement.parse expression).mapError Failure.parse
  return linesOutput [if json then tree.data.indented else tree.text]

/-- Runs a scenario. -/
def runScenario (join : Url.Joiner) (files : String → Option String) (path : String)
    (optionsPath : Option String) (json : Bool) : Except Failure String := do
  let scenario ← Scenario.ofFile (← fileText files path)
  let options ← match optionsPath with
    | some path => Options.ofFile (← fileText files path)
    | none => pure scenario.options
  let report ← { scenario with options }.run join
  return if json then linesOutput [report.data.indented] else Yaml.render report.fields

/-- The answer to a request. -/
def answer (join : Url.Joiner) (files : String → Option String) : Request → Answer
  | tokens expression => .success (linesOutput ((Token.scan expression).map (·.listing)))
  | parse expression json => .ofResult (showTree expression json)
  | run scenario options json => .ofResult (runScenario join files scenario options json)
  | help topic => .success (linesOutput topic.lines)
  | version => .success (linesOutput [versionLine])

/-- The paths of the files that a request needs. -/
def paths : Request → List String
  | run scenario options _ => scenario :: options.toList
  | _ => []

end Request

/-- What the program gives for some arguments. -/
def answer (join : Url.Joiner) (files : String → Option String) (args : List String) : Answer :=
  match Request.ofArguments? args with
  | some request => request.answer join files
  | none => .misuse

end Hydration.CommandLine
