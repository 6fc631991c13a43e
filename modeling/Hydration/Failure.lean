import Hydration.Module.Basic
import Hydration.Options.Basic
import Hydration.Requirement.Evaluation
import Hydration.Requirement.Parse

/-!
# Failures

What can go wrong on a page, from whichever part it comes.  The text of a failure
names the part and goes on with the text of the cause.
-/

namespace Hydration

/-- An error of any part of a page. -/
inductive Failure where
  | parse (cause : ParseError)
  | requirement (cause : RequirementError)
  | module (cause : ModuleError)
  | config (cause : ConfigError)
  /-- A file cannot be read as text. -/
  | unreadable
  /-- A text is not YAML of the expected form. -/
  | yaml
deriving Repr, Inhabited

namespace Failure

/-- The text shown for a configuration error with the given text. -/
def configMessage (text : String) : String :=
  s!"Configuration error: {text}"

/-- The text shown for a failure. -/
def message : Failure → String
  | parse cause => s!"Invalid requirement: {cause.message}"
  | requirement cause => s!"Requirement error: {cause.message}"
  | module cause => s!"Module error: {cause.message}"
  | config cause => configMessage cause.message
  | unreadable => "the file cannot be read"
  | yaml => "the file is not of the expected form"

end Failure

end Hydration
