import Hydration.Failure
import Hydration.Yaml.Decode

/-!
# Options files

A file of options is a YAML text with a mapping of fields; an empty text gives the defaults.  The
default requirement that comes out must not be blank.
-/

namespace Hydration.Options

/-- Options from a node. -/
def decode (n : Yaml.Node) : Yaml.Decode Options := do
  let fields ← Yaml.Decode.fields (OptionField.all.flatMap OptionField.names) n
  liftM (ofFields? Yaml.Decode.fieldReader fields)

/-- The options in the text of a file. -/
def ofFile (text : String) : Except Failure Options := do
  match Yaml.Decode.run? decode text with
  | none => throw .yaml
  | some options =>
    (checkDefaultStrategy options.defaultStrategy).mapError Failure.config
    return options

end Hydration.Options
