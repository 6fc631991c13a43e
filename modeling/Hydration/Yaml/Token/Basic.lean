/-!
# YAML tokens

A YAML text is a row of tokens.  Most are marks of the syntax; an anchor, a reference to one, a
tag and a scalar carry text.  Indentation is turned into tokens as well: a block
collection begins with a token of its own and ends with `blockEnd`.
-/

namespace Hydration.Yaml

/-- How a scalar is written. -/
inductive ScalarStyle where
  | plain
  | singleQuoted
  | doubleQuoted
  | literal
  | folded
deriving DecidableEq, Repr, Inhabited

/-- A token of a YAML text. -/
inductive Token where
  | versionDirective (major : Nat) (minor : Nat)
  | tagDirective (handle : String) (stem : String)
  | documentStart
  | documentEnd
  | blockSequenceStart
  | blockMappingStart
  | blockEnd
  | flowSequenceStart
  | flowSequenceEnd
  | flowMappingStart
  | flowMappingEnd
  | blockEntry
  | flowEntry
  | key
  | value
  | anchor (name : String)
  | reference (name : String)
  | tag (handle : String) (suffix : String)
  | scalar (text : String) (style : ScalarStyle)
deriving DecidableEq, Repr, Inhabited

end Hydration.Yaml
