import Hydration.Data.Basic
import Hydration.Options.Basic

/-!
# Options from fields

Options are given as fields, each of which has two names: one in lower case with
underscores, and the one used by page scripts.  A field may be given once, under
either name; other fields are ignored.

The same rules hold for every format that options are read from, so they are stated
over a type `β` of field values with a `FieldReader` for what such a value can be
read as.  `Data.fieldReader` reads values that are given as data; there options may
also be a list, with the fields in their order and the last ones left out.
-/

namespace Hydration

/-- The fields of options. -/
inductive OptionField where
  | defaultStrategy
  | keepRelativeUrls
  | baseUrl
  | attributePrefix
deriving DecidableEq, Repr, Inhabited

namespace OptionField

/-- The fields in their order. -/
def all : List OptionField :=
  [defaultStrategy, keepRelativeUrls, baseUrl, attributePrefix]

/-- The names of a field. -/
def names : OptionField → List String
  | defaultStrategy => ["default_strategy", "defaultStrategy"]
  | keepRelativeUrls => ["keep_relative_urls", "keepRelativeURLs"]
  | baseUrl => ["base_url", "baseURL"]
  | attributePrefix => ["prefix"]

end OptionField

/-- What the value of a field can be read as. -/
structure FieldReader (β : Type) where
  text? : β → Option String
  flag? : β → Option Bool
  /-- Whether the value says that there is none; a value may also be wrong about it. -/
  absent? : β → Option Bool

namespace FieldReader

variable {β : Type} (r : FieldReader β)

/-- What `read` makes of a value that may say that there is none. -/
def optional? {γ : Type} (read : β → Option γ) (value : β) : Option (Option γ) := do
  if ← r.absent? value then return none
  return some (← read value)

/-- A text that may be missing. -/
def optionalText? (value : β) : Option (Option String) :=
  r.optional? r.text? value

/-- A truth value that may be missing. -/
def optionalFlag? (value : β) : Option (Option Bool) :=
  r.optional? r.flag? value

end FieldReader

/-- The value given under one of some names; none if there is more than one. -/
def givenField? {β : Type} (fields : List (String × β)) (names : List String) :
    Option (Option β) :=
  match fields.filter (names.contains ·.1) with
  | [] => some none
  | [(_, value)] => some (some value)
  | _ => none

/-- The value read from a field, or the default when the field is not given; none
if the value cannot be read or is given twice. -/
def readField? {β γ : Type} (fields : List (String × β)) (names : List String) (default : γ)
    (read : β → Option γ) : Option γ :=
  match givenField? fields names with
  | none => none
  | some none => some default
  | some (some value) => read value

namespace Options

variable {β : Type}

/-- Options read from fields. -/
def ofFields? (r : FieldReader β) (fields : List (String × β)) : Option Options := do
  let base : Options := {}
  let defaultStrategy ←
    readField? fields OptionField.defaultStrategy.names base.defaultStrategy r.text?
  let keepRelativeUrls ←
    readField? fields OptionField.keepRelativeUrls.names base.keepRelativeUrls r.flag?
  let baseUrl ← readField? fields OptionField.baseUrl.names base.baseUrl r.optionalText?
  let attributePrefix ←
    readField? fields OptionField.attributePrefix.names base.attributePrefix r.text?
  return { defaultStrategy, keepRelativeUrls, baseUrl, attributePrefix }

end Options

namespace OptionsUpdate

variable {β : Type}

/-- An update read from fields. -/
def ofFields? (r : FieldReader β) (fields : List (String × β)) : Option OptionsUpdate := do
  let defaultStrategy ← readField? fields OptionField.defaultStrategy.names none r.optionalText?
  let keepRelativeUrls ←
    readField? fields OptionField.keepRelativeUrls.names none r.optionalFlag?
  let baseUrl ← readField? fields OptionField.baseUrl.names none r.optionalText?
  let attributePrefix ← readField? fields OptionField.attributePrefix.names none r.optionalText?
  return { defaultStrategy, keepRelativeUrls, baseUrl, attributePrefix }

end OptionsUpdate

namespace Data

/-- The text of a value. -/
def text? : Data → Option String
  | string s => some s
  | _ => none

/-- The truth value of a value. -/
def flag? : Data → Option Bool
  | bool b => some b
  | _ => none

/-- Whether the value is null. -/
def isNull : Data → Bool
  | null => true
  | _ => false

/-- Values that are given as data. -/
def fieldReader : FieldReader Data where
  text? := text?
  flag? := flag?
  absent? value := some value.isNull

/-- The fields of options that are given as a record or as a list. -/
def optionFields? : Data → Option (List (String × Data))
  | record fields => some fields
  | list items =>
    if items.length ≤ OptionField.all.length then
      some ((OptionField.all.map fun f => f.names.headD "").zip items)
    else none
  | _ => none

/-- Options given as data. -/
def options? (d : Data) : Option Options :=
  d.optionFields?.bind (Options.ofFields? fieldReader)

/-- An update of options given as data. -/
def optionsUpdate? (d : Data) : Option OptionsUpdate :=
  d.optionFields?.bind (OptionsUpdate.ofFields? fieldReader)

end Data

end Hydration
