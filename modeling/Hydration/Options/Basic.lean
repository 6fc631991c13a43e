import Hydration.Text.Blank

/-!
# Page options

The options of a page say which requirement an element has when it declares none,
how the URLs of modules are resolved, and how attributes are named.

An `OptionsUpdate` gives new values for some of them.  `Options.merge` applies it
as a whole: an update whose default requirement is blank is refused and changes
nothing.
-/

namespace Hydration

/-- The options of a page. -/
structure Options where
  /-- The requirement of an element that declares none. -/
  defaultStrategy : String := "eager"
  /-- Whether module URLs are kept as they are written. -/
  keepRelativeUrls : Bool := false
  /-- What module URLs are resolved against. -/
  baseUrl : Option String := none
  /-- What the names of all attributes begin with. -/
  attributePrefix : String := "x-"
deriving DecidableEq, Repr, Inhabited

/-- New values for some of the options. -/
structure OptionsUpdate where
  defaultStrategy : Option String := none
  keepRelativeUrls : Option Bool := none
  baseUrl : Option String := none
  attributePrefix : Option String := none
deriving DecidableEq, Repr, Inhabited

/-- What can be wrong with the configuration of a page. -/
inductive ConfigError where
  | blankDefaultStrategy
  | noElements
  | unknownElement (key : String)
  | duplicateKey (key : String)
  | unknownParent (key : String) (parent : String)
deriving DecidableEq, Repr, Inhabited

/-- The text shown for a configuration error. -/
def ConfigError.message : ConfigError → String
  | blankDefaultStrategy => "default_strategy must not be empty"
  | noElements => "scenario has no elements"
  | unknownElement key => s!"unknown element '{key}'"
  | duplicateKey key => s!"duplicate element key '{key}'"
  | unknownParent key parent => s!"element '{key}' refers to unknown parent '{parent}'"

namespace Options

/-- The full name of an attribute. -/
def attributeName (o : Options) (name : String) : String :=
  o.attributePrefix ++ name

/-- Accepts a default requirement that is not blank. -/
def checkDefaultStrategy (text : String) : Except ConfigError Unit :=
  if Text.isBlankText text then .error .blankDefaultStrategy else .ok ()

/-- The options with the values that an update gives. -/
def overlay (o : Options) (u : OptionsUpdate) : Options where
  defaultStrategy := u.defaultStrategy.getD o.defaultStrategy
  keepRelativeUrls := u.keepRelativeUrls.getD o.keepRelativeUrls
  baseUrl := u.baseUrl.orElse fun _ => o.baseUrl
  attributePrefix := u.attributePrefix.getD o.attributePrefix

/-- Applies an update, unless its default requirement is blank. -/
def merge (o : Options) (u : OptionsUpdate) : Except ConfigError Options :=
  match u.defaultStrategy.map checkDefaultStrategy with
  | some (.error error) => .error error
  | _ => .ok (o.overlay u)

end Options

/-- The update that sets each option given by `second`, or else by `first`. -/
def OptionsUpdate.overlay (first second : OptionsUpdate) : OptionsUpdate where
  defaultStrategy := second.defaultStrategy.orElse fun _ => first.defaultStrategy
  keepRelativeUrls := second.keepRelativeUrls.orElse fun _ => first.keepRelativeUrls
  baseUrl := second.baseUrl.orElse fun _ => first.baseUrl
  attributePrefix := second.attributePrefix.orElse fun _ => first.attributePrefix

end Hydration
