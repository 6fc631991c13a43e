import Hydration.Url.Basic

/-!
# Module references

The URL of a module is resolved against the base of its page.  A reference that
begins with two slashes, or with a scheme of letters and plus signs and two
slashes, says by itself where the module is: it is kept as it was written, and so
is every reference when there is no base.

Letters are compared without regard to case, by the folding of Unicode; under it
the long s and the Kelvin sign are letters of the alphabet too.

How any other reference is **joined** to the base is not a matter of the page.  It is
left open here (`Joiner`), so what holds of pages holds however URLs are read.
-/

namespace Hydration.Url

/-- Joins a reference to a base: reads the base as an absolute URL and the reference
relative to it, and answers with the text of the URL they come to, or with the reason
why one of them cannot be read. -/
abbrev Joiner := String → String → Except UrlError String

/-- A letter, by the folding of Unicode, or a plus sign. -/
def isSchemeLetter (c : Char) : Bool :=
  c.isAlpha || c == '+' || c.toNat == 0x17F || c.toNat == 0x212A

/-- Whether a reference begins with two slashes, possibly after a scheme. -/
def isSelfContained (cs : List Char) : Bool :=
  match cs with
  | '/' :: '/' :: _ => true
  | cs =>
    !(cs.takeWhile isSchemeLetter).isEmpty &&
      match cs.dropWhile isSchemeLetter with
      | ':' :: '/' :: '/' :: _ => true
      | _ => false

/-- The reference resolved against the base. -/
def resolve (join : Joiner) (reference : String) (base : Option String) :
    Except UrlError String :=
  if isSelfContained reference.toList then .ok reference
  else
    match base with
    | none => .ok reference
    | some base => join base reference

end Hydration.Url
