/-!
# Blank text

A character is **blank** when it has the Unicode property `White_Space`.  The
class is larger than the one `Char.isWhitespace` decides: it also holds the
vertical tab, the form feed, the no-break space and the spaces of other scripts.
The zero-width space `U+200B` and the byte order mark `U+FEFF` are not blank.

Everything that reads names or requirements trims by this class, so it is fixed
here once.  `trim` cuts the blanks off both ends of a text, and `isBlankText`
says that nothing else is in it.
-/

namespace Hydration.Text

/-- Whether `c` has the Unicode property `White_Space`. -/
def isBlank (c : Char) : Bool :=
  let n := c.toNat
  (9 ≤ n && n ≤ 13) || n == 0x20 || n == 0x85 || n == 0xA0 || n == 0x1680
    || (0x2000 ≤ n && n ≤ 0x200A) || n == 0x2028 || n == 0x2029 || n == 0x202F
    || n == 0x205F || n == 0x3000

/-- The characters of `cs` from its first to its last one that is not blank. -/
def trimChars (cs : List Char) : List Char :=
  ((cs.dropWhile isBlank).reverse.dropWhile isBlank).reverse

/-- The text `s` without the blanks at its two ends. -/
def trim (s : String) : String :=
  String.ofList (trimChars s.toList)

/-- Whether `s` holds nothing but blanks; the empty text counts. -/
def isBlankText (s : String) : Bool :=
  s.toList.all isBlank

end Hydration.Text
