import Hydration.Url.Host

/-!
# Reading URLs

`Url.parse` reads an absolute URL and `Url.join` a reference relative to a base.
Control characters and spaces at both ends are cut off, and tabs and line ends are
dropped everywhere, before the text is read.

**Paths.**  Segments are taken from the left and encoded.  A segment `.` (also
`%2e`) is dropped and `..` takes the segment before it away; at the end of the
path both leave an empty segment, so the path ends in a slash.  A segment that is a
drive letter, such as `C:`, is never taken away.  In a `file` path a drive letter
may be given as `C|`, and slashes at the beginning count as one.

**References.**  A reference with a scheme is an absolute URL, except that a special
scheme equal to the base's may be followed by a relative reference.  Without a
scheme, two slashes begin an authority, one slash a path, and anything else
replaces the base's path from its last slash on, its query, or its fragment.
-/

namespace Hydration.Url

/-! ## Preparing the text -/

/-- Control characters of the first block, and the space. -/
def isControlOrSpace (c : Char) : Bool :=
  c.toNat ≤ 0x20

/-- The text that is read: trimmed, and without tabs and line ends. -/
def prepare (s : String) : List Char :=
  let cs := s.toList.dropWhile isControlOrSpace
  let cs := (cs.reverse.dropWhile isControlOrSpace).reverse
  cs.filter fun c => c != '\t' && c != '\n' && c != '\r'

/-- A slash, or what counts as one in a special URL. -/
def isSlash (kind : SchemeKind) (c : Char) : Bool :=
  c == '/' || (c == '\\' && kind != .ordinary)

/-- A slash of either direction. -/
def isEitherSlash (c : Char) : Bool :=
  c == '/' || c == '\\'

/-! ## Drive letters -/

/-- A letter and a colon or a bar. -/
def isDriveLetter : List Char → Bool
  | [a, b] => a.isAlpha && (b == ':' || b == '|')
  | _ => false

/-- A letter and a colon. -/
def isNormalDriveLetter : List Char → Bool
  | [a, b] => a.isAlpha && b == ':'
  | _ => false

/-- Whether the text begins with a drive letter that fills its segment. -/
def startsWithDriveLetter (cs : List Char) : Bool :=
  isDriveLetter (cs.take 2) &&
    match cs.drop 2 with
    | [] => true
    | c :: _ => c == '/' || c == '\\' || c == '?' || c == '#'

/-! ## Paths -/

/-- Whether a segment stands for the segment itself. -/
def isSingleDot (segment : String) : Bool :=
  segment == "." || segment.toLower == "%2e"

/-- Whether a segment stands for the one before it. -/
def isDoubleDot (segment : String) : Bool :=
  [ "..", ".%2e", "%2e.", "%2e%2e"].contains segment.toLower

/-- The segments without the last one, which stays if it is a drive letter. -/
def dropLastSegment (segments : List String) : List String :=
  match segments.reverse with
  | last :: before =>
    if isDriveLetter last.toList then segments else before.reverse
  | [] => []

/-- A drive letter of a `file` path with its colon. -/
def normalSegment (kind : SchemeKind) (segment : String) : String :=
  match kind, segment.toList with
  | .file, [a, b] => if isDriveLetter [a, b] then String.ofList [a, ':'] else segment
  | _, _ => segment

/-- A path with the slashes at its beginning counted as one. -/
def trimLeadingSlashes (segments : List String) : List String :=
  match segments.dropWhile (·.isEmpty) with
  | [] => if segments.isEmpty then [] else [""]
  | rest => rest

/-- Reads segments after a slash that follows `before`, up to a query or fragment.
`current` is what has been read of the segment. -/
def readSegments (kind : SchemeKind) (before : List String) (current : List Char) :
    List Char → List String × List Char
  | [] => (close before current false, [])
  | c :: rest =>
    if c = '?' ∨ c = '#' then (close before current false, c :: rest)
    else if isSlash kind c then readSegments kind (close before current true) [] rest
    else readSegments kind before (current ++ encodeChar .path c) rest
where
  /-- The segments with the one that has been read, `more` saying that a slash
  follows it. -/
  close (before : List String) (current : List Char) (more : Bool) : List String :=
    let segment := String.ofList current
    if isDoubleDot segment then
      let kept := dropLastSegment before
      if more then kept else kept ++ [""]
    else if isSingleDot segment then
      if more then before else before ++ [""]
    else before ++ [normalSegment kind segment]

/-- The path read after a slash that follows `before`, and what is left. -/
def readPath (kind : SchemeKind) (before : List String) (cs : List Char) : Path × List Char :=
  let (segments, rest) := readSegments kind before [] cs
  (.segments (if kind = .file then trimLeadingSlashes segments else segments), rest)

/-- The path that follows an authority. -/
def readPathAfterAuthority (kind : SchemeKind) (cs : List Char) : Path × List Char :=
  match cs with
  | c :: rest =>
    if isSlash kind c then readPath kind [] rest
    else if kind = .ordinary ∧ (c = '?' ∨ c = '#') then (.segments [], cs)
    else readPath kind [] cs
  | [] => if kind = .ordinary then (.segments [], []) else readPath kind [] []

/-! ## Query and fragment -/

/-- Reads what follows the path. -/
def readQueryAndFragment (kind : SchemeKind) (cs : List Char) : Option String × Option String :=
  let set : EncodeSet := if kind = .ordinary then .query else .specialQuery
  match cs with
  | '?' :: rest =>
    let query := encode set (rest.takeWhile (· ≠ '#'))
    match rest.dropWhile (· ≠ '#') with
    | _ :: fragment => (some query, some (encode .fragment fragment))
    | [] => (some query, none)
  | '#' :: rest => (none, some (encode .fragment rest))
  | _ => (none, none)

/-- The URL with the given parts before its query. -/
def complete (scheme : String) (authority : Option String) (path : Path × List Char) : Url :=
  let (query, fragment) := readQueryAndFragment (.of scheme) path.2
  { scheme, authority, path := path.1, query, fragment }

/-! ## Authorities -/

/-- The end of an authority. -/
def endsAuthority (kind : SchemeKind) (c : Char) : Bool :=
  c == '/' || c == '?' || c == '#' || (c == '\\' && kind != .ordinary)

/-- The text after the last `@`, and the text before it if there is one. -/
def splitAtLast (cs : List Char) : Option (List Char) × List Char :=
  let after := (cs.reverse.takeWhile (· ≠ '@')).reverse
  if after.length = cs.length then (none, cs)
  else (some (cs.take (cs.length - after.length - 1)), after)

/-- The written form of credentials with the `@` after them. -/
def credentialsText (cs : List Char) : String :=
  let user := cs.takeWhile (· ≠ ':')
  let password := (cs.dropWhile (· ≠ ':')).drop 1
  if user.isEmpty && password.isEmpty then ""
  else
    encode .credentials user
      ++ (if password.isEmpty then "" else ":" ++ encode .credentials password) ++ "@"

/-- Splits a host from the port after it, at a colon outside brackets. -/
def splitHost (inside : Bool) : List Char → List Char × List Char
  | [] => ([], [])
  | c :: rest =>
    if c = ':' ∧ !inside then ([], c :: rest)
    else
      let inside := if c = '[' then true else if c = ']' then false else inside
      let (host, port) := splitHost inside rest
      (c :: host, port)

/-- Reads a port, which is none when it is empty or the default of the scheme. -/
def readPort (scheme : String) (digits : List Char) : Except UrlError (Option Nat) :=
  if !digits.all Char.isDigit then .error .invalidPort
  else
    match numberIn? 10 digits with
    | some n =>
      if n > 0xFFFF then .error .invalidPort
      else if digits.isEmpty ∨ defaultPort? scheme = some n then .ok none
      else .ok (some n)
    | none => .error .invalidPort

/-- Reads the authority after two slashes, and gives what follows it. -/
def readAuthority (scheme : String) (cs : List Char) : Except UrlError (String × List Char) := do
  let kind := SchemeKind.of scheme
  let extent := cs.takeWhile (!endsAuthority kind ·)
  let rest := cs.dropWhile (!endsAuthority kind ·)
  let (credentials, hostAndPort) := splitAtLast extent
  if credentials = some [] ∧ hostAndPort.isEmpty ∧ !rest.isEmpty then throw .emptyHost
  let (hostChars, portChars) := splitHost false hostAndPort
  if kind = .special ∧ hostChars.isEmpty then throw .emptyHost
  let host ← if kind = .ordinary then ordinaryHost hostChars else specialHost hostChars
  if host.isEmpty ∧ !portChars.isEmpty then throw .emptyHost
  let port ← readPort scheme (portChars.drop 1)
  let before := (credentials.map credentialsText).getD ""
  if host.isEmpty ∧ !before.isEmpty then throw .emptyHost
  return (before ++ host ++ (port.map fun n => s!":{n}").getD "", rest)

/-- Reads what follows `scheme:` and two slashes. -/
def parseAfterSlashes (scheme : String) (cs : List Char) : Except UrlError Url := do
  let (authority, rest) ← readAuthority scheme cs
  return complete scheme (some authority) (readPathAfterAuthority (.of scheme) rest)

/-! ## Files -/

/-- Reads a `file` URL after two slashes. -/
def parseFileAfterSlashes (cs : List Char) : Except UrlError Url := do
  let ends (c : Char) := c == '/' || c == '\\' || c == '?' || c == '#'
  let hostChars := cs.takeWhile (!ends ·)
  if hostChars.isEmpty ∨ isDriveLetter hostChars then
    let path := openPath (if hostChars.isEmpty then cs.dropWhile (!ends ·) else cs)
    return complete "file" (some "") path
  let host ← specialHost hostChars
  let path := openPath (cs.dropWhile (!ends ·))
  let host := if host = "localhost" ∨ startsWithDrive path.1 then "" else host
  return complete "file" (some host) path
where
  /-- The path, whose first slash may be missing. -/
  openPath (cs : List Char) : Path × List Char :=
    match cs with
    | c :: rest => if isEitherSlash c then readPath .file [] rest else readPath .file [] cs
    | [] => readPath .file [] []
  /-- Whether a path begins with a drive letter; then there is no host. -/
  startsWithDrive (path : Path) : Bool :=
    path.names.any fun name => isNormalDriveLetter name.toList

/-- Reads what follows `file:`, with the base if it is a `file` URL too. -/
def parseFile (base : Option Url) (cs : List Char) : Except UrlError Url := do
  match cs with
  | a :: b :: rest =>
    if isEitherSlash a ∧ isEitherSlash b then return ← parseFileAfterSlashes rest
  | _ => pure ()
  match base, cs with
  | _, c :: rest =>
    if isEitherSlash c then
      let drive := ((base.bind fun b => b.path.names.head?).getD "")
      let keepsDrive := !startsWithDriveLetter rest && isNormalDriveLetter drive.toList
      let host :=
        if startsWithDriveLetter rest || keepsDrive then "" else (base.bind (·.authority)).getD ""
      return complete "file" (some host)
        (readPath .file (if keepsDrive then [drive] else []) rest)
  | _, [] => pure ()
  match base with
  | none => return complete "file" (some "") (readPath .file [] cs)
  | some base =>
    match cs with
    | [] => return { base with fragment := none }
    | '?' :: _ =>
      return complete "file" base.authority (base.path, cs)
    | '#' :: rest => return { base with fragment := some (encode .fragment rest) }
    | _ =>
      if startsWithDriveLetter cs then return complete "file" (some "") (readPath .file [] cs)
      else
        let names := base.path.names
        let endsInDrive := names.getLast?.any fun name => isNormalDriveLetter name.toList
        let kept := if endsInDrive then names else names.dropLast
        return complete "file" base.authority (readPath .file kept cs)

/-! ## Whole URLs -/

/-- The scheme at the head of the text in lower case, and what follows its colon. -/
def scheme? (cs : List Char) : Option (String × List Char) :=
  match cs with
  | c :: _ =>
    if c.isAlpha then
      let isPart (c : Char) := c.isAlphanum || c == '+' || c == '-' || c == '.'
      match cs.dropWhile isPart with
      | ':' :: rest => some (String.ofList ((cs.takeWhile isPart).map Char.toLower), rest)
      | _ => none
    else none
  | [] => none

/-- Reads a relative reference against a base that is no `file` URL. -/
def parseRelative (base : Url) (cs : List Char) : Except UrlError Url :=
  let kind := SchemeKind.of base.scheme
  match cs with
  | [] => .ok { base with fragment := none }
  | '#' :: rest => .ok { base with fragment := some (encode .fragment rest) }
  | '?' :: _ => .ok (complete base.scheme base.authority (base.path, cs))
  | c :: rest =>
    if isEitherSlash c then
      match rest with
      | d :: _ =>
        if isEitherSlash d then
          let after :=
            if c = '/' ∧ d = '/' then cs.drop 2 else cs.dropWhile isEitherSlash
          parseAfterSlashes base.scheme after
        else .ok (complete base.scheme base.authority (readPath kind [] rest))
      | [] => .ok (complete base.scheme base.authority (readPath kind [] rest))
    else
      .ok (complete base.scheme base.authority (readPath kind base.path.names.dropLast cs))

/-- Reads a URL, relative to a base if there is one. -/
def parseWith (base : Option Url) (s : String) : Except UrlError Url :=
  let cs := prepare s
  match scheme? cs with
  | some (scheme, rest) =>
    match SchemeKind.of scheme with
    | .file => parseFile (base.filter (·.scheme = "file")) rest
    | .special =>
      let slashes := (rest.takeWhile isEitherSlash).length
      match base.filter fun b => b.scheme = scheme ∧ slashes < 2 with
      | some base => parseRelative base rest
      | none => parseAfterSlashes scheme (rest.dropWhile isEitherSlash)
    | .ordinary =>
      match rest with
      | '/' :: '/' :: rest => parseAfterSlashes scheme rest
      | '/' :: rest => .ok (complete scheme none (readPath .ordinary [] rest))
      | _ =>
        let plain := rest.takeWhile fun c => c ≠ '?' ∧ c ≠ '#'
        .ok (complete scheme none
          (.plain (encode .controls plain), rest.dropWhile fun c => c ≠ '?' ∧ c ≠ '#'))
  | none =>
    match base, cs with
    | none, _ => .error .relativeWithoutBase
    | some base, '#' :: rest => .ok { base with fragment := some (encode .fragment rest) }
    | some base, cs =>
      if !base.hasRootedPath then .error .relativeWithUnsuitableBase
      else if base.scheme = "file" then parseFile (some base) cs
      else parseRelative base cs

/-- Reads an absolute URL. -/
def parse (s : String) : Except UrlError Url :=
  parseWith none s

/-- Reads a reference relative to a base. -/
def join (base : Url) (s : String) : Except UrlError Url :=
  parseWith (some base) s

/-- Joins a reference to a base, both given as texts.  Domains are taken as they stand in ASCII:
others are refused, and labels in Punycode are not decoded. -/
def joinTexts (base reference : String) : Except UrlError String := do
  let base ← parse base
  return (← base.join reference).text

end Hydration.Url
