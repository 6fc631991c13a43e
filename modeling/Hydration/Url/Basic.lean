/-!
# URLs

A URL is a scheme, an optional authority, a path, and optional query and fragment,
all in their written form: percent-encoded, with the host in its canonical form
and without a port that is the default of the scheme.

The path is a list of segments, each written with a slash before it.  Only a URL
without authority whose rest does not begin with a slash, such as
`mailto:a@b`, has a path of another kind (`Path.plain`); nothing can be resolved
against such a URL except a fragment.

The schemes of the web are **special**: they always have a host and a path, and a
backslash counts as a slash.  `file` is special but may lack the host.
-/

namespace Hydration

/-- Why a text is not a URL. -/
inductive UrlError where
  | emptyHost
  | invalidDomainName
  | invalidPort
  | invalidIpv4Address
  | invalidIpv6Address
  | invalidDomainCharacter
  | relativeWithoutBase
  | relativeWithUnsuitableBase
  | tooLong
deriving DecidableEq, Repr, Inhabited

/-- The text shown for a URL error. -/
def UrlError.message : UrlError → String
  | emptyHost => "empty host"
  | invalidDomainName => "invalid international domain name"
  | invalidPort => "invalid port number"
  | invalidIpv4Address => "invalid IPv4 address"
  | invalidIpv6Address => "invalid IPv6 address"
  | invalidDomainCharacter => "invalid domain character"
  | relativeWithoutBase => "relative URL without a base"
  | relativeWithUnsuitableBase => "relative URL with a cannot-be-a-base base"
  | tooLong => "URLs more than 4 GB are not supported"

/-- The path of a URL. -/
inductive Url.Path where
  /-- Segments, each with a slash before it. -/
  | segments (names : List String)
  /-- A path that does not begin with a slash. -/
  | plain (text : String)
deriving DecidableEq, Repr, Inhabited

/-- A URL in its parts. -/
structure Url where
  scheme : String
  /-- Credentials, host and port: what stands between `//` and the path. -/
  authority : Option String
  path : Url.Path
  query : Option String
  fragment : Option String
deriving DecidableEq, Repr, Inhabited

namespace Url

/-- How a URL is read, as decided by its scheme. -/
inductive SchemeKind where
  | file
  | special
  | ordinary
deriving DecidableEq, Repr, Inhabited

/-- The kind of a scheme. -/
def SchemeKind.of (scheme : String) : SchemeKind :=
  if scheme = "file" then .file
  else if scheme ∈ ["http", "https", "ws", "wss", "ftp"] then .special
  else .ordinary

/-- The port that goes without saying. -/
def defaultPort? (scheme : String) : Option Nat :=
  match scheme with
  | "http" => some 80
  | "ws" => some 80
  | "https" => some 443
  | "wss" => some 443
  | "ftp" => some 21
  | _ => none

/-- The written form of a path. -/
def Path.text : Path → String
  | segments names => String.join (names.map ("/" ++ ·))
  | plain text => text

/-- The segments of a path. -/
def Path.names : Path → List String
  | segments names => names
  | plain _ => []

/-- Whether relative references can be resolved against the URL. -/
def hasRootedPath (u : Url) : Bool :=
  u.authority.isSome ||
    match u.path with
    | .segments names => !names.isEmpty
    | .plain _ => false

/-- The written form of a URL.  Without an authority, a path that would begin with
two slashes is kept apart from the scheme by `/.`. -/
def text (u : Url) : String :=
  let before :=
    match u.authority, u.path with
    | some authority, _ => "//" ++ authority
    | none, .segments ("" :: _ :: _) => "/."
    | none, _ => ""
  u.scheme ++ ":" ++ before ++ u.path.text
    ++ (u.query.map ("?" ++ ·)).getD "" ++ (u.fragment.map ("#" ++ ·)).getD ""

end Url

end Hydration
