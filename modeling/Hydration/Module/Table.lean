import Hydration.Module.Basic
import Hydration.Options.Basic
import Hydration.Url.Reference

/-!
# The modules of a page

A page knows where the module of a component comes from by an **entry** for its
name: a source that was registered directly, or a URL.  Registering a source
replaces the entry; a URL is taken only for a name that has none.  For names
without an entry there may be an **alias**, which is a URL pattern or one source
for all; it makes the entry when a download first needs one.  URLs are resolved as
they are registered, by the table's way of joining them to a base.

**Downloading** has two halves, and other things may happen between them.
`ModuleTable.request` looks up the entry, and unless there is nothing to do it asks
the source and says when the answer arrives and what it is.  `ModuleTable.receive`
takes the answer: it picks the data to bind and marks the entry of that name as
loaded, whatever that entry is by then.  A loaded entry is not requested again.
-/

namespace Hydration

/-- Where a module comes from. -/
inductive ModuleOrigin where
  | source (producer : Producer)
  | url (url : String)

/-- What a page knows about the module of a name. -/
structure ModuleEntry where
  origin : ModuleOrigin
  /-- Whether a download has been completed. -/
  loaded : Bool

/-- What serves the names without an entry. -/
inductive ModuleAlias where
  /-- A URL in which `[name]` stands for the name. -/
  | pattern (text : String)
  | source (producer : Producer)

/-- The modules of a page. -/
structure ModuleTable where
  /-- How URLs are joined to the base of the page. -/
  join : Url.Joiner
  entries : List (String × ModuleEntry) := []
  /-- What serves the names without an entry. -/
  fallback : Option ModuleAlias := none
  /-- What is served at each URL; without it URLs cannot be fetched at all. -/
  served : Option (List (String × Producer)) := none
  /-- URLs that have been fetched, the oldest first. -/
  fetched : List String := []
  /-- Names that a direct source has been asked for, the oldest first. -/
  consulted : List String := []

/-- What a request for a module leads to. -/
inductive ModuleRequest where
  /-- There is nothing to wait for: nothing to do, or an error. -/
  | settled (result : Except ModuleError Bool)
  /-- The answer arrives after a delay, if ever. -/
  | answered (delay : Option Nat) (answer : Except ModuleError ComponentModule)

namespace ModuleTable

/-- What stands for the name in an alias pattern. -/
def namePlaceholder : String := "[name]"

/-- The entry of a name. -/
def entry? (t : ModuleTable) (name : String) : Option ModuleEntry :=
  t.entries.lookup name

/-- Sets the entry of a name. -/
def setEntry (t : ModuleTable) (name : String) (entry : ModuleEntry) : ModuleTable :=
  { t with entries := insertSorted name entry t.entries }

/-- Registers a source in place of any entry of that name. -/
def register (t : ModuleTable) (name : String) (producer : Producer) : ModuleTable :=
  t.setEntry name ⟨.source producer, false⟩

/-- Registers a URL and says whether it was taken.  It is not when the name or the
URL is empty or the name has an entry. -/
def registerUrl (t : ModuleTable) (name url : String) (options : Options) :
    Except ModuleError (Bool × ModuleTable) :=
  if name.isEmpty ∨ url.isEmpty ∨ (t.entry? name).isSome then .ok (false, t)
  else if options.keepRelativeUrls then .ok (true, t.setEntry name ⟨.url url, false⟩)
  else
    match Url.resolve t.join url options.baseUrl with
    | .ok url => .ok (true, t.setEntry name ⟨.url url, false⟩)
    | .error cause => .error (.invalidUrl url cause)

/-- Makes the entry of a name from the alias, if there is none. -/
def applyAlias (t : ModuleTable) (name : String) (options : Options) :
    Except ModuleError ModuleTable :=
  match t.fallback, t.entry? name with
  | none, _ => .ok t
  | some _, some _ => .ok t
  | some (.source producer), none => .ok (t.register name producer)
  | some (.pattern pattern), none =>
    (t.registerUrl name (pattern.replace namePlaceholder name) options).map (·.2)

/-- Whether a name has an entry. -/
def isRegistered (t : ModuleTable) (name : String) : Bool :=
  (t.entry? name).isSome

/-- Whether a name has an entry that is loaded. -/
def isLoaded (t : ModuleTable) (name : String) : Bool :=
  (t.entry? name).any (·.loaded)

/-- The URL that a name is fetched from. -/
def url? (t : ModuleTable) (name : String) : Option String :=
  match t.entry? name with
  | some ⟨.url url, _⟩ => some url
  | _ => none

/-- Fetches a URL for the component `name`. -/
def fetch (t : ModuleTable) (name url : String) : ModuleRequest × ModuleTable :=
  match t.served with
  | none => (.settled (.error (.fetch name url "no module fetcher configured")), t)
  | some served =>
    let t := { t with fetched := t.fetched ++ [url] }
    match served.lookup url with
    | none => (.settled (.error (.fetch name url "not served")), t)
    | some producer =>
      (.answered producer.delay (producer.answer.mapError (Refusal.error name url)), t)

/-- Asks the origin of an entry for the module of the component `name`. -/
def consult (t : ModuleTable) (name : String) : ModuleOrigin → ModuleRequest × ModuleTable
  | .source producer =>
    (.answered producer.delay (producer.answer.mapError (Refusal.error name "source")),
      { t with consulted := t.consulted ++ [name] })
  | .url url => t.fetch name url

/-- Begins a download.  An anonymous name, a name without entry and a loaded one
have nothing to download. -/
def request (t : ModuleTable) (name : String) (options : Options) : ModuleRequest × ModuleTable :=
  if isAnonymous name then (.settled (.ok false), t)
  else
    match t.applyAlias name options with
    | .error error => (.settled (.error error), t)
    | .ok t =>
      match t.entry? name with
      | none => (.settled (.ok false), t)
      | some entry =>
        if entry.loaded then (.settled (.ok false), t) else t.consult name entry.origin

/-- Marks the entry of a name as loaded, if there is one. -/
def markLoaded (t : ModuleTable) (name : String) : ModuleTable :=
  match t.entry? name with
  | some entry => t.setEntry name { entry with loaded := true }
  | none => t

/-- Completes a download with the answer of its source: gives the result and the
data to bind under the name. -/
def receive (t : ModuleTable) (name : String) (answer : Except ModuleError ComponentModule) :
    Except ModuleError Bool × Option Data × ModuleTable :=
  match answer with
  | .error error => (.error error, none, t)
  | .ok m => (.ok true, m.select name, t.markLoaded name)

/-- A download with nothing in between: the result, the data to bind, and the table. -/
def download (t : ModuleTable) (name : String) (options : Options) :
    Except ModuleError Bool × Option Data × ModuleTable :=
  match t.request name options with
  | (.settled result, t) => (result, none, t)
  | (.answered _ answer, t) => t.receive name answer

end ModuleTable

end Hydration
