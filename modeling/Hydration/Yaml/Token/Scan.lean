import Hydration.Yaml.Token.Block
import Hydration.Yaml.Token.Plain
import Hydration.Yaml.Token.Property

/-!
# The tokens of a text

`Token.scan` splits a text into tokens.  Two things make this more than reading one token
after another.

**Indentation.**  A block collection begins where one of its entries stands further right
than what is around it, and ends where something stands further left than its entries.
The scanner keeps the columns of the open block collections.  Inside brackets
indentation does not count.

**Keys without a mark.**  A token may turn out to begin a mapping key only when the colon
behind it is read.  The scanner therefore remembers, outside and for each open
bracket, the last token that may begin a key.  At the colon the `key` token is
put in before it, and before that the beginning of a block mapping.  Such a key has to be
on one line and must not be longer than `keyLimit` bytes.  Where only a key
can stand, its colon is *required*, and it is an error if none comes.
-/

namespace Hydration.Yaml

/-- A token that may begin a mapping key. -/
structure PendingKey where
  /-- Whether nothing but a key can stand there. -/
  required : Bool
  /-- The number of tokens before it. -/
  position : Nat
  /-- Where it stands. -/
  place : Cursor
deriving Repr, Inhabited

/-- How long a key without a mark may be. -/
def keyLimit : Nat := 1024

/-- A scanner in the middle of a text. -/
structure Scanner where
  cursor : Cursor
  /-- The tokens so far, the last one first. -/
  tokens : List Token := []
  /-- The number of tokens so far. -/
  count : Nat := 0
  /-- The columns of the open block collections, the innermost first. -/
  columns : List Nat := []
  /-- The token that may begin a key, inside the innermost bracket. -/
  pending : Option PendingKey := none
  /-- The same outside of each open bracket, the innermost first. -/
  outer : List (Option PendingKey) := []
  /-- Whether a key without a mark may begin here. -/
  keyAllowed : Bool := true
deriving Repr, Inhabited

namespace Scanner

variable (s : Scanner)

/-- Whether the place is inside brackets. -/
def inFlow : Bool := !s.outer.isEmpty

/-- The least column of what belongs to the innermost block collection. -/
def leastColumn : Nat :=
  match s.columns with
  | [] => 0
  | column :: _ => column + 1

/-! ## Tokens -/

/-- Adds a token. -/
def emit (t : Token) : Scanner :=
  { s with tokens := t :: s.tokens, count := s.count + 1 }

/-- Puts a token in before those from `position` on. -/
def insert (position : Nat) (t : Token) : Scanner :=
  let later := s.count - position
  { s with tokens := s.tokens.take later ++ t :: s.tokens.drop later, count := s.count + 1 }

/-- Adds a token of some characters. -/
def emitMark (t : Token) (width : Nat) : Scanner :=
  { s.emit t with cursor := s.cursor.skipMany width }

/-! ## Indentation -/

/-- Begins a block collection at `column` with the token `t`, which is put in at
`position`, if there is not one at this column. -/
def openBlock (column position : Nat) (t : Token) : Scanner :=
  if !s.inFlow && s.leastColumn ≤ column then
    { s.insert position t with columns := column :: s.columns }
  else s

/-- Ends the block collections that stand further right than `least`. -/
def closeBlocks (least : Nat) : Scanner :=
  if s.inFlow then s
  else
    let closed := s.columns.takeWhile (least < ·)
    { s with
      columns := s.columns.drop closed.length
      tokens := closed.map (fun _ => .blockEnd) ++ s.tokens
      count := s.count + closed.length }

/-- Ends all block collections. -/
def closeAllBlocks : Scanner :=
  if s.inFlow then s
  else
    { s with
      columns := []
      tokens := s.columns.map (fun _ => .blockEnd) ++ s.tokens
      count := s.count + s.columns.length }

/-! ## Keys without a mark -/

/-- Gives up the pending key; none if its colon is required. -/
def dropKey : Option Scanner :=
  if s.pending.any (·.required) then none else some { s with pending := none }

/-- The next token may begin a key, if one may begin here. -/
def saveKey : Option Scanner :=
  if s.keyAllowed then do
    let required := !s.inFlow && s.columns.head? == some s.cursor.column
    let s ← s.dropKey
    return { s with pending := some { required, position := s.count, place := s.cursor } }
  else some s

/-- Whether a key is too long for the colon to come at `c`. -/
def isStale (c : Cursor) (k : PendingKey) : Bool :=
  k.place.line < c.line || k.place.offset + keyLimit < c.offset

/-- Gives up the keys that are too long; none if a colon is required. -/
def dropStaleKeys : Option Scanner :=
  let stale := isStale s.cursor
  if (s.pending :: s.outer).any fun key => key.any fun k => stale k && k.required then none
  else
    some { s with
      pending := s.pending.filter (!stale ·)
      outer := s.outer.map (·.filter (!stale ·)) }

/-! ## Between tokens -/

/-- Skips blanks, comments and line ends.  A tab is no blank where a key could begin
outside of brackets; behind a line end a key may begin there. -/
def skipGap (flow : Bool) : Nat → Bool → Cursor → Bool × Cursor
  | 0, allowed, c => (allowed, c)
  | fuel + 1, allowed, c =>
    let c := (c.takeWhile fun x => x == ' ' || (x == '\t' && (flow || !allowed))).2.skipComment
    if c.atBreak then skipGap flow fuel (allowed || !flow) c.skipBreak else (allowed, c)

/-- Goes to the next token, and ends the collections that it does not belong to. -/
def toNextToken : Option Scanner := do
  let (keyAllowed, cursor) := skipGap s.inFlow (s.cursor.rest.length + 1) s.keyAllowed s.cursor
  let s ← { s with cursor, keyAllowed : Scanner }.dropStaleKeys
  return s.closeBlocks s.cursor.column

/-! ## Marks -/

/-- A bracket that opens. -/
def openFlow (t : Token) : Option Scanner := do
  let s ← s.saveKey
  let inner := s.emitMark t 1
  return { inner with outer := s.pending :: s.outer, pending := none, keyAllowed := true }

/-- A bracket that closes. -/
def closeFlow (t : Token) : Option Scanner := do
  let s ← s.dropKey
  let s := { s with
    pending := s.outer.head?.getD none, outer := s.outer.drop 1, keyAllowed := false : Scanner }
  return s.emitMark t 1

/-- A comma. -/
def flowEntry : Option Scanner := do
  let s ← s.dropKey
  return { s.emitMark .flowEntry 1 with keyAllowed := true }

/-- The mark of an entry of a block sequence. -/
def blockEntry : Option Scanner := do
  if !s.inFlow && !s.keyAllowed then none
  let s ← (s.openBlock s.cursor.column s.count .blockSequenceStart).dropKey
  return { s.emitMark .blockEntry 1 with keyAllowed := true }

/-- The mark of a key. -/
def key : Option Scanner := do
  if !s.inFlow && !s.keyAllowed then none
  let s ← (s.openBlock s.cursor.column s.count .blockMappingStart).dropKey
  return { s.emitMark .key 1 with keyAllowed := !s.inFlow }

/-- The colon before a value.  The pending key is a key now. -/
def value : Option Scanner :=
  match s.pending with
  | some k =>
    let s := (s.insert k.position .key).openBlock k.place.column k.position .blockMappingStart
    some { s.emitMark .value 1 with pending := none, keyAllowed := false }
  | none =>
    if !s.inFlow && !s.keyAllowed then none
    else
      let s := s.openBlock s.cursor.column s.count .blockMappingStart
      some { s.emitMark .value 1 with keyAllowed := !s.inFlow }

/-- The mark of the beginning or the end of a document. -/
def documentMark (t : Token) : Option Scanner := do
  let s ← s.closeAllBlocks.dropKey
  return { s.emitMark t 3 with keyAllowed := false }

/-- A directive. -/
def directive : Option Scanner := do
  let s ← s.closeAllBlocks.dropKey
  let (t, cursor) ← readDirective s.cursor
  return { s.emit t with cursor, keyAllowed := false }

/-! ## Nodes -/

/-- A token that may begin a key, read by `read`. -/
def node (read : Cursor → Option (Token × Cursor)) : Option Scanner := do
  let s ← s.saveKey
  let (t, cursor) ← read s.cursor
  return { s.emit t with cursor, keyAllowed := false }

/-- An anchor, or a reference to one. -/
def anchor (token : String → Token) : Option Scanner :=
  s.node fun c => (readAnchorName c.skip).map fun (name, c) => (token name, c)

/-- A block scalar. -/
def blockScalar (isFolded : Bool) : Option Scanner := do
  let s ← s.dropKey
  let (t, cursor) ← readBlockScalar s.leastColumn isFolded s.cursor
  return { s.emit t with cursor, keyAllowed := true }

/-- A plain scalar. -/
def plainScalar : Option Scanner := do
  let s ← s.saveKey
  let (t, keyAllowed, cursor) ← readPlainScalar s.leastColumn s.inFlow s.cursor
  return { s.emit t with cursor, keyAllowed }

/-- A character with a meaning of its own. -/
def isIndicator (c : Char) : Bool :=
  isFlowIndicator c || c == '-' || c == '?' || c == ':' || c == '#' || c == '&' || c == '*'
    || c == '!' || c == '|' || c == '>' || c == '\'' || c == '"' || c == '%' || c == '@'
    || c == '\x60'

/-- Whether a plain scalar may begin with `x`, which is the character at this place. -/
def startsPlain (x : Char) : Bool :=
  let c := s.cursor
  (!isBlank x && !isIndicator x)
    || (x == '-' && !(c.peekAt 1).any isBlank)
    || (!s.inFlow && (x == '?' || x == ':') && !c.blankOrEndAt 1)

/-- Reads the token that begins with `x`, which is the character at this place. -/
def readToken (x : Char) : Option Scanner :=
  let c := s.cursor
  let alone := c.blankOrEndAt 1
  if c.column == 0 && x == '%' then s.directive
  else if c.atDocumentIndicator then
    s.documentMark (if x == '-' then .documentStart else .documentEnd)
  else if x == '[' then s.openFlow .flowSequenceStart
  else if x == '{' then s.openFlow .flowMappingStart
  else if x == ']' then s.closeFlow .flowSequenceEnd
  else if x == '}' then s.closeFlow .flowMappingEnd
  else if x == ',' then s.flowEntry
  else if x == '-' && alone then s.blockEntry
  else if x == '?' && (s.inFlow || alone) then s.key
  else if x == ':' && (s.inFlow || alone) then s.value
  else if x == '*' then s.anchor .reference
  else if x == '&' then s.anchor .anchor
  else if x == '!' then s.node (readTag s.inFlow)
  else if x == '|' && !s.inFlow then s.blockScalar false
  else if x == '>' && !s.inFlow then s.blockScalar true
  else if x == '\'' then s.node (readQuotedScalar true)
  else if x == '"' then s.node (readQuotedScalar false)
  else if s.startsPlain x then s.plainScalar
  else none

/-- All tokens up to the end of the text. -/
def run : Nat → Scanner → Option (List Token)
  | 0, _ => none
  | fuel + 1, s => do
    let s ← s.toNextToken
    match s.cursor.peek with
    | none => (← s.closeAllBlocks.dropKey).tokens.reverse
    | some x => run fuel (← s.readToken x)

end Scanner

/-- The character that may stand at the beginning of a text to mark its encoding. -/
def byteOrderMark : Char := Char.ofNat 0xFEFF

/-- The tokens of a text; none if it is not YAML. -/
def Token.scan (text : String) : Option (List Token) :=
  let cs := text.toList
  if cs.all isAllowed then
    let c := Cursor.start cs
    -- The mark counts as a column of the first line.
    let c := if c.at? byteOrderMark then c.skip else c
    Scanner.run (cs.length + 2) { cursor := c }
  else none

end Hydration.Yaml
