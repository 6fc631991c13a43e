import Hydration.Requirement.Basic

/-!
# Tokens of a requirement

A requirement text is cut from the left into **pieces** (`cut`).  A piece is the
stretch of text that one token covers, together with the blanks around it, or a
single `&` that means nothing and yields no token.  The pieces put together are
the text again, so nothing is lost (`flatMap_text_cut`).

**What a piece may be**, at a position where the blanks have been read:

* a parenthesis, or one of the operators `||`, `&&` and `|` (read as `&&`), with
  the blanks after it;
* a *segment*: the longest run of characters other than parentheses, `&` and
  `|`.  When the run is followed by a pair of parentheses that holds at least
  one character and no further parenthesis, that pair belongs to the segment,
  its content is the argument, and the blanks after it belong to the piece;
* blanks alone, before a single `&` or at the end of the text: a condition
  without a name.

The name of a segment is its run without the blanks at both ends, and the old
spelling `immediate` stands for `eager`.
-/

namespace Hydration

/-- The side of a parenthesis. -/
inductive Side where
  | opening
  | closing
deriving DecidableEq, Repr, Inhabited

/-- A token of a requirement text. -/
inductive Token where
  | paren (side : Side)
  | operator (op : Operator)
  | condition (c : Condition)
deriving DecidableEq, Repr, Inhabited

/-! ## Written forms -/

/-- The written form of an operator. -/
def Operator.chars : Operator → List Char
  | .and => ['&', '&']
  | .or => ['|', '|']

/-- The written form of a condition: its name, and its argument in parentheses. -/
def Condition.chars (c : Condition) : List Char :=
  match c.argument with
  | some argument => c.name.toList ++ '(' :: (argument.toList ++ [')'])
  | none => c.name.toList

/-- The written form of a token. -/
def Token.chars : Token → List Char
  | .paren .opening => ['(']
  | .paren .closing => [')']
  | .operator op => op.chars
  | .condition c => c.chars

/-- The written form of a token as a text. -/
def Token.text (t : Token) : String :=
  String.ofList t.chars

namespace Token

open Text

/-! ## Cutting a text into pieces -/

/-- A stretch of a requirement text, with the token it stands for. -/
structure Piece where
  text : List Char
  token : Option Token
deriving DecidableEq, Repr

/-- A character that cannot be part of a name: a parenthesis, `&` or `|`. -/
def isSpecial (c : Char) : Bool :=
  c == '(' || c == ')' || c == '&' || c == '|'

/-- A parenthesis of either side. -/
def isParen (c : Char) : Bool :=
  c == '(' || c == ')'

/-- The condition named by a segment, with `immediate` read as `eager`. -/
def segmentCondition (run : List Char) (argument : Option (List Char)) : Condition :=
  let name := String.ofList (trimChars run)
  { name := if name = "immediate" then "eager" else name
    argument := argument.map String.ofList }

/-- The content of a pair of parentheses at the head of `cs` that is not empty
and holds no parenthesis, and what follows the pair. -/
def argument? (cs : List Char) : Option (List Char × List Char) :=
  match cs with
  | '(' :: r =>
    match r.takeWhile (!isParen ·), r.dropWhile (!isParen ·) with
    | [], _ => none
    | inner, ')' :: after => some (inner, after)
    | _, _ => none
  | _ => none

/-- The piece made of `read` and the blanks at the head of `cs`, and what follows. -/
def piece (read : List Char) (cs : List Char) (t : Token) : Piece × List Char :=
  (⟨read ++ cs.takeWhile isBlank, some t⟩, cs.dropWhile isBlank)

/-- The first piece of `cs` and what follows it. -/
def firstPiece (cs : List Char) : Piece × List Char :=
  let blanks := cs.takeWhile isBlank
  let nameless : Token := .condition (segmentCondition blanks none)
  match cs.dropWhile isBlank with
  | [] => (⟨blanks, some nameless⟩, [])
  | '(' :: r => piece (blanks ++ ['(']) r (.paren .opening)
  | ')' :: r => piece (blanks ++ [')']) r (.paren .closing)
  | '|' :: '|' :: r => piece (blanks ++ ['|', '|']) r (.operator .or)
  | '|' :: r => piece (blanks ++ ['|']) r (.operator .and)
  | '&' :: '&' :: r => piece (blanks ++ ['&', '&']) r (.operator .and)
  | '&' :: r =>
    if blanks.isEmpty then (⟨['&'], none⟩, r) else (⟨blanks, some nameless⟩, '&' :: r)
  | c :: r =>
    let run := (c :: r).takeWhile (!isSpecial ·)
    let rest := (c :: r).dropWhile (!isSpecial ·)
    match argument? rest with
    | some (inner, after) =>
      piece (blanks ++ run ++ '(' :: (inner ++ [')'])) after
        (.condition (segmentCondition run (some inner)))
    | none => (⟨blanks ++ run, some (.condition (segmentCondition run none))⟩, rest)

theorem eq_of_argument? {cs inner after : List Char} (h : argument? cs = some (inner, after)) :
    cs = '(' :: (inner ++ ')' :: after) := by
  unfold argument? at h
  split at h
  · next r =>
    have hsplit := List.takeWhile_append_dropWhile (p := (!isParen ·)) (l := r)
    generalize r.takeWhile (!isParen ·) = run, r.dropWhile (!isParen ·) = rest at h hsplit
    split at h
    · cases h
    · simp only [Option.some.injEq, Prod.mk.injEq] at h
      obtain ⟨rfl, rfl⟩ := h
      rw [hsplit]
    · cases h
  · cases h

theorem text_piece (read cs : List Char) (t : Token) :
    (piece read cs t).1.text ++ (piece read cs t).2 = read ++ cs := by
  simp [piece, List.takeWhile_append_dropWhile]

/-- The first piece and what follows it are the text. -/
theorem text_firstPiece (cs : List Char) :
    (firstPiece cs).1.text ++ (firstPiece cs).2 = cs := by
  have hsplit := List.takeWhile_append_dropWhile (p := isBlank) (l := cs)
  unfold firstPiece
  simp only
  split
  all_goals try (next h => rw [h] at hsplit; simpa [text_piece] using hsplit)
  · next r _ h =>
    rw [h] at hsplit
    split
    · next he =>
      rw [List.isEmpty_iff] at he
      simpa [he] using hsplit
    · simpa using hsplit
  · next c r _ _ _ _ _ _ h =>
    rw [h] at hsplit
    have hrun := List.takeWhile_append_dropWhile (p := (!isSpecial ·)) (l := c :: r)
    generalize cs.takeWhile isBlank = blanks, (c :: r).takeWhile (!isSpecial ·) = run,
      (c :: r).dropWhile (!isSpecial ·) = rest at hsplit hrun ⊢
    rw [← hsplit, ← hrun]
    split
    · next inner after ha => rw [text_piece, eq_of_argument? ha]; simp
    · simp

/-- What follows the first piece is shorter than the text. -/
theorem length_firstPiece_lt {c : Char} {cs : List Char} :
    (firstPiece (c :: cs)).2.length < (c :: cs).length := by
  have htext := congrArg List.length (text_firstPiece (c :: cs))
  have hne : (firstPiece (c :: cs)).1.text ≠ [] := by
    have hsplit := List.takeWhile_append_dropWhile (p := isBlank) (l := c :: cs)
    unfold firstPiece
    simp only
    split
    · next h => rw [h] at hsplit; simp_all
    all_goals try (simp [piece]; done)
    · split <;> simp_all
    · next d r hopen hclose _ hbar _ hand h =>
      have hd : isSpecial d = false := by simp_all [isSpecial]
      split <;> simp [piece, hd]
  have hpos := List.length_pos_iff.mpr hne
  simp only [List.length_append] at htext
  omega

/-- The pieces of a text from left to right. -/
def cut : List Char → List Piece
  | [] => []
  | c :: cs => (firstPiece (c :: cs)).1 :: cut (firstPiece (c :: cs)).2
termination_by cs => cs.length
decreasing_by exact length_firstPiece_lt

/-- The pieces of a text, put together, are the text. -/
theorem flatMap_text_cut (cs : List Char) : (cut cs).flatMap Piece.text = cs := by
  fun_induction cut cs with
  | case1 => rfl
  | case2 c cs ih => rw [List.flatMap_cons, ih, text_firstPiece]

/-- The tokens of a text from left to right. -/
def scan (s : String) : List Token :=
  (cut s.toList).filterMap Piece.token

end Token
end Hydration
