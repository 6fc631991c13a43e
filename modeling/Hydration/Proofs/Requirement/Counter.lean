import Hydration.Proofs.Requirement.RoundTrip

/-!
# Counting open groups

Whether tokens can be read, how many of them a requirement takes, and where a term is
missing does not depend on the operators and conditions that are read.  A `Counter` that
scans the tokens once tells it: it knows how many groups are open (`depth`) and whether a
term is needed next, and forgets everything else.

* Where a term is needed, `(` opens a group and a condition is a term; an operator, `)`
  or the end of the tokens is an error at its index.
* After a term, an operator needs another term and `)` closes an open group; whatever
  else comes, and `)` where no group is open, ends the requirement.

The reader keeps the values of all open groups besides.  Its stack is as high as the
counter is deep, and closing what is still open takes no token, so the reader and the
counter stop together (`read_agrees`).
-/

namespace Hydration.Requirement

/-- What is to be known of the tokens before an index. -/
structure Counter where
  /-- How many groups are open. -/
  depth : Nat
  /-- Whether a term is needed next. -/
  needsTerm : Bool
deriving DecidableEq, Repr

namespace Counter

/-- What a counter makes of a token, or of the end of the tokens. -/
inductive Move where
  | goOn (next : Counter)
  | stop
  | fail (error : ParseError)

/-- The move at index `i`, where `none` is the end of the tokens. -/
def move (m : Counter) (i : Nat) (token? : Option Token) : Move :=
  if m.needsTerm then
    match token? with
    | some (.paren .opening) => .goOn ⟨m.depth + 1, true⟩
    | some (.condition _) => .goOn ⟨m.depth, false⟩
    | some token => .fail (.unexpectedToken token.text i)
    | none => .fail (.unexpectedEnd i)
  else
    match token? with
    | some (.operator _) => .goOn ⟨m.depth, true⟩
    | some (.paren .closing) => if 0 < m.depth then .goOn ⟨m.depth - 1, false⟩ else .stop
    | _ => .stop

/-- Scans the tokens from index `i` on and gives the index at which the requirement ends. -/
def scan (m : Counter) (i : Nat) : List Token → Except ParseError Nat
  | [] =>
    match m.move i none with
    | .fail error => .error error
    | _ => .ok i
  | token :: rest =>
    match m.move i (some token) with
    | .goOn next => next.scan (i + 1) rest
    | .stop => .ok i
    | .fail error => .error error

/-- The number of tokens that a requirement at the head of `tokens` takes. -/
def count (tokens : List Token) : Except ParseError Nat :=
  scan ⟨0, true⟩ 0 tokens

end Counter

/-! ## The reader and the counter -/

/-- **A reading of the tokens from index `i` on agrees with a count**: both fail with the same
error, or the count is the index of the first token that the reading leaves. -/
inductive Agrees (i : Nat) (tokens : List Token) :
    Except ParseError (Requirement × List Token) → Except ParseError Nat → Prop where
  | ends (t : Requirement) (k : Nat) (h : k ≤ tokens.length) :
      Agrees i tokens (.ok (t, tokens.drop k)) (.ok (i + k))
  | fails (error : ParseError) : Agrees i tokens (.error error) (.error error)

variable {i : Nat} {token : Token} {tokens : List Token}
  {read : Except ParseError (Requirement × List Token)} {counted : Except ParseError Nat}

/-- The requirement ends before the first token. -/
theorem Agrees.here (t : Requirement) : Agrees i tokens (.ok (t, tokens)) (.ok i) :=
  .ends t 0 (Nat.zero_le _)

/-- The first token has been taken. -/
theorem Agrees.take (h : Agrees (i + 1) tokens read counted) :
    Agrees i (token :: tokens) read counted := by
  cases h with
  | ends t k hk =>
    have hindex : i + 1 + k = i + (k + 1) := by omega
    rw [hindex]
    exact .ends t (k + 1) (Nat.succ_le_succ hk)
  | fails error => exact .fails error

/-- **The reader and the counter agree**, whatever is pending: the depth of the counter is the
height of the stack of open groups. -/
theorem read_agrees (tokens : List Token) :
    (∀ pending outer i, Agrees i tokens (readTerm pending outer i tokens)
      (Counter.scan ⟨outer.length, true⟩ i tokens)) ∧
    ∀ value outer i, Agrees i tokens (readOn value outer i tokens)
      (Counter.scan ⟨outer.length, false⟩ i tokens) := by
  induction tokens with
  | nil =>
    constructor
    · intro pending outer i
      exact .fails _
    · intro value outer i
      exact .here (closeAll value outer)
  | cons token rest ih =>
    obtain ⟨iht, iho⟩ := ih
    constructor
    · intro pending outer i
      cases token with
      | paren side =>
        cases side with
        | opening =>
          rw [readTerm]
          exact (iht none (pending :: outer) (i + 1)).take
        | closing => exact .fails _
      | condition c =>
        rw [readTerm]
        exact (iho (pending.complete (.leaf c)) outer (i + 1)).take
      | operator op => exact .fails _
    · intro value outer i
      cases token with
      | operator op =>
        rw [readOn]
        exact (iht (some (value, op)) outer (i + 1)).take
      | paren side =>
        cases side with
        | closing =>
          cases outer with
          | nil => exact .here value
          | cons pending outer =>
            rw [readOn]
            exact (iho (pending.complete value) outer (i + 1)).take
        -- No other token goes on after a term, and all open groups end here.
        | opening => exact .here (closeAll value outer)
      | condition c => exact .here (closeAll value outer)

/-- What a reading of all tokens amounts to. -/
theorem ofTokens_agrees (tokens : List Token) :
    Agrees 0 tokens (ofTokens tokens) (Counter.count tokens) :=
  (read_agrees tokens).1 none [] 0

theorem ofTokens_of_count {n : Nat} (h : Counter.count tokens = .ok n) :
    n ≤ tokens.length ∧ ∃ t, ofTokens tokens = .ok (t, tokens.drop n) := by
  have hagrees := ofTokens_agrees tokens
  rw [h] at hagrees
  generalize ofTokens tokens = read at hagrees
  cases hagrees with
  | ends t k hk =>
    rw [Nat.zero_add] at h ⊢
    exact ⟨hk, t, rfl⟩

theorem ofTokens_of_count_error {error : ParseError} (h : Counter.count tokens = .error error) :
    ofTokens tokens = .error error := by
  have hagrees := ofTokens_agrees tokens
  rw [h] at hagrees
  generalize ofTokens tokens = read at hagrees
  cases hagrees
  rfl

/-- A text that is not blank and has tokens is read as its tokens are. -/
theorem parse_eq_ofTokens {s : String} (hs : Text.isBlankText s = false)
    (htokens : Token.scan s ≠ []) : parse s = (ofTokens (Token.scan s)).map (·.1.wrap) := by
  rw [parse, if_neg (by simp [hs])]
  split
  · next hnil => exact absurd hnil htokens
  · rfl

/-- **Reading is counting.**  A text that is not blank and has tokens is read exactly if the
counter gets to an end.  The requirement then takes the tokens that were counted and leaves the
others, and otherwise the error is that of the counter. -/
theorem parse_agrees_count {s : String} (hs : Text.isBlankText s = false)
    (htokens : Token.scan s ≠ []) :
    (∀ n, Counter.count (Token.scan s) = .ok n → n ≤ (Token.scan s).length ∧
      ∃ t, ofTokens (Token.scan s) = .ok (t, (Token.scan s).drop n) ∧ parse s = .ok t.wrap) ∧
    ∀ error, Counter.count (Token.scan s) = .error error → parse s = .error error := by
  rw [parse_eq_ofTokens hs htokens]
  constructor
  · intro n hn
    obtain ⟨hle, t, ht⟩ := ofTokens_of_count hn
    exact ⟨hle, t, ht, by rw [ht]; rfl⟩
  · intro error herror
    rw [ofTokens_of_count_error herror]
    rfl

/-- Two groups are open where the condition `d` ends the requirement, which leaves four tokens;
and a group is closed where a term is needed. -/
theorem parse_agrees_count_open_groups :
    (Counter.count (Token.scan "(a || (b && (c) d) && e") = .ok 9 ∧
      ∃ t, ofTokens (Token.scan "(a || (b && (c) d) && e") =
          .ok (t, (Token.scan "(a || (b && (c) d) && e").drop 9) ∧
        parse "(a || (b && (c) d) && e" = .ok t.wrap) ∧
    Counter.count (Token.scan "a && (b || )") = .error (.unexpectedToken ")" 5) ∧
      parse "a && (b || )" = .error (.unexpectedToken ")" 5) := by
  have hcount₁ : Counter.count (Token.scan "(a || (b && (c) d) && e") = .ok 9 := by
    have hscan : Token.scan "(a || (b && (c) d) && e" =
        [.paren .opening, .condition ⟨"a", none⟩, .operator .or, .paren .opening,
          .condition ⟨"b", none⟩, .operator .and, .paren .opening, .condition ⟨"c", none⟩,
          .paren .closing, .condition ⟨"d", none⟩, .paren .closing, .operator .and,
          .condition ⟨"e", none⟩] := by decide +kernel
    rw [hscan]
    rfl
  have hcount₂ : Counter.count (Token.scan "a && (b || )") = .error (.unexpectedToken ")" 5) := by
    have hscan : Token.scan "a && (b || )" =
        [.condition ⟨"a", none⟩, .operator .and, .paren .opening, .condition ⟨"b", none⟩,
          .operator .or, .paren .closing] := by decide +kernel
    rw [hscan]
    rfl
  have hread₁ := parse_agrees_count (s := "(a || (b && (c) d) && e") (by decide +kernel)
    (by decide +kernel)
  have hread₂ := parse_agrees_count (s := "a && (b || )") (by decide +kernel) (by decide +kernel)
  exact ⟨⟨hcount₁, (hread₁.1 9 hcount₁).2⟩, hcount₂, hread₂.2 _ hcount₂⟩

end Hydration.Requirement
