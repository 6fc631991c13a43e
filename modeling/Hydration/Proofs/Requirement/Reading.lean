import Hydration.Proofs.Requirement.Formula
import Hydration.Proofs.Requirement.Scan
import Hydration.Requirement.Display

/-!
# Reading tokens

What the reader makes of tokens, and what it makes of the tokens of a written
requirement.

**Results.**  The reader only ever builds leaves from condition tokens and joins
what it has, so whatever is kept by joining holds of every result
(`ofTokens_induction`).  In particular every result is `Folded`: a node has at
least two operands, and its first operand is not a node with the same operator.

**Written requirements.**  Reading the tokens of a written tree folds each node
from the left (`Formula.normal`), whatever the reader has pending and whatever
follows (`readTerm_nestedLexemes`).  A condition without a name leaves no token
behind, and then the reader misses a term there (`readTerm_nameless`).
-/

namespace Hydration

namespace Requirement

open Formula (join)
open Token (Lexeme)

/-! ## Along a reading -/

/-- **Induction along a reading that succeeds** with `t` and leaves `left`: `M` is shown where a
term is needed and `N` after a term.  A reading that ends closes all open groups. -/
theorem read_rec {t : Requirement} {left : List Token}
    (M : Pending → List Pending → List Token → Prop)
    (N : Requirement → List Pending → List Token → Prop)
    (hopening : ∀ pending outer rest, M none (pending :: outer) rest →
      M pending outer (.paren .opening :: rest))
    (hcondition : ∀ pending outer c rest, N (pending.complete (.leaf c)) outer rest →
      M pending outer (.condition c :: rest))
    (hoperator : ∀ value outer op rest, M (some (value, op)) outer rest →
      N value outer (.operator op :: rest))
    (hclosing : ∀ value pending outer rest, N (pending.complete value) outer rest →
      N value (pending :: outer) (.paren .closing :: rest))
    (hend : ∀ value outer, t = closeAll value outer → N value outer left) (tokens : List Token) :
    (∀ pending outer i, readTerm pending outer i tokens = .ok (t, left) →
      M pending outer tokens) ∧
    ∀ value outer i, readOn value outer i tokens = .ok (t, left) → N value outer tokens := by
  -- The reader goes back and forth between expecting a term and having one.
  induction tokens with
  | nil =>
    constructor
    · intro pending outer i h
      cases h
    · intro value outer i h
      cases h
      exact hend value outer rfl
  | cons token rest ih =>
    obtain ⟨iht, iho⟩ := ih
    constructor
    · intro pending outer i h
      cases token with
      | paren side =>
        cases side with
        | opening =>
          rw [readTerm] at h
          exact hopening pending outer rest (iht _ _ _ h)
        | closing => cases h
      | condition c =>
        rw [readTerm] at h
        exact hcondition pending outer c rest (iho _ _ _ h)
      | operator op => cases h
    · intro value outer i h
      cases token with
      | operator op =>
        rw [readOn] at h
        exact hoperator value outer op rest (iht _ _ _ h)
      | paren side =>
        cases side with
        | closing =>
          cases outer with
          | nil =>
            cases h
            exact hend _ [] rfl
          | cons pending outer =>
            rw [readOn] at h
            exact hclosing value pending outer rest (iho _ _ _ h)
        | opening =>
          cases h
          exact hend value outer rfl
      | condition c =>
        cases h
        exact hend value outer rfl

/-! ## What every result has -/

section Induction

variable {P : Requirement → Prop}

/-- What is pending has the property. -/
def Pending.Holds (P : Requirement → Prop) (p : Pending) : Prop :=
  ∀ left op, p = some (left, op) → P left

theorem Pending.Holds.complete {p : Pending} (hjoin : ∀ op l r, P l → P r → P (join op l r))
    (hp : p.Holds P) {term : Requirement} (ht : P term) : P (p.complete term) := by
  match p, hp with
  | none, _ => exact ht
  | some (left, op), hp => exact hjoin op left term (hp left op rfl) ht

theorem closeAll_holds (hjoin : ∀ op l r, P l → P r → P (join op l r)) {outer : List Pending}
    (ho : ∀ p ∈ outer, p.Holds P) {value : Requirement} (hv : P value) :
    P (closeAll value outer) := by
  induction outer generalizing value with
  | nil => exact hv
  | cons p outer ih =>
    exact ih (fun q hq => ho q (List.mem_cons_of_mem _ hq))
      ((ho p List.mem_cons_self).complete hjoin hv)

/-- Whatever holds of the leaves and is kept by joining holds of every requirement read. -/
theorem ofTokens_induction {tokens left : List Token} {t : Requirement}
    (hjoin : ∀ op l r, P l → P r → P (join op l r))
    (hleaf : ∀ c, .condition c ∈ tokens → P (.leaf c))
    (h : ofTokens tokens = .ok (t, left)) : P t := by
  refine (read_rec (t := t)
    (fun pending outer tokens => (∀ c, .condition c ∈ tokens → P (.leaf c)) →
      (∀ p ∈ pending :: outer, p.Holds P) → P t)
    (fun value outer tokens => (∀ c, .condition c ∈ tokens → P (.leaf c)) → P value →
      (∀ p ∈ outer, p.Holds P) → P t)
    ?_ ?_ ?_ ?_ ?_ tokens).1 none [] 0 h hleaf ?_
  · intro pending outer rest ih hleaf hholds
    refine ih (fun c hc => hleaf c (List.mem_cons_of_mem _ hc)) (List.forall_mem_cons.mpr ⟨?_, hholds⟩)
    exact nofun
  · intro pending outer c rest ih hleaf hholds
    obtain ⟨hp, ho⟩ := List.forall_mem_cons.mp hholds
    exact ih (fun c hc => hleaf c (List.mem_cons_of_mem _ hc))
      (hp.complete hjoin (hleaf c List.mem_cons_self)) ho
  · intro value outer op rest ih hleaf hv ho
    refine ih (fun c hc => hleaf c (List.mem_cons_of_mem _ hc)) (List.forall_mem_cons.mpr ⟨?_, ho⟩)
    rintro left op' ⟨⟩
    exact hv
  · intro value pending outer rest ih hleaf hv hholds
    obtain ⟨hp, ho⟩ := List.forall_mem_cons.mp hholds
    exact ih (fun c hc => hleaf c (List.mem_cons_of_mem _ hc)) (hp.complete hjoin hv) ho
  · rintro value outer rfl _ hv ho
    exact closeAll_holds hjoin ho hv
  · rintro p hp left op rfl
    cases List.mem_singleton.mp hp

end Induction

/-- What is read is folded. -/
theorem folded_of_ofTokens {tokens left : List Token} {t : Requirement}
    (h : ofTokens tokens = .ok (t, left)) : t.Folded :=
  ofTokens_induction (fun _ _ _ hl hr => hl.join hr) (fun c _ => .leaf c) h

/-- The conditions of what is read are tokens. -/
theorem mem_of_ofTokens {tokens left : List Token} {t : Requirement}
    (h : ofTokens tokens = .ok (t, left)) : ∀ c ∈ t.leaves, .condition c ∈ tokens := by
  refine ofTokens_induction (P := fun t => ∀ c ∈ t.leaves, .condition c ∈ tokens) ?_ ?_ h
  · intro op l r hl hr c hc
    rw [Formula.leaves_join] at hc
    exact (List.mem_append.mp hc).elim (hl c) (hr c)
  · intro c hc c' hc'
    rw [Formula.leaves, List.mem_singleton] at hc'
    exact hc' ▸ hc

/-! ## Layouts of requirements -/

/-- The layout of a condition; one without name leaves nothing behind. -/
def leafLexemes (c : Condition) : List Lexeme :=
  if c.name = "" then [] else [.token (.condition c)]

mutual

/-- The layout of operands, each after the first with the operator in front. -/
def operandsLexemes (op : Operator) : List Requirement → List Lexeme
  | [] => []
  | [operand] => nestedLexemes operand
  | operand :: rest =>
    nestedLexemes operand ++
      .blank ' ' :: .token (.operator op) :: .blank ' ' :: operandsLexemes op rest

/-- The layout of an operand. -/
def nestedLexemes : Requirement → List Lexeme
  | .leaf c => leafLexemes c
  | .node op operands =>
    .token (.paren .opening) :: (operandsLexemes op operands ++ [.token (.paren .closing)])

end

/-- The layout of a requirement. -/
def lexemes : Requirement → List Lexeme
  | .leaf c => leafLexemes c
  | .node op operands => operandsLexemes op operands

/-- The tokens of a layout. -/
abbrev tokensOf (ls : List Lexeme) : List Token :=
  ls.filterMap Lexeme.token?

theorem operandsLexemes_cons_cons (op : Operator) (x y : Requirement) (rest : List Requirement) :
    operandsLexemes op (x :: y :: rest) =
      nestedLexemes x ++
        .blank ' ' :: .token (.operator op) :: .blank ' ' :: operandsLexemes op (y :: rest) := by
  rw [operandsLexemes]
  simp

theorem operandsChars_cons_cons (op : Operator) (x y : Requirement) (rest : List Requirement) :
    operandsChars op (x :: y :: rest) =
      nestedChars x ++ ' ' :: (op.chars ++ ' ' :: operandsChars op (y :: rest)) := by
  rw [operandsChars]
  simp

theorem tokensOf_operands_cons_cons (op : Operator) (x y : Requirement)
    (rest : List Requirement) :
    tokensOf (operandsLexemes op (x :: y :: rest)) =
      tokensOf (nestedLexemes x) ++ .operator op :: tokensOf (operandsLexemes op (y :: rest)) := by
  rw [operandsLexemes_cons_cons, tokensOf, List.filterMap_append]
  rfl

theorem tokensOf_nested_node (op : Operator) (operands : List Requirement) :
    tokensOf (nestedLexemes (.node op operands)) =
      .paren .opening :: (tokensOf (operandsLexemes op operands) ++ [.paren .closing]) := by
  rw [nestedLexemes, tokensOf, List.filterMap_cons, List.filterMap_append]
  simp [Lexeme.token?]

theorem layout_append (xs ys : List Lexeme) :
    Token.layout (xs ++ ys) = Token.layout xs ++ Token.layout ys :=
  List.flatMap_append

theorem layout_cons (l : Lexeme) (ls : List Lexeme) :
    Token.layout (l :: ls) = l.chars ++ Token.layout ls := rfl

theorem layout_leaf {c : Condition} (hc : c.Clean) : Token.layout (leafLexemes c) = c.chars := by
  by_cases h : c.name = ""
  · simp [leafLexemes, h, Token.layout, Condition.chars, hc.argument_none h]
  · simp [leafLexemes, h, Token.layout, Lexeme.chars, Token.chars]

theorem layout_operandsLexemes (op : Operator) {operands : List Requirement}
    (h : ∀ x ∈ operands, Token.layout (nestedLexemes x) = nestedChars x) :
    Token.layout (operandsLexemes op operands) = operandsChars op operands := by
  induction operands with
  | nil => rfl
  | cons x rest ih =>
    cases rest with
    | nil => exact h x List.mem_cons_self
    | cons y rest =>
      rw [operandsLexemes_cons_cons, operandsChars_cons_cons, layout_append,
        h x List.mem_cons_self, layout_cons, layout_cons, layout_cons,
        ih fun z hz => h z (List.mem_cons_of_mem _ hz)]
      rfl

theorem layout_nestedLexemes {t : Requirement} (hc : ∀ c ∈ t.leaves, c.Clean) :
    Token.layout (nestedLexemes t) = nestedChars t := by
  induction t using Formula.induction with
  | leaf c => rw [nestedLexemes, nestedChars, layout_leaf (hc c (by simp [Formula.leaves]))]
  | node op operands ih =>
    have hoperands := layout_operandsLexemes op fun x hx =>
      ih x hx fun c h => hc c (Formula.mem_leaves_node.mpr ⟨x, hx, h⟩)
    rw [nestedLexemes, nestedChars, layout_cons, layout_append, hoperands]
    rfl

/-- The layout of a clean requirement is its written form. -/
theorem layout_lexemes {t : Requirement} (hc : ∀ c ∈ t.leaves, c.Clean) :
    Token.layout t.lexemes = t.chars := by
  cases t with
  | leaf c => exact layout_leaf (hc c (by simp [Formula.leaves]))
  | node op operands =>
    exact layout_operandsLexemes op fun x hx =>
      layout_nestedLexemes fun c h => hc c (Formula.mem_leaves_node.mpr ⟨x, hx, h⟩)

theorem legible_operandsLexemes {op : Operator} {operands : List Requirement}
    (h : ∀ x ∈ operands, ∀ l ∈ nestedLexemes x, l.Legible) :
    ∀ l ∈ operandsLexemes op operands, l.Legible := by
  induction operands with
  | nil => simp [operandsLexemes]
  | cons x rest ih =>
    cases rest with
    | nil => exact h x List.mem_cons_self
    | cons y rest =>
      intro l hl
      have hblank : (Lexeme.blank ' ').Legible := by simp only [Lexeme.Legible]; decide
      rw [operandsLexemes_cons_cons] at hl
      simp only [List.mem_append, List.mem_cons] at hl
      rcases hl with hl | rfl | rfl | rfl | hl
      · exact h x List.mem_cons_self l hl
      · exact hblank
      · trivial
      · exact hblank
      · exact ih (fun z hz => h z (List.mem_cons_of_mem _ hz)) l hl

theorem legible_leafLexemes {c : Condition} (hc : c.Clean) : ∀ l ∈ leafLexemes c, l.Legible := by
  intro l hl
  by_cases h : c.name = ""
  · simp [leafLexemes, h] at hl
  · rw [leafLexemes, if_neg h, List.mem_singleton] at hl
    exact hl ▸ ⟨hc, h⟩

theorem legible_nestedLexemes {t : Requirement} (hc : ∀ c ∈ t.leaves, c.Clean) :
    ∀ l ∈ nestedLexemes t, l.Legible := by
  induction t using Formula.induction with
  | leaf c => exact legible_leafLexemes (hc c (by simp [Formula.leaves]))
  | node op operands ih =>
    intro l hl
    simp only [nestedLexemes, List.mem_cons, List.mem_append, List.not_mem_nil, or_false] at hl
    rcases hl with rfl | hl | rfl
    · trivial
    · exact legible_operandsLexemes (fun x hx => ih x hx fun c h =>
        hc c (Formula.mem_leaves_node.mpr ⟨x, hx, h⟩)) l hl
    · trivial

/-- The layout of a clean requirement is legible. -/
theorem legible_lexemes {t : Requirement} (hc : ∀ c ∈ t.leaves, c.Clean) :
    ∀ l ∈ t.lexemes, l.Legible := by
  cases t with
  | leaf c => exact legible_leafLexemes (hc c (by simp [Formula.leaves]))
  | node op operands =>
    exact legible_operandsLexemes fun x hx =>
      legible_nestedLexemes fun c h => hc c (Formula.mem_leaves_node.mpr ⟨x, hx, h⟩)

theorem isChain_operands {op : Operator} {operands : List Requirement}
    (h : ∀ x ∈ operands, (tokensOf (nestedLexemes x)).IsChain Token.Apart) :
    (tokensOf (operandsLexemes op operands)).IsChain Token.Apart := by
  induction operands with
  | nil => exact .nil
  | cons x rest ih =>
    cases rest with
    | nil => exact h x List.mem_cons_self
    | cons y rest =>
      rw [tokensOf_operands_cons_cons]
      refine List.isChain_append.mpr ⟨h x List.mem_cons_self, List.isChain_cons.mpr
        ⟨fun _ _ => trivial, ih fun z hz => h z (List.mem_cons_of_mem _ hz)⟩, ?_⟩
      intro a _ b hb
      cases hb
      match a with
      | .condition ⟨_, none⟩ | .condition ⟨_, some _⟩ | .operator _ | .paren _ => trivial

theorem isChain_leaf (c : Condition) : (tokensOf (leafLexemes c)).IsChain Token.Apart := by
  by_cases h : c.name = ""
  · simp [leafLexemes, h]
  · simp [leafLexemes, h, Lexeme.token?]

theorem isChain_nested (t : Requirement) :
    (tokensOf (nestedLexemes t)).IsChain Token.Apart := by
  induction t using Formula.induction with
  | leaf c => exact isChain_leaf c
  | node op operands ih =>
    rw [tokensOf_nested_node]
    refine List.isChain_cons.mpr ⟨fun _ _ => trivial, List.isChain_append.mpr
      ⟨isChain_operands ih, .singleton _, ?_⟩⟩
    intro a _ b hb
    cases hb
    match a with
    | .condition ⟨_, none⟩ | .condition ⟨_, some _⟩ | .operator _ | .paren _ => trivial

/-- Neighbouring tokens of a written requirement stay apart. -/
theorem isChain_lexemes (t : Requirement) : (tokensOf t.lexemes).IsChain Token.Apart := by
  cases t with
  | leaf c => exact isChain_leaf c
  | node op operands => exact isChain_operands fun x _ => isChain_nested x

/-! ## Reading a written requirement -/

/-- Reading the operand gives its normal form as a term, whatever is pending and
whatever follows. -/
def ReadsNormal (t : Requirement) : Prop :=
  ∀ pending outer position rest, ∃ position',
    readTerm pending outer position (tokensOf (nestedLexemes t) ++ rest) =
      readOn (pending.complete t.normal) outer position' rest

theorem readTerm_operandsLexemes (op : Operator) {first : Requirement} {others : List Requirement}
    (hf : ReadsNormal first) (ho : ∀ x ∈ others, ReadsNormal x) (pending : Pending)
    (outer : List Pending) (position : Nat) (rest : List Token) :
    ∃ position', readTerm pending outer position
        (tokensOf (operandsLexemes op (first :: others)) ++ rest) =
      readOn (Formula.foldNormal op (pending.complete first.normal) others) outer position'
        rest := by
  induction others generalizing first pending position with
  | nil => exact hf pending outer position rest
  | cons second others ih =>
    rw [tokensOf_operands_cons_cons, List.append_assoc, List.cons_append]
    -- After the first operand the reader has it pending, together with the operator.
    obtain ⟨p₁, h₁⟩ := hf pending outer position
      (.operator op :: (tokensOf (operandsLexemes op (second :: others)) ++ rest))
    obtain ⟨p₂, h₂⟩ := ih (ho second List.mem_cons_self)
      (fun x hx => ho x (List.mem_cons_of_mem _ hx))
      (some (pending.complete first.normal, op)) (p₁ + 1)
    refine ⟨p₂, ?_⟩
    rw [h₁, readOn, h₂]
    rfl

/-- **Reading a written operand.** -/
theorem readsNormal {t : Requirement} (ht : t.Filled) (hn : ∀ c ∈ t.leaves, c.name ≠ "") :
    ReadsNormal t := by
  induction ht with
  | leaf c =>
    intro pending outer position rest
    have hc : c.name ≠ "" := hn c (by simp [Formula.leaves])
    refine ⟨position + 1, ?_⟩
    simp [nestedLexemes, leafLexemes, hc, Lexeme.token?, readTerm, Formula.normal]
  | @node op first others _ _ ihf iho =>
    intro pending outer position rest
    have hnamed : ∀ x ∈ first :: others, ∀ c ∈ Formula.leaves x, c.name ≠ "" :=
      fun x hx c hc => hn c (Formula.mem_leaves_node.mpr ⟨x, hx, hc⟩)
    obtain ⟨position', h⟩ := readTerm_operandsLexemes op
      (ihf (hnamed first List.mem_cons_self))
      (fun x hx => iho x hx (hnamed x (List.mem_cons_of_mem _ hx)))
      none (pending :: outer) (position + 1) (.paren .closing :: rest)
    refine ⟨position' + 1, ?_⟩
    rw [tokensOf_nested_node, List.cons_append, readTerm, List.append_assoc,
      List.singleton_append, h, readOn]
    rfl

/-- No term begins here: the tokens end, or an operator or a closing parenthesis comes. -/
def NoTerm (tokens : List Token) : Prop :=
  ∀ t ∈ tokens.head?, t = .paren .closing ∨ ∃ op, t = .operator op

theorem readTerm_of_noTerm {tokens : List Token} (h : NoTerm tokens) (pending : Pending)
    (outer : List Pending) (position : Nat) :
    ∃ e, readTerm pending outer position tokens = .error e := by
  cases tokens with
  | nil => exact ⟨_, rfl⟩
  | cons t rest =>
    rcases h t rfl with rfl | ⟨op, rfl⟩
    · exact ⟨_, rfl⟩
    · exact ⟨_, rfl⟩

/-- Reading the operand fails where no term begins behind it. -/
def ReadsError (t : Requirement) : Prop :=
  ∀ pending outer position rest, NoTerm rest →
    ∃ e, readTerm pending outer position (tokensOf (nestedLexemes t) ++ rest) = .error e

theorem readTerm_operands_nameless (op : Operator) {first : Requirement}
    {others : List Requirement}
    (hnamed : ∀ x ∈ first :: others, (∀ c ∈ x.leaves, c.name ≠ "") → ReadsNormal x)
    (herror : ∀ x ∈ first :: others, (∃ c ∈ x.leaves, c.name = "") → ReadsError x)
    (h : ∃ x ∈ first :: others, ∃ c ∈ x.leaves, c.name = "") (pending : Pending)
    (outer : List Pending) (position : Nat) {rest : List Token} (hrest : NoTerm rest) :
    ∃ e, readTerm pending outer position
      (tokensOf (operandsLexemes op (first :: others)) ++ rest) = .error e := by
  induction others generalizing first pending position with
  | nil =>
    obtain ⟨x, hx, hc⟩ := h
    obtain rfl := List.mem_singleton.mp hx
    exact herror x List.mem_cons_self hc pending outer position rest hrest
  | cons second others ih =>
    rw [tokensOf_operands_cons_cons, List.append_assoc, List.cons_append]
    have hbehind : NoTerm (.operator op ::
        (tokensOf (operandsLexemes op (second :: others)) ++ rest)) := by
      rintro t ⟨⟩
      exact .inr ⟨op, rfl⟩
    by_cases hfirst : ∃ c ∈ first.leaves, c.name = ""
    · exact herror first List.mem_cons_self hfirst pending outer position _ hbehind
    · -- The first operand is read, so the missing name is in a later one.
      have hall : ∀ c ∈ first.leaves, c.name ≠ "" := fun c hc hn => hfirst ⟨c, hc, hn⟩
      obtain ⟨p₁, h₁⟩ := hnamed first List.mem_cons_self hall pending outer position
        (.operator op :: (tokensOf (operandsLexemes op (second :: others)) ++ rest))
      obtain ⟨x, hx, hc⟩ := h
      have hx' : x ∈ second :: others := by
        rcases List.mem_cons.mp hx with rfl | hx
        · exact absurd hc hfirst
        · exact hx
      rw [h₁, readOn]
      exact ih (fun y hy => hnamed y (List.mem_cons_of_mem _ hy))
        (fun y hy => herror y (List.mem_cons_of_mem _ hy)) ⟨x, hx', hc⟩ _ _

/-- **Reading misses a term where a condition has no name.** -/
theorem readsError {t : Requirement} (ht : t.Filled) (hn : ∃ c ∈ t.leaves, c.name = "") :
    ReadsError t := by
  induction ht with
  | leaf c =>
    intro pending outer position rest hrest
    -- A condition without a name leaves no token, so the reader sees what follows it.
    obtain ⟨d, hd, hname⟩ := hn
    obtain rfl : d = c := by simpa [Formula.leaves] using hd
    simpa [nestedLexemes, leafLexemes, hname] using
      readTerm_of_noTerm hrest pending outer position
  | @node op first others hf ho ihf iho =>
    intro pending outer position rest hrest
    obtain ⟨c, hc, hname⟩ := hn
    obtain ⟨x, hx, hcx⟩ := Formula.mem_leaves_node.mp hc
    have hfilled : ∀ y ∈ first :: others, y.Filled := by
      intro y hy
      rcases List.mem_cons.mp hy with rfl | hy
      · exact hf
      · exact ho y hy
    have herror : ∀ y ∈ first :: others, (∃ c ∈ y.leaves, c.name = "") → ReadsError y := by
      intro y hy
      rcases List.mem_cons.mp hy with rfl | hy
      · exact ihf
      · exact iho y hy
    have hclosing : NoTerm (.paren .closing :: rest) := by
      rintro t ⟨⟩
      exact .inl rfl
    obtain ⟨e, he⟩ := readTerm_operands_nameless op
      (fun y hy => readsNormal (hfilled y hy)) herror ⟨x, hx, c, hcx, hname⟩ none
      (pending :: outer) (position + 1) hclosing
    refine ⟨e, ?_⟩
    rw [tokensOf_nested_node, List.cons_append, readTerm, List.append_assoc,
      List.singleton_append, he]

end Requirement

end Hydration
