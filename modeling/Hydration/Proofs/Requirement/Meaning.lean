import Hydration.Proofs.Requirement.Counter

/-!
# What tokens mean

Given the truth values of conditions, tokens have a truth value without any tree being
built.  All operators have equal precedence and are carried out strictly from the left, and
a group counts as its value: this is `Token.Evaluates`, for tokens in which every group is
closed.  Where groups are left open they extend to the last token (`Token.closed`).

The reader keeps the meaning of the tokens it takes (`evaluates_of_ofTokens`).  What it has on its
stack are the values of the tokens before, group by group (`Spells`); joining a term to what
is pending is carrying out one operator, whether the tree is extended or wrapped
(`Formula.value_join`).  Conversely, tokens that have a value are read to the end and the
requirement has this value (`ofTokens_of_evaluates`), so no tokens have two values.

The conditions of a requirement are those of the tokens taken, in their order
(`leaves_of_ofTokens`).
-/

namespace Hydration

/-! ## Values of tokens -/

/-- What an operator makes of two truth values. -/
def Operator.apply : Operator → Bool → Bool → Bool
  | .and, a, b => a && b
  | .or, a, b => a || b

namespace Token

mutual

/-- **The value of tokens** when `truth` gives the values of conditions: that of a term, or
what an operator makes of all tokens on its left and the term on its right. -/
inductive Evaluates (truth : Condition → Bool) : List Token → Bool → Prop where
  | term {tokens : List Token} {v : Bool} (h : EvaluatesTerm truth tokens v) :
      Evaluates truth tokens v
  | operator {left right : List Token} {a b : Bool} (op : Operator)
      (hl : Evaluates truth left a) (hr : EvaluatesTerm truth right b) :
      Evaluates truth (left ++ .operator op :: right) (op.apply a b)

/-- The value of a term: a condition, or a group. -/
inductive EvaluatesTerm (truth : Condition → Bool) : List Token → Bool → Prop where
  | condition (c : Condition) : EvaluatesTerm truth [.condition c] (truth c)
  | group {tokens : List Token} {v : Bool} (h : Evaluates truth tokens v) :
      EvaluatesTerm truth (.paren .opening :: (tokens ++ [.paren .closing])) v

end

/-- How many groups are open at the end of the tokens. -/
def openGroups (tokens : List Token) : Nat :=
  tokens.count (.paren .opening) - tokens.count (.paren .closing)

/-- The tokens with every open group closed at their end. -/
def closed (tokens : List Token) : List Token :=
  tokens ++ List.replicate (openGroups tokens) (.paren .closing)

/-- The condition of a token. -/
def condition? : Token → Option Condition
  | .condition c => some c
  | _ => none

/-- The conditions among the tokens from left to right. -/
def conditions (tokens : List Token) : List Condition :=
  tokens.filterMap condition?

@[simp] theorem conditions_condition (c : Condition) (tokens : List Token) :
    conditions (.condition c :: tokens) = c :: conditions tokens := rfl

@[simp] theorem conditions_paren (side : Side) (tokens : List Token) :
    conditions (.paren side :: tokens) = conditions tokens := rfl

@[simp] theorem conditions_operator (op : Operator) (tokens : List Token) :
    conditions (.operator op :: tokens) = conditions tokens := rfl

theorem conditions_append (xs ys : List Token) :
    conditions (xs ++ ys) = conditions xs ++ conditions ys :=
  List.filterMap_append

variable {truth : Condition → Bool} {tokens : List Token} {v : Bool}

mutual

/-- In tokens with a value every group is closed. -/
theorem Evaluates.balanced {tokens : List Token} {v : Bool} (h : Evaluates truth tokens v) :
    tokens.count (.paren .opening) = tokens.count (.paren .closing) :=
  match h with
  | .term ht => ht.balanced
  | .operator op hl hr => by
    have hleft := hl.balanced
    have hright := hr.balanced
    simp only [List.count_append, List.count_cons, hleft, hright]
    rfl
termination_by structural h

theorem EvaluatesTerm.balanced {tokens : List Token} {v : Bool} (h : EvaluatesTerm truth tokens v) :
    tokens.count (.paren .opening) = tokens.count (.paren .closing) :=
  match h with
  | .condition c => rfl
  | .group hg => by
    have hinner := hg.balanced
    simp only [List.count_append, List.count_cons, List.count_nil, hinner]
    rfl
termination_by structural h

end

/-- If closing `k` groups gives the tokens a value, these are all groups that are open. -/
theorem Evaluates.closed {k : Nat}
    (h : Evaluates truth (tokens ++ List.replicate k (.paren .closing)) v) :
    Evaluates truth (Token.closed tokens) v := by
  have hbalanced := h.balanced
  have hopening : (List.replicate k (Token.paren .closing)).count (.paren .opening) = 0 := by
    rw [List.count_replicate]
    rfl
  rw [List.count_append, List.count_append, hopening, List.count_replicate_self] at hbalanced
  have hk : openGroups tokens = k := by
    rw [openGroups]
    omega
  rw [Token.closed, hk]
  exact h

end Token

/-! ## Values of trees -/

namespace Formula

variable {α : Type} {truth : α → Bool}

theorem everyValue_append (xs ys : List (Formula α)) :
    everyValue truth (xs ++ ys) = (everyValue truth xs && everyValue truth ys) := by
  induction xs with
  | nil => simp [everyValue]
  | cons x xs ih => simp [everyValue, ih, Bool.and_assoc]

theorem someValue_append (xs ys : List (Formula α)) :
    someValue truth (xs ++ ys) = (someValue truth xs || someValue truth ys) := by
  induction xs with
  | nil => simp [someValue]
  | cons x xs ih => simp [someValue, ih, Bool.or_assoc]

/-- One more operand counts as the operator does. -/
theorem value_append (op : Operator) (operands : List (Formula α)) (x : Formula α) :
    (node op (operands ++ [x])).value truth =
      op.apply ((node op operands).value truth) (x.value truth) := by
  cases op with
  | and => simp [value, everyValue_append, everyValue, Operator.apply]
  | or => simp [value, someValue_append, someValue, Operator.apply]

theorem value_pair (op : Operator) (left right : Formula α) :
    (node op [left, right]).value truth = op.apply (left.value truth) (right.value truth) := by
  cases op with
  | and => simp [value, everyValue, Operator.apply]
  | or => simp [value, someValue, Operator.apply]

/-- **Joining carries out the operator**, whether it extends the tree on the left or wraps it. -/
theorem value_join (op : Operator) (left right : Formula α) :
    (join op left right).value truth = op.apply (left.value truth) (right.value truth) := by
  cases left with
  | leaf a => exact value_pair op (leaf a) right
  | node op' operands =>
    rw [join]
    split
    · next h =>
      subst h
      exact value_append op' operands right
    · exact value_pair op (node op' operands) right

theorem value_wrap (t : Formula α) : t.wrap.value truth = t.value truth := by
  cases t with
  | leaf a => simp [wrap, value, everyValue]
  | node op operands => rfl

end Formula

namespace Requirement

open Token (Evaluates EvaluatesTerm conditions)

/-! ## Reading keeps the value -/

section Value

variable {truth : Condition → Bool} {before tokens left : List Token} {pending : Pending}
  {outer : List Pending} {t value : Requirement}

/-- **What is pending spells the tokens before it**: nothing, or an operand with its operator. -/
inductive Pending.Spells (truth : Condition → Bool) : Pending → List Token → Prop where
  | nothing : Pending.Spells truth none []
  | operand {left : Requirement} {tokens : List Token} (op : Operator)
      (h : Evaluates truth tokens (left.value truth)) :
      Pending.Spells truth (some (left, op)) (tokens ++ [.operator op])

/-- **The open groups spell the tokens before the innermost of them**: behind each that is
pending a group is opened. -/
inductive Spells (truth : Condition → Bool) : List Pending → List Token → Prop where
  | nil : Spells truth [] []
  | cons {pending : Pending} {outer : List Pending} {tokens tokens' : List Token}
      (ho : Spells truth outer tokens) (hp : pending.Spells truth tokens') :
      Spells truth (pending :: outer) (tokens ++ tokens' ++ [.paren .opening])

theorem Pending.Spells.complete (hp : pending.Spells truth before) {term : Requirement}
    (h : EvaluatesTerm truth tokens (term.value truth)) :
    Evaluates truth (before ++ tokens) ((pending.complete term).value truth) := by
  cases hp with
  | nothing => exact .term h
  | operand op hl =>
    rw [List.append_assoc, List.singleton_append, Pending.complete, Formula.value_join]
    exact .operator op hl h

/-- When all open groups are closed the stack comes to one value. -/
theorem evaluates_closeAll (ho : Spells truth outer before)
    (h : Evaluates truth tokens (value.value truth)) :
    Evaluates truth (before ++ tokens ++ List.replicate outer.length (.paren .closing))
      ((closeAll value outer).value truth) := by
  induction ho generalizing tokens value with
  | nil => simpa [closeAll] using h
  | @cons pending outer first second ho hp ih =>
    have hgroup := ih (hp.complete (.group h))
    simpa [closeAll, List.replicate_succ] using hgroup

/-- **Reading keeps the value** of the tokens it takes. -/
theorem evaluates_of_ofTokens (truth : Condition → Bool)
    (h : ofTokens tokens = .ok (t, left)) : ∃ taken, tokens = taken ++ left ∧
      Evaluates truth (Token.closed taken) (t.value truth) := by
  -- The tokens before are those on the stack, `before`, and those of the innermost group.
  have hread := (read_rec (t := t)
    (fun pending outer tokens => ∀ before inner, Spells truth outer before →
      pending.Spells truth inner → ∃ taken k, tokens = taken ++ left ∧
        Evaluates truth (before ++ inner ++ taken ++ List.replicate k (.paren .closing))
          (t.value truth))
    (fun value outer tokens => ∀ before inner, Spells truth outer before →
      Evaluates truth inner (value.value truth) → ∃ taken k, tokens = taken ++ left ∧
        Evaluates truth (before ++ inner ++ taken ++ List.replicate k (.paren .closing))
          (t.value truth))
    ?_ ?_ ?_ ?_ ?_ tokens).1 none [] 0 h [] [] .nil .nothing
  · obtain ⟨taken, k, htokens, hvalue⟩ := hread
    exact ⟨taken, htokens, Token.Evaluates.closed (by simpa using hvalue)⟩
  · intro pending outer rest ih before inner ho hp
    obtain ⟨taken, k, rfl, hvalue⟩ := ih _ [] (ho.cons hp) .nothing
    exact ⟨_ :: taken, k, rfl, by simpa using hvalue⟩
  · intro pending outer c rest ih before inner ho hp
    obtain ⟨taken, k, rfl, hvalue⟩ := ih before _ ho (hp.complete (.condition c))
    exact ⟨_ :: taken, k, rfl, by simpa using hvalue⟩
  · intro value outer op rest ih before inner ho hv
    obtain ⟨taken, k, rfl, hvalue⟩ := ih before _ ho (.operand op hv)
    exact ⟨_ :: taken, k, rfl, by simpa using hvalue⟩
  · intro value pending outer rest ih before inner ho hv
    cases ho with
    | @cons _ _ first second ho hp =>
      -- The group is a term now, with its parentheses.
      obtain ⟨taken, k, rfl, hvalue⟩ := ih first _ ho (hp.complete (.group hv))
      exact ⟨_ :: taken, k, rfl, by simpa using hvalue⟩
  · rintro value outer rfl before inner ho hv
    exact ⟨[], outer.length, rfl, by simpa using evaluates_closeAll ho hv⟩

/-! ## Tokens with a value are read -/

/-- Reading the tokens gives a term with the value, whatever is pending and whatever follows. -/
def ReadsTerm (truth : Condition → Bool) (tokens : List Token) (v : Bool) : Prop :=
  ∃ x : Requirement, x.value truth = v ∧ ∀ pending outer i rest, ∃ i',
    readTerm pending outer i (tokens ++ rest) = readOn (pending.complete x) outer i' rest

/-- Reading the tokens at the head of a group gives a requirement with the value, whatever
follows. -/
def ReadsGroup (truth : Condition → Bool) (tokens : List Token) (v : Bool) : Prop :=
  ∃ x : Requirement, x.value truth = v ∧ ∀ outer i rest, ∃ i',
    readTerm none outer i (tokens ++ rest) = readOn x outer i' rest

theorem ReadsTerm.readsGroup {v : Bool} (h : ReadsTerm truth tokens v) :
    ReadsGroup truth tokens v := by
  obtain ⟨x, hx, hread⟩ := h
  exact ⟨x, hx, hread none⟩

theorem ReadsGroup.operator {left right : List Token} {a b : Bool} (op : Operator)
    (hl : ReadsGroup truth left a) (hr : ReadsTerm truth right b) :
    ReadsGroup truth (left ++ .operator op :: right) (op.apply a b) := by
  obtain ⟨x, rfl, hx⟩ := hl
  obtain ⟨y, rfl, hy⟩ := hr
  refine ⟨Formula.join op x y, Formula.value_join op x y, fun outer i rest => ?_⟩
  obtain ⟨i₁, h₁⟩ := hx outer i (.operator op :: (right ++ rest))
  obtain ⟨i₂, h₂⟩ := hy (some (x, op)) outer (i₁ + 1) rest
  refine ⟨i₂, ?_⟩
  rw [List.append_assoc, List.cons_append, h₁, readOn, h₂]
  rfl

theorem ReadsGroup.group {v : Bool} (h : ReadsGroup truth tokens v) :
    ReadsTerm truth (.paren .opening :: (tokens ++ [.paren .closing])) v := by
  obtain ⟨x, hx, hread⟩ := h
  refine ⟨x, hx, fun pending outer i rest => ?_⟩
  obtain ⟨i', h⟩ := hread (pending :: outer) (i + 1) (.paren .closing :: rest)
  refine ⟨i' + 1, ?_⟩
  rw [List.cons_append, readTerm, List.append_assoc, List.singleton_append, h, readOn]

mutual

theorem readsGroup {tokens : List Token} {v : Bool} (h : Evaluates truth tokens v) :
    ReadsGroup truth tokens v :=
  match h with
  | .term ht => (readsTerm ht).readsGroup
  | .operator op hl hr => (readsGroup hl).operator op (readsTerm hr)
termination_by structural h

theorem readsTerm {tokens : List Token} {v : Bool} (h : EvaluatesTerm truth tokens v) :
    ReadsTerm truth tokens v :=
  match h with
  | .condition c => ⟨.leaf c, rfl, fun _ _ i _ => ⟨i + 1, rfl⟩⟩
  | .group hg => (readsGroup hg).group
termination_by structural h

end

/-- **Tokens with a value are read to the end**, and what is read has the value. -/
theorem ofTokens_of_evaluates {v : Bool} (h : Evaluates truth tokens v) :
    ∃ t, ofTokens tokens = .ok (t, []) ∧ t.value truth = v := by
  obtain ⟨x, hx, hread⟩ := readsGroup h
  obtain ⟨i, h⟩ := hread [] 0 []
  rw [List.append_nil] at h
  exact ⟨x, h, hx⟩

/-- **The value of tokens is one.** -/
theorem evaluates_unique {v w : Bool} (hv : Evaluates truth tokens v)
    (hw : Evaluates truth tokens w) : v = w := by
  obtain ⟨t, ht, rfl⟩ := ofTokens_of_evaluates hv
  obtain ⟨t', ht', rfl⟩ := ofTokens_of_evaluates hw
  rw [ht] at ht'
  cases ht'
  rfl

end Value

/-! ## Reading keeps the conditions -/

section Conditions

variable {tokens left : List Token} {t : Requirement}

/-- The conditions of what is pending. -/
def Pending.leaves : Pending → List Condition
  | none => []
  | some (left, _) => left.leaves

/-- The conditions of all open groups, the innermost last. -/
def stackLeaves : List Pending → List Condition
  | [] => []
  | pending :: outer => stackLeaves outer ++ pending.leaves

theorem leaves_complete (pending : Pending) (term : Requirement) :
    (pending.complete term).leaves = pending.leaves ++ term.leaves := by
  match pending with
  | none => rfl
  | some (left, op) => exact Formula.leaves_join op left term

theorem leaves_closeAll (value : Requirement) (outer : List Pending) :
    (closeAll value outer).leaves = stackLeaves outer ++ value.leaves := by
  induction outer generalizing value with
  | nil => rfl
  | cons pending outer ih =>
    show (closeAll (pending.complete value) outer).leaves = _
    rw [ih, leaves_complete, stackLeaves, List.append_assoc]

/-- A reading loses no condition, and adds and moves none. -/
theorem leaves_append_of_ofTokens (h : ofTokens tokens = .ok (t, left)) :
    t.leaves ++ conditions left = conditions tokens := by
  refine (read_rec (t := t)
    (fun pending outer tokens => t.leaves ++ conditions left =
      stackLeaves outer ++ pending.leaves ++ conditions tokens)
    (fun value outer tokens => t.leaves ++ conditions left =
      stackLeaves outer ++ value.leaves ++ conditions tokens)
    ?_ ?_ ?_ ?_ ?_ tokens).1 none [] 0 h
  · intro pending outer rest ih
    simpa [stackLeaves, Pending.leaves] using ih
  · intro pending outer c rest ih
    simpa [leaves_complete, Formula.leaves] using ih
  · intro value outer op rest ih
    simpa [Pending.leaves] using ih
  · intro value pending outer rest ih
    simpa [leaves_complete, stackLeaves] using ih
  · rintro value outer rfl
    rw [leaves_closeAll]

/-- **Reading keeps the conditions** of the tokens it takes, in their order. -/
theorem leaves_of_ofTokens {taken : List Token}
    (h : ofTokens (taken ++ left) = .ok (t, left)) : t.leaves = conditions taken := by
  have hleaves := leaves_append_of_ofTokens h
  rw [Token.conditions_append] at hleaves
  exact List.append_cancel_right hleaves

end Conditions

/-! ## What a text means -/

/-- **What is read means what is written.**  A requirement that was read has the conditions of the
tokens it took, in their order, and for all truth values of conditions the value of these
tokens, with groups that were left open closed at the end.  In particular an operand that joins
a group with the same operator counts as if the group were kept. -/
theorem meaning_of_parse {s : String} {t : Requirement} (h : parse s = .ok t) :
    (∃ taken left u, Token.scan s = taken ++ left ∧ ofTokens (Token.scan s) = .ok (u, left) ∧
      t = u.wrap ∧ t.leaves = conditions taken ∧
      ∀ truth v, Evaluates truth (Token.closed taken) v ↔ t.value truth = v) ∧
    ∀ truth op (group : List Requirement) (x : Requirement),
      (Formula.join op (.node op group) x).value truth =
        (Formula.node op [.node op group, x]).value truth := by
  obtain ⟨u, left, hu, rfl⟩ := ofTokens_of_parse h
  obtain ⟨taken, htokens, -⟩ := evaluates_of_ofTokens (fun _ => true) hu
  refine ⟨⟨taken, left, u, htokens, hu, rfl, ?_, fun truth v => ?_⟩, fun truth op group x => ?_⟩
  · rw [Formula.leaves_wrap]
    exact leaves_of_ofTokens (htokens ▸ hu)
  · -- What is left of the tokens says which were taken, whatever the truth values are.
    obtain ⟨taken', htokens', hvalue⟩ := evaluates_of_ofTokens truth hu
    obtain rfl : taken = taken' := List.append_cancel_right (htokens.symm.trans htokens')
    rw [Formula.value_wrap]
    constructor
    · exact evaluates_unique hvalue
    · rintro rfl
      exact hvalue
  · rw [Formula.value_join, Formula.value_pair]

/-- An operand joins a group with the same operator, a group is left open, and a condition is left
over. -/
theorem meaning_of_parse_open_group : ∃ t taken,
    parse "(a || b) || (c && (d) e" = .ok t ∧
      Token.scan "(a || b) || (c && (d) e" = taken ++ [.condition ⟨"e", none⟩] ∧
      t.leaves = conditions taken ∧
      ∀ truth v, Evaluates truth (Token.closed taken) v ↔ t.value truth = v := by
  have hscan : Token.scan "(a || b) || (c && (d) e" =
      [.paren .opening, .condition ⟨"a", none⟩, .operator .or, .condition ⟨"b", none⟩,
        .paren .closing, .operator .or, .paren .opening, .condition ⟨"c", none⟩, .operator .and,
        .paren .opening, .condition ⟨"d", none⟩, .paren .closing, .condition ⟨"e", none⟩] := by
    decide +kernel
  have hread : ofTokens (Token.scan "(a || b) || (c && (d) e") = .ok (.node .or [condition "a",
      condition "b", .node .and [condition "c", condition "d"]], [.condition ⟨"e", none⟩]) := by
    rw [hscan]
    rfl
  have hparse := parse_of_ofTokens _ (by decide +kernel) hread
  obtain ⟨⟨taken, left, u, htokens, hu, -, hleaves, hvalue⟩, -⟩ := meaning_of_parse hparse
  rw [hread] at hu
  cases hu
  exact ⟨_, taken, hparse, htokens, hleaves, hvalue⟩

end Requirement

end Hydration
