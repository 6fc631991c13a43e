import Hydration.Requirement.Basic

/-!
# Formulas

Induction on formulas, where the operands of a node stand in a list, and the shape
that joining keeps.

**Folded formulas.**  Joining operands from the left gives nodes with at least two
operands whose first operand is not a node with the same operator (`Folded`).
`Formula.normal` folds any formula in this way, and a folded one is left as it is
(`Folded.normal_eq`).

**Parts** of a formula are the formula, its operands and theirs (`Part`).  What is folded has
folded parts (`Folded.part`).
-/

namespace Hydration

namespace Formula

variable {α : Type}

/-- Induction on a formula, with the hypothesis for each operand of a node. -/
@[elab_as_elim]
theorem induction {motive : Formula α → Prop} (leaf : ∀ a, motive (leaf a))
    (node : ∀ op operands, (∀ x ∈ operands, motive x) → motive (node op operands))
    (t : Formula α) : motive t := by
  refine @Formula.rec α motive (fun operands => ∀ x ∈ operands, motive x) leaf node ?_ ?_ t
  · intro x hx
    cases hx
  · intro x rest hx hrest y hy
    rcases List.mem_cons.mp hy with rfl | hy
    · exact hx
    · exact hrest y hy

theorem mem_leavesAll {a : α} {operands : List (Formula α)} :
    a ∈ leavesAll operands ↔ ∃ x ∈ operands, a ∈ x.leaves := by
  induction operands with
  | nil => simp [leavesAll]
  | cons x xs ih => simp [leavesAll, ih]

theorem mem_leaves_node {a : α} {op : Operator} {operands : List (Formula α)} :
    a ∈ (node op operands).leaves ↔ ∃ x ∈ operands, a ∈ x.leaves := by
  rw [leaves, mem_leavesAll]

theorem sublist_leavesAll {x : Formula α} {operands : List (Formula α)} (h : x ∈ operands) :
    x.leaves.Sublist (leavesAll operands) := by
  induction operands with
  | nil => cases h
  | cons y ys ih =>
    rw [leavesAll]
    rcases List.mem_cons.mp h with rfl | h
    · exact List.sublist_append_left _ _
    · exact (ih h).trans (List.sublist_append_right _ _)

/-! ## Parts -/

/-- A formula and everything inside it. -/
inductive Part (u : Formula α) : Formula α → Prop where
  | refl : Part u u
  | operand {op : Operator} {operands : List (Formula α)} {x : Formula α} :
      x ∈ operands → Part u x → Part u (node op operands)

/-- The leaves of a part are leaves of the whole. -/
theorem Part.mem_leaves {u t : Formula α} (h : u.Part t) {a : α} (ha : a ∈ u.leaves) :
    a ∈ t.leaves := by
  induction h with
  | refl => exact ha
  | operand hx _ ih => exact mem_leaves_node.mpr ⟨_, hx, ih⟩

/-! ## Folding -/

/-- The operator at the root. -/
def operator? : Formula α → Option Operator
  | leaf _ => none
  | node op _ => some op

/-- Every node has an operand. -/
inductive Filled : Formula α → Prop where
  | leaf (a : α) : Filled (leaf a)
  | node (op : Operator) {first : Formula α} {rest : List (Formula α)} :
      Filled first → (∀ x ∈ rest, Filled x) → Filled (node op (first :: rest))

/-- **The shape that joining keeps.**  Every node has at least two operands, and the first
is not a node with the same operator. -/
inductive Folded : Formula α → Prop where
  | leaf (a : α) : Folded (leaf a)
  | node (op : Operator) {first second : Formula α} {rest : List (Formula α)} :
      Folded first → first.operator? ≠ some op → Folded second → (∀ x ∈ rest, Folded x) →
      Folded (node op (first :: second :: rest))

/-- A part of a folded formula is folded. -/
theorem Folded.part {t u : Formula α} (h : t.Folded) (hu : u.Part t) : u.Folded := by
  induction hu with
  | refl => exact h
  | operand hx _ ih =>
    cases h with
    | node op hf _ hs hr =>
      rcases List.mem_cons.mp hx with rfl | hx
      · exact ih hf
      · rcases List.mem_cons.mp hx with rfl | hx
        · exact ih hs
        · exact ih (hr _ hx)

theorem Folded.filled {t : Formula α} (h : t.Folded) : t.Filled := by
  induction h with
  | leaf a => exact .leaf a
  | node op _ _ _ _ ihf ihs ihr =>
    refine .node op ihf fun x hx => ?_
    rcases List.mem_cons.mp hx with rfl | hx
    · exact ihs
    · exact ihr x hx

theorem Folded.join {op : Operator} {left right : Formula α} (hl : left.Folded)
    (hr : right.Folded) : (Formula.join op left right).Folded := by
  cases hl with
  | leaf a => exact .node op (.leaf a) (by simp [operator?]) hr (by simp)
  | @node op' first second rest hf hne hs hrest =>
    by_cases h : op' = op
    · subst h
      have happ : ∀ x ∈ rest ++ [right], x.Folded := by
        intro x hx
        rcases List.mem_append.mp hx with hx | hx
        · exact hrest x hx
        · rw [List.mem_singleton.mp hx]; exact hr
      simpa [Formula.join] using Folded.node op' hf hne hs happ
    · rw [Formula.join, if_neg h]
      exact .node op (.node op' hf hne hs hrest) (by simpa [operator?] using h) hr (by simp)

mutual

/-- The formula with every node folded from the left by joining. -/
def normal : Formula α → Formula α
  | leaf a => leaf a
  | node op [] => node op []
  | node op (first :: rest) => foldNormal op first.normal rest

/-- The operands joined one by one to `left`. -/
def foldNormal (op : Operator) (left : Formula α) : List (Formula α) → Formula α
  | [] => left
  | operand :: rest => foldNormal op (join op left operand.normal) rest

end

theorem foldNormal_node {op : Operator} {operands rest : List (Formula α)}
    (h : ∀ x ∈ rest, x.normal = x) :
    foldNormal op (node op operands) rest = node op (operands ++ rest) := by
  induction rest generalizing operands with
  | nil => simp [foldNormal]
  | cons x xs ih =>
    have hx : x.normal = x := h x List.mem_cons_self
    rw [foldNormal, hx, join, if_pos rfl, ih fun y hy => h y (List.mem_cons_of_mem _ hy)]
    simp

/-- A folded formula is left as it is. -/
theorem Folded.normal_eq {t : Formula α} (h : t.Folded) : t.normal = t := by
  induction h with
  | leaf a => rfl
  | @node op first second rest _ hne _ _ ihf ihs ihr =>
    have hjoin : Formula.join op first second = Formula.node op [first, second] := by
      cases first with
      | leaf a => rfl
      | node op' operands =>
        rw [Formula.join, if_neg (by simpa [operator?] using hne)]
    rw [normal, ihf, foldNormal, ihs, hjoin, foldNormal_node ihr]
    rfl

end Formula

end Hydration
