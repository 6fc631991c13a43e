import Hydration.Proofs.Requirement.Meaning
import Hydration.Proofs.Requirement.RoundTrip

/-!
# Requirements that have not been read

A requirement that is put together directly need not have the shape that reading gives: a
node may have a single operand, or a first operand with its own operator.  Written and read
back it comes out in its normal form, in which the operands of every node are joined from the
left (`normal_node`).  The normal form has the same conditions in the same order, and it is
true under the same circumstances (`parse_text_normal`).
-/

namespace Hydration

namespace Formula

variable {α : Type} {truth : α → Bool} {op : Operator}

theorem foldNormal_eq_foldl (op : Operator) (left : Formula α) (rest : List (Formula α)) :
    foldNormal op left rest = (rest.map normal).foldl (join op) left := by
  induction rest generalizing left with
  | nil => rfl
  | cons x rest ih => rw [foldNormal, ih, List.map_cons, List.foldl_cons]

/-- **The normal form of a node**: the normal forms of its operands, joined from the left. -/
theorem normal_node (op : Operator) (first : Formula α) (rest : List (Formula α)) :
    (node op (first :: rest)).normal = (rest.map normal).foldl (join op) first.normal := by
  rw [normal, foldNormal_eq_foldl]

/-! ## Leaves -/

theorem leaves_foldl_join (left : Formula α) (operands : List (Formula α)) :
    (operands.foldl (join op) left).leaves = left.leaves ++ leavesAll operands := by
  induction operands generalizing left with
  | nil => rw [List.foldl_nil, leavesAll, List.append_nil]
  | cons x operands ih => rw [List.foldl_cons, ih, leaves_join, leavesAll, List.append_assoc]

theorem leavesAll_map {f : Formula α → Formula α} {operands : List (Formula α)}
    (h : ∀ x ∈ operands, (f x).leaves = x.leaves) :
    leavesAll (operands.map f) = leavesAll operands := by
  induction operands with
  | nil => rfl
  | cons x operands ih =>
    have hx := h x List.mem_cons_self
    have hrest := ih fun y hy => h y (List.mem_cons_of_mem _ hy)
    rw [List.map_cons, leavesAll, leavesAll, hx, hrest]

theorem leaves_normal (t : Formula α) : t.normal.leaves = t.leaves := by
  induction t using Formula.induction with
  | leaf a => rfl
  | node op operands ih =>
    cases operands with
    | nil => rfl
    | cons first rest =>
      have hrest : leavesAll (rest.map normal) = leavesAll rest :=
        leavesAll_map fun x hx => ih x (List.mem_cons_of_mem _ hx)
      rw [normal_node, leaves_foldl_join, ih first List.mem_cons_self, hrest]
      rfl

/-! ## Values -/

theorem value_cons (op : Operator) (x : Formula α) (operands : List (Formula α)) :
    (node op (x :: operands)).value truth =
      op.apply (x.value truth) ((node op operands).value truth) := by
  cases op with
  | and => rfl
  | or => rfl

theorem apply_assoc (op : Operator) (a b c : Bool) :
    op.apply (op.apply a b) c = op.apply a (op.apply b c) := by
  cases op with
  | and => exact Bool.and_assoc a b c
  | or => exact Bool.or_assoc a b c

/-- Joining operands one by one comes to what a node with all of them comes to. -/
theorem value_foldl_join (left : Formula α) (operands : List (Formula α)) :
    (operands.foldl (join op) left).value truth = (node op (left :: operands)).value truth := by
  induction operands generalizing left with
  | nil => cases op <;> simp [value, everyValue, someValue]
  | cons x operands ih =>
    rw [List.foldl_cons, ih, value_cons, value_join, apply_assoc, value_cons, value_cons]

theorem value_node_map {f : Formula α → Formula α} {operands : List (Formula α)}
    (h : ∀ x ∈ operands, (f x).value truth = x.value truth) :
    (node op (operands.map f)).value truth = (node op operands).value truth := by
  induction operands with
  | nil => rfl
  | cons x operands ih =>
    have hx := h x List.mem_cons_self
    have hrest := ih fun y hy => h y (List.mem_cons_of_mem _ hy)
    rw [List.map_cons, value_cons, value_cons, hx, hrest]

theorem value_normal (t : Formula α) : t.normal.value truth = t.value truth := by
  induction t using Formula.induction with
  | leaf a => rfl
  | node op operands ih =>
    cases operands with
    | nil => rfl
    | cons first rest =>
      rw [normal_node, value_foldl_join, ← List.map_cons]
      exact value_node_map ih

end Formula

namespace Requirement

/-- **Reading a requirement that has been put together directly**, if each of its nodes has an
operand and each of its conditions a clean name.  What comes back is the normal form; it has the
same conditions in the same order, and the same truth value whatever its conditions are. -/
theorem parse_text_normal {t : Requirement} (ht : t.Filled)
    (hc : ∀ c ∈ t.leaves, c.Clean ∧ c.name ≠ "") :
    parse t.text = .ok t.normal.wrap ∧ t.normal.wrap.leaves = t.leaves ∧
      ∀ truth, t.normal.wrap.value truth = t.value truth := by
  refine ⟨parse_text ht (fun c h => (hc c h).1) fun c h => (hc c h).2, ?_, fun truth => ?_⟩
  · rw [Formula.leaves_wrap, Formula.leaves_normal]
  · rw [Formula.value_wrap, Formula.value_normal]

/-- A tree that is not read from any text: its first operand has its own operator, and another node
has a single operand. -/
def nestedFirst : Requirement :=
  .node .or [.node .or [condition "a", condition "b" "x&&y"], .node .and [condition "c d"]]

/-- What is read back has one node with all three conditions. -/
theorem parse_text_normal_nestedFirst :
    nestedFirst.Filled ∧ (∀ c ∈ nestedFirst.leaves, c.Clean ∧ c.name ≠ "") ∧
      nestedFirst.text = "(a || b(x&&y)) || (c d)" ∧
      parse nestedFirst.text =
        .ok (.node .or [condition "a", condition "b" "x&&y", condition "c d"]) := by
  have hfilled : nestedFirst.Filled := by
    refine .node .or (.node .or (.leaf _) ?_) ?_
    · intro x hx
      rw [List.mem_singleton.mp hx]
      exact .leaf _
    · intro x hx
      rw [List.mem_singleton.mp hx]
      exact .node .and (.leaf _) (by simp)
  have hclean : ∀ c ∈ nestedFirst.leaves, c.Clean ∧ c.name ≠ "" := by
    intro c hc
    -- The same conditions stand in a text, and whatever is read from a text is clean.
    have hscan : ∀ c ∈ nestedFirst.leaves, .condition c ∈ Token.scan "a || b(x&&y) || c d" ∧
        c.name ≠ "" := by decide +kernel
    exact ⟨Token.clean_of_mem_scan (hscan c hc).1, (hscan c hc).2⟩
  exact ⟨hfilled, hclean, by decide +kernel, (parse_text_normal hfilled hclean).1⟩

end Requirement

end Hydration
