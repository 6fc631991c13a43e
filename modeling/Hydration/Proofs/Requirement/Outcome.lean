import Hydration.Proofs.Requirement.Formula
import Hydration.Requirement.Evaluation
import Mathlib.Data.List.Forall2

/-!
# What is known of a requirement

While conditions are awaited, each has succeeded, has failed or is open; an **outcome**
is `some true`, `some false` or `none`.  `Formula.outcome` combines the outcomes of the
leaves, at each node in the way in which its operands are joined (`Join.combine`).
For an AND of up to thirty operands and for an OR this is the strong three-valued
reading; a longer AND is read from the left and stops at the first operand that has
not succeeded.

An evaluation has an outcome as well, and the verdict of a node is what its operands'
outcomes combine to (`verdict_eq_combine`).  Knowing more never changes an
outcome that is there already (`outcome_mono`).
-/

namespace Hydration

/-! ## Joining outcomes -/

namespace Join

/-- What one more operand on the left makes of the outcome of the others. -/
def step (join : Join) (first rest : Option Bool) : Option Bool :=
  match join, first, rest with
  | .all, some false, _ => some false
  | .all, _, some false => some false
  | .all, some true, some true => some true
  | .all, _, _ => none
  | .inOrder, some true, rest => rest
  | .inOrder, first, _ => first
  | .any, some true, _ => some true
  | .any, _, some true => some true
  | .any, some false, some false => some false
  | .any, _, _ => none

/-- The outcome of a node without operands. -/
def unit : Join → Bool
  | .all => true
  | .inOrder => true
  | .any => false

/-- **The outcome of a node** by the outcomes of its operands. -/
def combine (join : Join) (outcomes : List (Option Bool)) : Option Bool :=
  outcomes.foldr join.step (some join.unit)

variable {join : Join} {first rest : Option Bool} {outcomes : List (Option Bool)}

@[simp] theorem combine_nil : join.combine [] = some join.unit :=
  rfl

@[simp] theorem combine_cons :
    join.combine (first :: outcomes) = join.step first (join.combine outcomes) :=
  rfl

/-- Whether one outcome says no less than another. -/
def Extends (more less : Option Bool) : Prop :=
  less = none ∨ more = less

theorem Extends.of_some {more less : Option Bool} {b : Bool} (h : Extends more less)
    (hb : less = some b) : more = some b := by
  rcases h with rfl | rfl
  · cases hb
  · exact hb

theorem step_mono {first' rest' : Option Bool} (hfirst : Extends first' first)
    (hrest : Extends rest' rest) : Extends (join.step first' rest') (join.step first rest) := by
  rcases hfirst with rfl | rfl
  · rcases hrest with rfl | rfl
    · cases join <;> exact .inl rfl
    · rcases rest' with _ | _ | _ <;> rcases first' with _ | _ | _ <;> cases join <;>
        simp [step, Extends]
  · rcases hrest with rfl | rfl
    · rcases rest' with _ | _ | _ <;> rcases first' with _ | _ | _ <;> cases join <;>
        simp [step, Extends]
    · exact .inr rfl

theorem combine_mono {outcomes' : List (Option Bool)}
    (h : List.Forall₂ Extends outcomes' outcomes) :
    Extends (join.combine outcomes') (join.combine outcomes) := by
  induction h with
  | nil => exact .inr rfl
  | cons hfirst _ ih => exact step_mono hfirst ih

theorem eq_none {o : Option Bool} (ht : o ≠ some true) (hf : o ≠ some false) : o = none := by
  rcases o with _ | _ | _
  · rfl
  · exact absurd rfl hf
  · exact absurd rfl ht

theorem combine_eq_true (h : join ≠ .any) :
    join.combine outcomes = some true ↔ ∀ o ∈ outcomes, o = some true := by
  induction outcomes with
  | nil => cases join <;> simp_all [unit]
  | cons o outcomes ih =>
    rw [combine_cons, List.forall_mem_cons, ← ih]
    cases join <;> rcases o with _ | _ | _ <;>
      rcases combine _ outcomes with _ | _ | _ <;> simp_all [step]

theorem combine_all_eq_false : Join.all.combine outcomes = some false ↔ some false ∈ outcomes := by
  induction outcomes with
  | nil => simp [unit]
  | cons o outcomes ih =>
    rw [combine_cons, List.mem_cons, ← ih]
    rcases o with _ | _ | _ <;> rcases combine _ outcomes with _ | _ | _ <;> simp [step]

theorem combine_any_eq_true : Join.any.combine outcomes = some true ↔ some true ∈ outcomes := by
  induction outcomes with
  | nil => simp [unit]
  | cons o outcomes ih =>
    rw [combine_cons, List.mem_cons, ← ih]
    rcases o with _ | _ | _ <;> rcases combine _ outcomes with _ | _ | _ <;> simp [step]

theorem combine_any_eq_false :
    Join.any.combine outcomes = some false ↔ ∀ o ∈ outcomes, o = some false := by
  induction outcomes with
  | nil => simp [unit]
  | cons o outcomes ih =>
    rw [combine_cons, List.forall_mem_cons, ← ih]
    rcases o with _ | _ | _ <;> rcases combine _ outcomes with _ | _ | _ <;> simp [step]

end Join

/-! ## Outcomes of formulas -/

namespace Formula

variable {α : Type} {known known' : α → Option Bool}

mutual

/-- **The outcome of a formula** when `known` gives the outcomes of its leaves. -/
def outcome (known : α → Option Bool) : Formula α → Option Bool
  | leaf a => known a
  | node op operands =>
    (Join.ofOperator op operands.length).combine (outcomes known operands)

/-- The outcomes of operands. -/
def outcomes (known : α → Option Bool) : List (Formula α) → List (Option Bool)
  | [] => []
  | operand :: rest => operand.outcome known :: outcomes known rest

end

theorem outcomes_eq_map (operands : List (Formula α)) :
    outcomes known operands = operands.map (outcome known) := by
  induction operands with
  | nil => rfl
  | cons operand rest ih => rw [outcomes, ih, List.map_cons]

theorem outcome_node (op : Operator) (operands : List (Formula α)) :
    (node op operands).outcome known =
      (Join.ofOperator op operands.length).combine (operands.map (outcome known)) := by
  rw [outcome, outcomes_eq_map]

/-- **Knowing more** leaves an outcome as it is. -/
theorem outcome_mono (h : ∀ a, Join.Extends (known' a) (known a)) (t : Formula α) :
    Join.Extends (t.outcome known') (t.outcome known) := by
  induction t using Formula.induction with
  | leaf a => exact h a
  | node op operands ih =>
    rw [outcome_node, outcome_node]
    refine Join.combine_mono ?_
    rw [List.forall₂_map_left_iff, List.forall₂_map_right_iff]
    exact List.forall₂_same.mpr ih

end Formula

/-! ## Outcomes of evaluations -/

namespace Evaluation

variable {α w σ : Type}

/-- Induction on an evaluation, with the hypothesis for each operand of a node. -/
@[elab_as_elim]
theorem induction {motive : Evaluation w → Prop} (waiting : ∀ v, motive (waiting v))
    (succeeded : motive succeeded) (failed : ∀ error, motive (failed error))
    (joining : ∀ join operands, (∀ e ∈ operands, motive e) → motive (joining join operands))
    (e : Evaluation w) : motive e := by
  refine @Evaluation.rec w motive (fun operands => ∀ e ∈ operands, motive e) waiting succeeded
    failed joining ?_ ?_ e
  · intro e he
    cases he
  · intro e rest he hrest e' he'
    rcases List.mem_cons.mp he' with rfl | he'
    · exact he
    · exact hrest e' he'

/-- The outcome of an evaluation, once there is one. -/
def outcome? : Evaluation w → Option Bool
  | succeeded => some true
  | failed _ => some false
  | _ => none

theorem isSucceeded_iff {e : Evaluation w} : e.isSucceeded = true ↔ e.outcome? = some true := by
  cases e <;> simp [isSucceeded, outcome?]

theorem error?_isSome_iff {e : Evaluation w} :
    e.error?.isSome = true ↔ e.outcome? = some false := by
  cases e <;> simp [error?, outcome?]

theorem result?_isSome {e : Evaluation w} : e.result?.isSome = e.outcome?.isSome := by
  cases e <;> rfl

theorem waits_of_outcome {e : Evaluation w} {b : Bool} (h : e.outcome? = some b) :
    e.waits = [] := by
  cases e with
  | succeeded => rfl
  | failed error => rfl
  | waiting wait => cases h
  | joining join operands => cases h

end Evaluation

namespace Join

variable {α w σ : Type} {join : Join} {operands : List (Evaluation w)}

/-- The outcome that a verdict stands for. -/
def outcomeOf (verdict : Option (Except RequirementError Unit)) : Option Bool :=
  verdict.map (·.isOk)

theorem allSucceeded_iff :
    operands.all Evaluation.isSucceeded = true ↔
      ∀ o ∈ operands.map (·.outcome?), o = some true := by
  simp [Evaluation.isSucceeded_iff]

/-- **The verdict of a node** is the combined outcome of its operands. -/
theorem verdict_eq_combine :
    outcomeOf (join.verdict operands) = join.combine (operands.map (·.outcome?)) := by
  cases join with
  | all =>
    rw [verdict]
    split
    · next error h =>
      obtain ⟨e, he, herror⟩ := List.exists_of_findSome?_eq_some h
      have hfailed : e.outcome? = some false := Evaluation.error?_isSome_iff.mp (by simp [herror])
      exact (combine_all_eq_false.mpr (List.mem_map.mpr ⟨e, he, hfailed⟩)).symm
    · next h =>
      have hnone : some false ∉ operands.map (·.outcome?) := by
        intro hmem
        obtain ⟨e, he, hfailed⟩ := List.mem_map.mp hmem
        have := Evaluation.error?_isSome_iff.mpr hfailed
        rw [List.findSome?_eq_none_iff.mp h e he] at this
        cases this
      split
      · next hall => exact ((combine_eq_true (by simp)).mpr (allSucceeded_iff.mp hall)).symm
      · next hall =>
        refine (eq_none (fun ht => hall ?_) fun hf => hnone (combine_all_eq_false.mp hf)).symm
        exact allSucceeded_iff.mpr ((combine_eq_true (by simp)).mp ht)
  | inOrder =>
    induction operands with
    | nil => rfl
    | cons e es ih =>
      simp only [verdict] at ih ⊢
      rw [List.map_cons, combine_cons, ← ih]
      cases e <;> rfl
  | any =>
    have hany : operands.any Evaluation.isSucceeded = true ↔
        some true ∈ operands.map (·.outcome?) := by
      simp [Evaluation.isSucceeded_iff]
    have hall : operands.all (·.error?.isSome) = true ↔
        ∀ o ∈ operands.map (·.outcome?), o = some false := by
      simp [Evaluation.error?_isSome_iff]
    rw [verdict]
    split
    · next h => exact (combine_any_eq_true.mpr (hany.mp h)).symm
    · next h =>
      split
      · next hf => exact (combine_any_eq_false.mpr (hall.mp hf)).symm
      · next hf =>
        exact (eq_none (fun ht => h (hany.mpr (combine_any_eq_true.mp ht))) fun hf' =>
          hf (hall.mpr (combine_any_eq_false.mp hf'))).symm

/-- A node that has settled has the combined outcome of its operands and waits for nothing; any
other waits with its operands. -/
theorem settle_cases (rules : LeafRules α w σ) (join : Join) (operands : List (Evaluation w))
    (s : σ) :
    (join.settle rules operands s).1.outcome? = join.combine (operands.map (·.outcome?)) ∧
      (join.combine (operands.map (·.outcome?)) = none →
        join.settle rules operands s = (.joining join operands, s)) ∧
      (join.combine (operands.map (·.outcome?)) ≠ none →
        (join.settle rules operands s).2 =
          Evaluation.releaseAll rules (Evaluation.waitsAll operands) s) := by
  rw [← verdict_eq_combine, settle]
  rcases hv : join.verdict operands with _ | _ | _
  · exact ⟨rfl, fun _ => rfl, fun h => absurd rfl h⟩
  · refine ⟨rfl, fun h => ?_, fun _ => rfl⟩
    cases h
  · refine ⟨rfl, fun h => ?_, fun _ => rfl⟩
    cases h

end Join

end Hydration
