import Hydration.Proofs.Requirement.Noting

/-!
# Leaves with numbers

Two leaves of a formula may be equal, so a leaf does not say where it stands.  `Formula.numbered`
gives each leaf its number from left to right; then no two are equal, and forgetting the numbers
gives the formula back.

Whether the leaves bear numbers makes no difference to a run (`run_map`).
-/

namespace Hydration

variable {α β w σ : Type}

/-! ## Other leaves -/

/-- **The same behaviour for other leaves**, each of which stands for one that the rules know. -/
def LeafRules.on (rules : LeafRules β w σ) (f : α → β) : LeafRules α w σ where
  start a s := rules.start (f a) s
  resume := rules.resume
  release := rules.release

variable {rules : LeafRules β w σ} {f : α → β}

theorem Formula.startEach_mapAll {ts : List (Formula α)}
    (ih : ∀ t ∈ ts, ∀ s, (t.map f).start rules s = t.start (rules.on f) s) (join : Join)
    (clean : Bool) (s : σ) : Formula.startEach rules join clean (Formula.mapAll f ts) s =
      Formula.startEach (rules.on f) join clean ts s := by
  induction ts generalizing clean s with
  | nil => rfl
  | cons t ts ihs =>
    rw [Formula.mapAll, Formula.startEach, Formula.startEach, ih t List.mem_cons_self]
    dsimp only
    split
    · rfl
    · rw [ihs fun x hx => ih x (List.mem_cons_of_mem _ hx)]

theorem Formula.length_mapAll (ts : List (Formula α)) :
    (Formula.mapAll f ts).length = ts.length := by
  induction ts with
  | nil => rfl
  | cons t ts ih => rw [Formula.mapAll, List.length_cons, List.length_cons, ih]

theorem Formula.start_map (t : Formula α) (s : σ) :
    (t.map f).start rules s = t.start (rules.on f) s := by
  induction t using Formula.induction generalizing s with
  | leaf a => rfl
  | node op ts ih =>
    rw [Formula.map, Formula.start, Formula.start, Formula.length_mapAll,
      Formula.startEach_mapAll fun t ht s => ih t ht s]
    rfl

theorem Evaluation.resumeEach_on {es : List (Evaluation w)}
    (ih : ∀ e ∈ es, ∀ s, e.resume (rules.on f) s = e.resume rules s) (join : Join) (clean : Bool)
    (s : σ) : Evaluation.resumeEach (rules.on f) join clean es s =
      Evaluation.resumeEach rules join clean es s := by
  induction es generalizing clean s with
  | nil => rfl
  | cons e es ihes =>
    rw [Evaluation.resumeEach, Evaluation.resumeEach, ih e List.mem_cons_self]
    dsimp only
    split
    · rfl
    · rw [ihes fun x hx => ih x (List.mem_cons_of_mem _ hx)]

theorem Evaluation.resume_on (e : Evaluation w) (s : σ) :
    e.resume (rules.on f) s = e.resume rules s := by
  induction e using Evaluation.induction generalizing s with
  | waiting v => rfl
  | succeeded => rfl
  | failed error => rfl
  | joining join es ih =>
    rw [Evaluation.resume, Evaluation.resume, Evaluation.resumeEach_on fun e he s => ih e he s]
    rfl

/-- **A run does not see** what the leaves bear beside what they stand for. -/
theorem Formula.run_map (rules : LeafRules β w σ) (f : α → β) (t : Formula α) (s : σ)
    (changes : List (σ → σ)) : (t.map f).run rules s changes = t.run (rules.on f) s changes := by
  induction changes using List.reverseRecOn with
  | nil => exact Formula.start_map t s
  | append_singleton changes change ih =>
    rw [Formula.run_concat, Formula.run_concat, ih, Evaluation.resume_on]

/-! ## Numbers -/

namespace Formula

mutual

/-- The formula with its leaves numbered from left to right, from `n` on. -/
def numberedFrom (n : Nat) : Formula α → Formula (α × Nat)
  | leaf a => leaf (a, n)
  | node op operands => node op (numberedAll n operands)

/-- Operands with their leaves numbered through. -/
def numberedAll (n : Nat) : List (Formula α) → List (Formula (α × Nat))
  | [] => []
  | operand :: rest => operand.numberedFrom n :: numberedAll (n + operand.leaves.length) rest

end

/-- **The formula with numbers on its leaves**, from zero on. -/
def numbered (t : Formula α) : Formula (α × Nat) :=
  t.numberedFrom 0

theorem map_numberedFrom (t : Formula α) (n : Nat) : (t.numberedFrom n).map Prod.fst = t := by
  induction t using Formula.induction generalizing n with
  | leaf a => rfl
  | node op operands ih =>
    rw [numberedFrom, map]
    congr 1
    induction operands generalizing n with
    | nil => rfl
    | cons t ts ihs =>
      rw [numberedAll, mapAll, ih t List.mem_cons_self,
        ihs (fun x hx => ih x (List.mem_cons_of_mem _ hx))]

theorem leaves_numberedFrom (t : Formula α) (n : Nat) :
    (t.numberedFrom n).leaves = t.leaves.zipIdx n := by
  induction t using Formula.induction generalizing n with
  | leaf a => rfl
  | node op operands ih =>
    rw [numberedFrom, leaves, leaves]
    induction operands generalizing n with
    | nil => rfl
    | cons t ts ihs =>
      rw [numberedAll, leavesAll, leavesAll, List.zipIdx_append, ih t List.mem_cons_self,
        ihs (fun x hx => ih x (List.mem_cons_of_mem _ hx))]

theorem map_numbered (t : Formula α) : t.numbered.map Prod.fst = t :=
  map_numberedFrom t 0

theorem leaves_numbered (t : Formula α) : t.numbered.leaves = t.leaves.zipIdx :=
  leaves_numberedFrom t 0

/-- No two leaves bear the same number. -/
theorem nodup_leaves_numbered (t : Formula α) : t.numbered.leaves.Nodup := by
  have hnumbers : (t.leaves.zipIdx.map Prod.snd).Nodup := by
    rw [List.zipIdx_map_snd]
    exact List.nodup_range'
  rw [leaves_numbered]
  exact List.Pairwise.of_map Prod.snd (fun _ _ hne h => hne (congrArg Prod.snd h)) hnumbers

end Formula

end Hydration
