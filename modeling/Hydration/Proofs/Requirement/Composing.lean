import Hydration.Proofs.Requirement.Outcome

/-!
# What composes

Starting a formula goes through its leaves, resuming an evaluation through its waits, and either
may end with a node that settles and gives up what waits below it.  A relation between the states
before and after **composes** if it can be followed from leaf to leaf (`Starting`) or from wait to
wait (`Resuming`), and if giving up waits respects it.  Then it holds of whole formulas
(`Starting.start`) and of whole evaluations (`Resuming.resume`).
-/

namespace Hydration

variable {α w σ : Type} {rules : LeafRules α w σ}

/-- **A relation composes** when leaves are started: `R s s₁ as vs` says what has come of the state
`s` and of the leaves `as`, some of which may not have been reached, when `vs` are the waits. -/
structure Starting (rules : LeafRules α w σ) (R : σ → σ → List α → List w → Prop) : Prop where
  nil : ∀ s, R s s [] []
  leaf : ∀ a s, R s (rules.start a s).2 [a] (Evaluation.ofSignal (rules.start a s).1).waits
  append : ∀ {s s₁ s₂ as bs vs us}, R s s₁ as vs → R s₁ s₂ bs us → R s s₂ (as ++ bs) (vs ++ us)
  skip : ∀ {s s₁ as vs} bs, R s s₁ as vs → R s s₁ (as ++ bs) vs
  release : ∀ {s s₁ as vs}, R s s₁ as vs → R s (Evaluation.releaseAll rules vs s₁) as []

/-- **A relation composes** when waits are resumed: `R s s₁ vs us` says what has come of the state
`s` and of the waits `vs`, of which `us` are left. -/
structure Resuming (rules : LeafRules α w σ) (R : σ → σ → List w → List w → Prop) : Prop where
  refl : ∀ s vs, R s s vs vs
  wait : ∀ v s, R s (rules.resume v s).2 [v] (Evaluation.ofSignal (rules.resume v s).1).waits
  append : ∀ {s s₁ s₂ vs vs' us us'}, R s s₁ vs vs' → R s₁ s₂ us us' →
    R s s₂ (vs ++ us) (vs' ++ us')
  release : ∀ {s s₁ vs us}, R s s₁ vs us → R s (Evaluation.releaseAll rules us s₁) vs []

namespace Starting

variable {R : σ → σ → List α → List w → Prop}

theorem settle (h : Starting rules R) {join : Join} {es : List (Evaluation w)} {s s₁ : σ}
    {as : List α} (hes : R s s₁ as (Evaluation.waitsAll es)) :
    R s (join.settle rules es s₁).2 as (join.settle rules es s₁).1.waits := by
  rw [Join.settle]
  rcases join.verdict es with _ | _ | _
  · exact hes
  · exact h.release hes
  · exact h.release hes

theorem startEach (h : Starting rules R) {ts : List (Formula α)}
    (ih : ∀ t ∈ ts, ∀ s, R s (t.start rules s).2 t.leaves (t.start rules s).1.waits)
    (join : Join) (clean : Bool) (s : σ) :
    R s (Formula.startEach rules join clean ts s).2 (Formula.leavesAll ts)
      (Evaluation.waitsAll (Formula.startEach rules join clean ts s).1) := by
  induction ts generalizing clean s with
  | nil => exact h.nil s
  | cons t ts ihs =>
    have ht := ih t List.mem_cons_self s
    rw [Formula.startEach, Formula.leavesAll]
    dsimp only
    split
    · rw [Evaluation.waitsAll, Evaluation.waitsAll, List.append_nil]
      exact h.skip _ ht
    · rw [Evaluation.waitsAll]
      exact h.append ht (ihs (fun x hx => ih x (List.mem_cons_of_mem _ hx)) _ _)

/-- **What composes holds of a formula** that is started. -/
theorem start (h : Starting rules R) (t : Formula α) (s : σ) :
    R s (t.start rules s).2 t.leaves (t.start rules s).1.waits := by
  induction t using Formula.induction generalizing s with
  | leaf a => exact h.leaf a s
  | node op ts ih =>
    rw [Formula.start]
    exact h.settle (h.startEach ih _ true s)

end Starting

namespace Resuming

variable {R : σ → σ → List w → List w → Prop}

theorem settle (h : Resuming rules R) {join : Join} {es : List (Evaluation w)} {s s₁ : σ}
    {vs : List w} (hes : R s s₁ vs (Evaluation.waitsAll es)) :
    R s (join.settle rules es s₁).2 vs (join.settle rules es s₁).1.waits := by
  rw [Join.settle]
  rcases join.verdict es with _ | _ | _
  · exact hes
  · exact h.release hes
  · exact h.release hes

theorem resumeEach (h : Resuming rules R) {es : List (Evaluation w)}
    (ih : ∀ e ∈ es, ∀ s, R s (e.resume rules s).2 e.waits (e.resume rules s).1.waits)
    (join : Join) (clean : Bool) (s : σ) :
    R s (Evaluation.resumeEach rules join clean es s).2 (Evaluation.waitsAll es)
      (Evaluation.waitsAll (Evaluation.resumeEach rules join clean es s).1) := by
  induction es generalizing clean s with
  | nil => exact h.refl s []
  | cons e es ihes =>
    have he := ih e List.mem_cons_self s
    rw [Evaluation.resumeEach, Evaluation.waitsAll]
    dsimp only
    split
    · rw [Evaluation.waitsAll]
      exact h.append he (h.refl _ _)
    · rw [Evaluation.waitsAll]
      exact h.append he (ihes (fun x hx => ih x (List.mem_cons_of_mem _ hx)) _ _)

/-- **What composes holds of an evaluation** that is resumed. -/
theorem resume (h : Resuming rules R) (e : Evaluation w) (s : σ) :
    R s (e.resume rules s).2 e.waits (e.resume rules s).1.waits := by
  induction e using Evaluation.induction generalizing s with
  | waiting v => exact h.wait v s
  | succeeded => exact h.refl s []
  | failed error => exact h.refl s []
  | joining join es ih =>
    rw [Evaluation.resume]
    exact h.settle (h.resumeEach ih _ true s)

end Resuming

end Hydration
