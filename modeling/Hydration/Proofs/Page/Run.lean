import Hydration.Proofs.Page.Progress
import Mathlib.Logic.Relation

/-!
# Runs of a page

A **move** is the least that can happen between two looks at a page: a task has its
turn, a task is started or given up, or something outside the records changes in any
way, such as the clock, the platform, the bus, the modules or the strategies.  A
**run** is any sequence of moves.  Tasks have their turns in any order and as often as
one likes, so a run may let activations finish, fail or wait in every possible order.

The scheduler is one way to make moves: whatever settling and the clock do to a page
is a run without commands (`passes_settle`, `passes_advance`).
-/

namespace Hydration.Page

variable {p q r : Page} {deferred : List ElementRef}

/-- **A move** on a page on which only elements of `deferred` are discovered. -/
inductive Move (deferred : List ElementRef) (p : Page) : Page → Prop where
  | turn (task : Nat) : Move deferred p (p.runTask task)
  | handle {el : ElementRef} (h : el ∈ deferred) : Move deferred p (p.startTask el true).2
  | activate (el : ElementRef) : Move deferred p (p.startTask el false).2
  | abort (task : Nat) : Move deferred p (p.abort task).2
  | outside {q : Page} (h : q.records = p.records) : Move deferred p q

/-- A sequence of moves. -/
def Run (deferred : List ElementRef) : Page → Page → Prop :=
  Relation.ReflTransGen (Move deferred)

theorem Run.trans (hpq : Run deferred p q) (hqr : Run deferred q r) : Run deferred p r :=
  Relation.ReflTransGen.trans hpq hqr

/-! ## Runs without commands -/

/-- **A move without a command**: a task has its turn, or something changes outside the records. -/
inductive Pass (p : Page) : Page → Prop where
  | turn (task : Nat) : Pass p (p.runTask task)
  | outside {q : Page} (h : q.records = p.records) : Pass p q

/-- A run in which no task is started or given up. -/
def Passes : Page → Page → Prop :=
  Relation.ReflTransGen Pass

theorem Passes.outside (h : q.records = p.records) : Passes p q :=
  .single (.outside h)

theorem Passes.trans (hpq : Passes p q) (hqr : Passes q r) : Passes p r :=
  Relation.ReflTransGen.trans hpq hqr

theorem Passes.run (h : Passes p q) : Run deferred p q := by
  refine Relation.ReflTransGen.mono (fun a b hab => ?_) _ _ h
  cases hab with
  | turn task => exact .turn task
  | outside h => exact .outside h

theorem passes_turns (tasks : List Nat) : Passes p (tasks.foldl runTask p) := by
  induction tasks generalizing p with
  | nil => exact .refl
  | cons task tasks ih => exact .trans (.single (.turn task)) ih

theorem passes_settle : Passes p p.settle :=
  .trans (.outside (q := { p with queue := [] }) rfl) (passes_turns p.queue)

theorem passes_settleAt (time : Nat) : Passes p (p.settleAt time) :=
  .trans (.outside (records_setClock time)) passes_settle

theorem passes_advance (duration : Nat) : Passes p (p.advance duration) := by
  rw [advance]
  split
  · exact .refl
  · refine .trans ?_ (.outside (records_setClock _))
    refine .trans passes_settle ?_
    generalize p.settle.dueBefore _ = times
    generalize p.settle = settled
    induction times generalizing settled with
    | nil => exact .refl
    | cons time times ih => exact .trans (passes_settleAt time) (ih _)

end Hydration.Page
