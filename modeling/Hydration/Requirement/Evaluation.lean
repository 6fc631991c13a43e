import Hydration.Requirement.Basic

/-!
# Waiting for a requirement

A requirement is awaited by **starting** its conditions and then **resuming** the
ones that are still open, as often as something may have changed.  What a
condition does is given by `LeafRules`: how a leaf starts, what one resumption of
a waiting leaf does, and what is cleaned up when nobody waits for it any longer.
The rules act on a state `σ`, which may be a clock, a page or nothing at all.

An `Evaluation` is a requirement that has been started.  It has succeeded, has
failed, or it waits: at a leaf, or at a node with the evaluations of its operands.

**Three ways of joining** (`Join`).  Operands are started and resumed from left
to right, and an operand that decides its node ends it at once: operands that
were never reached stay unstarted, and all others are released.

* `all`, for an AND of up to thirty operands: every operand has to succeed, and
  the first failure that is seen decides.
* `inOrder`, for a longer AND: results count in the order of the operands, so a
  failure decides only when every operand before it has succeeded.
* `any`, for an OR: the first success decides, and the node fails when every
  operand has failed.
-/

namespace Hydration

/-- Why a requirement failed. -/
inductive RequirementError where
  /-- A strategy reported an error. -/
  | rejected (strategy : String) (message : String)
  /-- Each of `count` alternatives failed. -/
  | noneSatisfied (count : Nat)
deriving DecidableEq, Repr, Inhabited

/-- The text shown for a requirement error. -/
def RequirementError.message : RequirementError → String
  | .rejected strategy message => s!"strategy '{strategy}' failed: {message}"
  | .noneSatisfied count => s!"none of {count} alternatives was satisfied"

/-- What a leaf reports when it has been started or resumed. -/
inductive Signal (w : Type u) where
  | waiting (wait : w)
  | succeeded
  | failed (error : RequirementError)
deriving Repr, Inhabited

/-- The behaviour of leaves of type `α`, waiting as `w`, over a state `σ`. -/
structure LeafRules (α : Type u) (w : Type v) (σ : Type x) where
  /-- Begins to wait for a leaf. -/
  start : α → σ → Signal w × σ
  /-- Looks again at a leaf that waits. -/
  resume : w → σ → Signal w × σ
  /-- Gives up a leaf that waits. -/
  release : w → σ → σ

/-- How a node awaits its operands. -/
inductive Join where
  | all
  | inOrder
  | any
deriving DecidableEq, Repr, Inhabited

/-- The largest number of operands of an AND whose failures count in any order. -/
def Join.limit : Nat := 30

/-- The way a node with `count` operands is joined. -/
def Join.ofOperator (op : Operator) (count : Nat) : Join :=
  match op with
  | .and => if count ≤ Join.limit then .all else .inOrder
  | .or => .any

/-- A requirement that has been started. -/
inductive Evaluation (w : Type u) where
  | waiting (wait : w)
  | succeeded
  | failed (error : RequirementError)
  | joining (join : Join) (operands : List (Evaluation w))
deriving Repr, Inhabited

namespace Evaluation

variable {α : Type u} {w : Type v} {σ : Type x}

/-- The evaluation of a leaf that has reported. -/
def ofSignal : Signal w → Evaluation w
  | .waiting wait => waiting wait
  | .succeeded => succeeded
  | .failed error => failed error

/-- The result of an evaluation, once there is one. -/
def result? : Evaluation w → Option (Except RequirementError Unit)
  | succeeded => some (.ok ())
  | failed error => some (.error error)
  | _ => none

/-- Whether the evaluation has succeeded. -/
def isSucceeded : Evaluation w → Bool
  | succeeded => true
  | _ => false

/-- The error of an evaluation that has failed. -/
def error? : Evaluation w → Option RequirementError
  | failed error => some error
  | _ => none

mutual

/-- The leaves that wait, from left to right. -/
def waits : Evaluation w → List w
  | waiting wait => [wait]
  | joining _ operands => waitsAll operands
  | succeeded => []
  | failed _ => []

/-- The leaves that wait in any of the operands. -/
def waitsAll : List (Evaluation w) → List w
  | [] => []
  | operand :: rest => operand.waits ++ waitsAll rest

end

/-- Gives up every leaf that waits. -/
def releaseAll (rules : LeafRules α w σ) (waits : List w) (s : σ) : σ :=
  waits.foldl (fun s wait => rules.release wait s) s

/-- Gives up an evaluation, as happens to the operands of a node that settles. -/
def release (rules : LeafRules α w σ) (e : Evaluation w) (s : σ) : σ :=
  releaseAll rules e.waits s

end Evaluation

namespace Join

variable {α : Type u} {w : Type v} {σ : Type x}

/-- Whether an operand decides its node, where `clean` says that every operand
before it has succeeded. -/
def decides (join : Join) (clean : Bool) (operand : Evaluation w) : Bool :=
  match join with
  | .all => operand.error?.isSome
  | .inOrder => clean && operand.error?.isSome
  | .any => operand.isSucceeded

/-- The error of the first operand that has not succeeded, if it has failed. -/
def firstInOrder : List (Evaluation w) → Option (Except RequirementError Unit)
  | [] => some (.ok ())
  | .succeeded :: rest => firstInOrder rest
  | .failed error :: _ => some (.error error)
  | _ => none

/-- The result of a node, as far as the evaluations of its operands settle it. -/
def verdict (join : Join) (operands : List (Evaluation w)) :
    Option (Except RequirementError Unit) :=
  match join with
  | .all =>
    match operands.findSome? Evaluation.error? with
    | some error => some (.error error)
    | none => if operands.all Evaluation.isSucceeded then some (.ok ()) else none
  | .inOrder => firstInOrder operands
  | .any =>
    if operands.any Evaluation.isSucceeded then some (.ok ())
    else if operands.all (·.error?.isSome) then some (.error (.noneSatisfied operands.length))
    else none

/-- The node with the given operands: settled, with all operands released, when
they give a verdict, and waiting otherwise. -/
def settle (join : Join) (rules : LeafRules α w σ) (operands : List (Evaluation w)) (s : σ) :
    Evaluation w × σ :=
  match join.verdict operands with
  | some (.ok ()) => (.succeeded, Evaluation.releaseAll rules (Evaluation.waitsAll operands) s)
  | some (.error error) =>
    (.failed error, Evaluation.releaseAll rules (Evaluation.waitsAll operands) s)
  | none => (.joining join operands, s)

end Join

namespace Formula

variable {α : Type u} {w : Type v} {σ : Type x}

mutual

/-- Starts a formula. -/
def start (rules : LeafRules α w σ) : Formula α → σ → Evaluation w × σ
  | leaf a, s =>
    let (signal, s) := rules.start a s
    (.ofSignal signal, s)
  | node op operands, s =>
    let join := Join.ofOperator op operands.length
    let (started, s) := startEach rules join true operands s
    join.settle rules started s

/-- Starts operands from left to right up to one that decides the node. -/
def startEach (rules : LeafRules α w σ) (join : Join) (clean : Bool) :
    List (Formula α) → σ → List (Evaluation w) × σ
  | [], s => ([], s)
  | operand :: rest, s =>
    let (e, s) := operand.start rules s
    if join.decides clean e then ([e], s)
    else
      let (es, s) := startEach rules join (clean && e.isSucceeded) rest s
      (e :: es, s)

end

end Formula

namespace Evaluation

variable {α : Type u} {w : Type v} {σ : Type x}

mutual

/-- Looks again at every leaf that waits, from left to right. -/
def resume (rules : LeafRules α w σ) : Evaluation w → σ → Evaluation w × σ
  | waiting wait, s =>
    let (signal, s) := rules.resume wait s
    (.ofSignal signal, s)
  | joining join operands, s =>
    let (operands, s) := resumeEach rules join true operands s
    join.settle rules operands s
  | succeeded, s => (succeeded, s)
  | failed error, s => (failed error, s)

/-- Resumes operands from left to right up to one that decides the node; the
operands after it stay as they are. -/
def resumeEach (rules : LeafRules α w σ) (join : Join) (clean : Bool) :
    List (Evaluation w) → σ → List (Evaluation w) × σ
  | [], s => ([], s)
  | operand :: rest, s =>
    let (e, s) := operand.resume rules s
    if join.decides clean e then (e :: rest, s)
    else
      let (es, s) := resumeEach rules join (clean && e.isSucceeded) rest s
      (e :: es, s)

end

end Evaluation

end Hydration
