import Hydration.Proofs.Requirement.Noting
import Hydration.Proofs.Requirement.Tracking

/-!
# Which leaves are started

A leaf stands in a formula below a list of nodes, and in each of them it has operands before it
(`Occurrence`).  Starting a formula goes through its leaves from left to right, but a node that
has settled starts no more operands: it **cuts off** all leaves in later operands
(`Step.cuts`).  By what its operands come to at once,

* an AND of up to thirty operands is cut by the first that fails,
* a longer AND is cut by one that fails if all before it succeed,
* an OR is cut by the first that succeeds.

The leaves that are started are those that no node above them cuts off, each once and in order
(`Steady.begun_start`).  Resuming starts nothing (`begun_run`).
-/

namespace Hydration

variable {α w σ : Type}

namespace Formula

/-! ## Occurrences of leaves -/

/-- A node above a leaf. -/
structure Step (α : Type) where
  op : Operator
  /-- The number of operands. -/
  count : Nat
  /-- The operands before the one in which the leaf stands. -/
  before : List (Formula α)

/-- A place where a leaf stands, with the nodes above it from the root on. -/
structure Occurrence (α : Type) where
  above : List (Step α)
  leaf : α

/-- The same place, seen from a node further up. -/
def Occurrence.below (step : Step α) (o : Occurrence α) : Occurrence α :=
  ⟨step :: o.above, o.leaf⟩

mutual

/-- The places where the leaves of a formula stand, from left to right. -/
def occurrences : Formula α → List (Occurrence α)
  | leaf a => [⟨[], a⟩]
  | node op operands => occurrencesEach op operands.length [] operands

/-- The places in some operands of a node that has others before them. -/
def occurrencesEach (op : Operator) (count : Nat) (before : List (Formula α)) :
    List (Formula α) → List (Occurrence α)
  | [] => []
  | operand :: rest =>
    operand.occurrences.map (Occurrence.below ⟨op, count, before⟩) ++
      occurrencesEach op count (before ++ [operand]) rest

end

/-- Every leaf has its place, in order. -/
theorem map_leaf_occurrences (t : Formula α) : t.occurrences.map (·.leaf) = t.leaves := by
  induction t using Formula.induction with
  | leaf a => rfl
  | node op operands ih =>
    rw [occurrences, leaves]
    generalize operands.length = count
    generalize ([] : List (Formula α)) = before
    induction operands generalizing before with
    | nil => rfl
    | cons t ts ihts =>
      rw [occurrencesEach, leavesAll, List.map_append, List.map_map,
        ihts fun x hx => ih x (List.mem_cons_of_mem _ hx), ← ih t List.mem_cons_self]
      rfl

/-! ## What cuts leaves off -/

variable {atOnce : Formula α → Option Bool} {op : Operator} {count : Nat}
  {before : List (Formula α)} {t : Formula α}

/-- **A node cuts a leaf off** if it has settled before its operand comes, where `atOnce` says what
operands come to at once. -/
def Step.cuts (atOnce : Formula α → Option Bool) (step : Step α) : Bool :=
  match Join.ofOperator step.op step.count with
  | .all => step.before.any (atOnce · == some false)
  | .inOrder => (step.before.find? (atOnce · != some true)).any (atOnce · == some false)
  | .any => step.before.any (atOnce · == some true)

theorem find?_any_iff :
    ((before.find? (atOnce · != some true)).any (atOnce · == some false)) = true ↔
      ∃ earlier u later, before = earlier ++ u :: later ∧ (∀ v ∈ earlier, atOnce v = some true) ∧
      atOnce u = some false := by
  simp only [Option.any_eq_true, beq_iff_eq, List.find?_eq_some_iff_append]
  constructor
  · rintro ⟨u, ⟨-, earlier, later, hsplit, hearlier⟩, hfailed⟩
    exact ⟨earlier, u, later, hsplit, by simpa using hearlier, hfailed⟩
  · rintro ⟨earlier, u, later, hsplit, hearlier, hfailed⟩
    exact ⟨u, ⟨by simp [hfailed], earlier, later, hsplit, by simpa using hearlier⟩, hfailed⟩

/-- The three ways in which a leaf is cut off. -/
theorem Step.cuts_iff {step : Step α} : step.cuts atOnce = true ↔
    step.op = .and ∧ step.count ≤ Join.limit ∧ (∃ u ∈ step.before, atOnce u = some false) ∨
    step.op = .and ∧ Join.limit < step.count ∧ (∃ earlier u later,
      step.before = earlier ++ u :: later ∧ (∀ v ∈ earlier, atOnce v = some true) ∧
        atOnce u = some false) ∨
    step.op = .or ∧ ∃ u ∈ step.before, atOnce u = some true := by
  obtain ⟨op, count, before⟩ := step
  rw [cuts]
  cases op with
  | or => simp [Join.ofOperator]
  | and =>
    by_cases hcount : count ≤ Join.limit
    · simp [Join.ofOperator, hcount, Nat.not_lt.mpr hcount]
    · rw [Join.ofOperator, if_neg hcount]
      dsimp only
      rw [find?_any_iff]
      simp [hcount, Nat.lt_of_not_le hcount]

/-- Whether no node above cuts the leaf off. -/
def Occurrence.isReached (atOnce : Formula α → Option Bool) (o : Occurrence α) : Bool :=
  o.above.all fun step => !step.cuts atOnce

/-- **The leaves that are reached**, from left to right. -/
def reached (atOnce : Formula α → Option Bool) (t : Formula α) : List α :=
  (t.occurrences.filter (·.isReached atOnce)).map (·.leaf)

end Formula

namespace Join

/-- Whether an operand with an outcome decides its node. -/
def decidesBy (join : Join) (clean : Bool) (outcome : Option Bool) : Bool :=
  match join with
  | .all => outcome == some false
  | .inOrder => clean && outcome == some false
  | .any => outcome == some true

theorem decides_eq {join : Join} {clean : Bool} {e : Evaluation w} :
    join.decides clean e = join.decidesBy clean e.outcome? := by
  cases join <;> cases e <;> rfl

end Join

namespace Formula

variable {atOnce : Formula α → Option Bool} {op : Operator} {count : Nat}
  {before ts : List (Formula α)} {t : Formula α}

/-- One more operand cuts off what comes after it if it decides the node. -/
theorem cuts_concat : Step.cuts atOnce ⟨op, count, before ++ [t]⟩ =
    (Step.cuts atOnce ⟨op, count, before⟩ ||
      (Join.ofOperator op count).decidesBy (before.all (atOnce · == some true)) (atOnce t)) := by
  rw [Step.cuts, Step.cuts]
  cases Join.ofOperator op count with
  | all => simp [Join.decidesBy]
  | any => simp [Join.decidesBy]
  | inOrder =>
    dsimp only [Join.decidesBy]
    rw [List.find?_append]
    cases hfind : before.find? (atOnce · != some true) with
    | some u =>
      have hnot : before.all (atOnce · == some true) = false := by
        rw [List.all_eq_false]
        exact ⟨u, List.mem_of_find?_eq_some hfind, by simpa using List.find?_some hfind⟩
      rw [hnot]
      simp
    | none =>
      have hall : before.all (atOnce · == some true) = true := by
        simpa using List.find?_eq_none.mp hfind
      rw [hall]
      rcases h : atOnce t with _ | _ | _ <;> simp [h]

theorem cuts_nil : Step.cuts atOnce ⟨op, count, []⟩ = false := by
  rw [Step.cuts]
  cases Join.ofOperator op count <;> rfl

/-- Behind a node that has settled nothing is reached. -/
theorem filter_occurrencesEach_of_cuts (h : Step.cuts atOnce ⟨op, count, before⟩ = true) :
    (occurrencesEach op count before ts).filter (·.isReached atOnce) = [] := by
  induction ts generalizing before with
  | nil => rfl
  | cons t ts ih =>
    have hlater : Step.cuts atOnce ⟨op, count, before ++ [t]⟩ = true := by
      rw [cuts_concat, h, Bool.true_or]
    rw [occurrencesEach, List.filter_append, ih hlater, List.append_nil, List.filter_eq_nil_iff]
    intro o ho
    obtain ⟨o', -, rfl⟩ := List.mem_map.mp ho
    simp [Occurrence.isReached, Occurrence.below, h]

/-- Below a node that has not settled the nodes further down decide. -/
theorem filter_below (h : Step.cuts atOnce ⟨op, count, before⟩ = false) :
    ((t.occurrences.map (Occurrence.below ⟨op, count, before⟩)).filter
      (·.isReached atOnce)).map (·.leaf) = t.reached atOnce := by
  have hsame : (fun o : Occurrence α => o.isReached atOnce) ∘
      Occurrence.below ⟨op, count, before⟩ = fun o => o.isReached atOnce := by
    funext o
    simp [Occurrence.isReached, Occurrence.below, h]
  rw [List.filter_map, hsame, List.map_map, reached]
  rfl

end Formula

/-! ## What is begun -/

/-- The leaves that have been started, with the states in which they have. -/
def Note.begunOf (notes : List (Note α σ)) : List (α × σ) :=
  notes.filterMap fun
    | .begun a s => some (a, s)
    | .ended _ _ => none

theorem Note.begunOf_append (notes new : List (Note α σ)) :
    begunOf (notes ++ new) = begunOf notes ++ begunOf new :=
  List.filterMap_append

theorem Note.begunOf_ofSignal (a : α) (signal : Signal w) :
    begunOf (Note.ofSignal a signal : List (Note α σ)) = [] := by
  cases signal <;> rfl

section

variable {rules : LeafRules α w σ} {Q : σ → Prop} {known : α → Option Bool}

theorem begunOf_noting_start (rules : LeafRules α w σ) (a : α) (s : σ × List (Note α σ)) :
    Note.begunOf (rules.noting.start a s).2.2 = Note.begunOf s.2 ++ [(a, s.1)] := by
  show Note.begunOf (s.2 ++ ([.begun a s.1] ++ Note.ofSignal a _)) = _
  rw [Note.begunOf_append, Note.begunOf_append, Note.begunOf_ofSignal]
  rfl

theorem begunOf_noting_resume (v : α × w) (s : σ × List (Note α σ)) :
    Note.begunOf (rules.noting.resume v s).2.2 = Note.begunOf s.2 := by
  show Note.begunOf (s.2 ++ Note.ofSignal v.1 _) = _
  rw [Note.begunOf_append, Note.begunOf_ofSignal, List.append_nil]

/-- **Resuming** starts nothing. -/
theorem begun_resume (e : Evaluation (α × w)) (s : σ × List (Note α σ)) :
    Note.begunOf (e.resume rules.noting s).2.2 = Note.begunOf s.2 := by
  let Same (s' : σ × List (Note α σ)) : Prop := Note.begunOf s'.2 = Note.begunOf s.2
  have hsame : Same s := rfl
  exact resume_keeps (fun v s' h => (begunOf_noting_resume v s').trans h) (fun _ _ h => h) e hsame

/-- All that a run ever starts it starts in the beginning. -/
theorem begun_run (rules : LeafRules α w σ) (t : Formula α) (s : σ) (changes : List (σ → σ)) :
    Note.begunOf (t.notes rules s changes) =
      Note.begunOf (t.start rules.noting (s, [])).2.2 := by
  rw [Formula.notes]
  induction changes using List.reverseRecOn with
  | nil => rfl
  | append_singleton changes change ih =>
    rw [Formula.noted, List.map_append, List.map_singleton, Formula.run_concat, begun_resume]
    exact ih

/-- **Leaves come to the same at once** on all states of some kind: to what `known` says. -/
structure Steady (rules : LeafRules α w σ) (Q : σ → Prop) (known : α → Option Bool) : Prop where
  start : ∀ a s, Q s → Q (rules.start a s).2
  release : ∀ v s, Q s → Q (rules.release v s)
  known : ∀ a s, Q s → (Evaluation.ofSignal (rules.start a s).1).outcome? = known a

/-- **What a formula comes to at once** is its outcome by what its leaves come to. -/
theorem Steady.outcome_start (h : Steady rules Q known) (t : Formula α) {s : σ} (hs : Q s) :
    (t.start rules s).1.outcome? = t.outcome known := by
  induction t using Formula.induction generalizing s with
  | leaf a => exact h.known a s hs
  | node op ts ih =>
    have hscanned : ∀ join clean, Scanned (fun t e => t.outcome known = e.outcome?) join clean ts
        (Formula.startEach rules join clean ts s).1 := by
      intro join clean
      induction ts generalizing clean s with
      | nil => exact .nil
      | cons t ts ihs =>
        have ht := ih t List.mem_cons_self hs
        rw [Formula.startEach]
        dsimp only
        split
        · next hd => exact .decided ht.symm hd
        · exact .cons ht.symm (ihs (fun x hx _ => ih x (List.mem_cons_of_mem _ hx))
            (start_keeps h.start h.release t hs) _)
    rw [Formula.start, Formula.outcome_node, (hscanned _ true).combine_eq fun _ _ h => h]
    exact (Join.settle_cases rules _ _ _).1

/-- The same with notes. -/
theorem Steady.noting (h : Steady rules Q known) : Steady rules.noting (fun s => Q s.1) known where
  start a s hs := h.start a s.1 hs
  release v s hs := h.release v.2 s.1 hs
  known a s hs := by
    rw [← h.known a s.1 hs]
    exact (congrArg _ Evaluation.ofSignal_map).trans Evaluation.outcome?_map

theorem Steady.begun_startEach (h : Steady rules Q known) {op : Operator} {count : Nat}
    {before ts : List (Formula α)}
    (ih : ∀ t ∈ ts, ∀ s : σ × List (Note α σ), Q s.1 →
      (Note.begunOf (t.start rules.noting s).2.2).map (·.1) =
        (Note.begunOf s.2).map (·.1) ++ t.reached (Formula.outcome known))
    (hcuts : Formula.Step.cuts (Formula.outcome known) ⟨op, count, before⟩ = false)
    {s : σ × List (Note α σ)} (hs : Q s.1) :
    (Note.begunOf (Formula.startEach rules.noting (Join.ofOperator op count)
        (before.all (Formula.outcome known · == some true)) ts s).2.2).map (·.1) =
      (Note.begunOf s.2).map (·.1) ++ ((Formula.occurrencesEach op count before ts).filter
        (·.isReached (Formula.outcome known))).map (·.leaf) := by
  induction ts generalizing before s with
  | nil =>
    rw [Formula.startEach, Formula.occurrencesEach]
    simp
  | cons t ts ihs =>
    have houtcome := h.noting.outcome_start t hs
    have hlater := @Formula.cuts_concat _ (Formula.outcome known) op count before t
    rw [hcuts, Bool.false_or] at hlater
    rw [Formula.startEach, Formula.occurrencesEach, List.filter_append, List.map_append,
      Formula.filter_below hcuts, ← List.append_assoc, ← ih t List.mem_cons_self s hs]
    dsimp only
    rw [Join.decides_eq, houtcome]
    split
    · next hd => rw [Formula.filter_occurrencesEach_of_cuts (hlater.trans hd), List.map_nil,
        List.append_nil]
    · next hd =>
      have hclean : (before.all (Formula.outcome known · == some true) &&
          (t.start rules.noting s).1.isSucceeded) =
          (before ++ [t]).all (Formula.outcome known · == some true) := by
        have hsucceeded : (t.start rules.noting s).1.isSucceeded =
            (t.outcome known == some true) := by
          rw [Bool.eq_iff_iff, Evaluation.isSucceeded_iff, houtcome, beq_iff_eq]
        rw [List.all_append, hsucceeded]
        simp
      rw [hclean]
      exact ihs (fun x hx => ih x (List.mem_cons_of_mem _ hx))
        (hlater.trans ((Bool.not_eq_true _).mp hd))
        (start_keeps h.noting.start h.noting.release t hs)

/-- **What is started** are the leaves that are reached, each once and from left to right. -/
theorem Steady.begun_start (h : Steady rules Q known) (t : Formula α) {s : σ × List (Note α σ)}
    (hs : Q s.1) : (Note.begunOf (t.start rules.noting s).2.2).map (·.1) =
      (Note.begunOf s.2).map (·.1) ++ t.reached (Formula.outcome known) := by
  induction t using Formula.induction generalizing s with
  | leaf a =>
    show (Note.begunOf (rules.noting.start a s).2.2).map (·.1) = _
    rw [begunOf_noting_start, List.map_append]
    rfl
  | node op ts ih =>
    rw [Formula.start]
    dsimp only
    rw [notes_settle]
    exact h.begun_startEach (fun t ht s => ih t ht) Formula.cuts_nil hs

end

end Hydration
