import Hydration.Proofs.Requirement.Timing

/-!
# When a requirement fails

`Formula.failsAt` is the time at which a formula fails, for formulas with ANDs of any length:
an AND of up to thirty operands fails with the first of them, a longer one fails with an operand
once all operands before it have succeeded, and an OR fails with the last.  Awaiting a formula
does exactly this (`settlesAt_failsAt`), and no formula fails at two times (`SettlesAt.unique`).

A longer AND therefore may fail late, or never, though an operand has failed long ago.  It fails as
early as a short one would exactly if one of the operands that fail first has only operands before
it that have succeeded by then (`and_fails_earliest_iff`).
-/

namespace Hydration

/-! ## The outcome of a node that fails -/

namespace Join

variable {join : Join} {first rest : Option Bool}

theorem step_all_eq_false : Join.all.step first rest = some false ↔
    first = some false ∨ rest = some false := by
  rcases first with _ | _ | _ <;> rcases rest with _ | _ | _ <;> simp [step]

theorem step_inOrder_eq_false : Join.inOrder.step first rest = some false ↔
    first = some false ∨ first = some true ∧ rest = some false := by
  rcases first with _ | _ | _ <;> rcases rest with _ | _ | _ <;> simp [step]

theorem step_any_eq_false : Join.any.step first rest = some false ↔
    first = some false ∧ rest = some false := by
  rcases first with _ | _ | _ <;> rcases rest with _ | _ | _ <;> simp [step]

/-- The time at which a node fails by the times at which its first operand succeeds and fails, and
the time at which a node of the others fails. -/
noncomputable def failsAfter (join : Join) (succeeds fails others : ℕ∞) : ℕ∞ :=
  match join with
  | .all => min fails others
  | .inOrder => min fails (max succeeds others)
  | .any => max fails others

/-- The time at which a node without operands fails. -/
noncomputable def failsEmpty : Join → ℕ∞
  | .all => ⊤
  | .inOrder => ⊤
  | .any => 0

end Join

namespace Formula

variable {α : Type} {success failure : α → ℕ∞}

/-! ## The time of failing -/

mutual

/-- **The time at which a formula fails** when its leaves succeed and fail at the given times. -/
noncomputable def failsAt (success failure : α → ℕ∞) : Formula α → ℕ∞
  | leaf a => failure a
  | node op operands => nodeFailsAt success failure (Join.ofOperator op operands.length) operands

/-- The time at which a node fails that joins some operands. -/
noncomputable def nodeFailsAt (success failure : α → ℕ∞) (join : Join) : List (Formula α) → ℕ∞
  | [] => join.failsEmpty
  | operand :: rest =>
    join.failsAfter (operand.successTime success) (operand.failsAt success failure)
      (nodeFailsAt success failure join rest)

end

/-- **A formula has failed** by `x` exactly if its time of failing has come. -/
theorem outcome_eq_false_iff_failsAt {known : α → Option Bool} {x : ℕ}
    (hsuccess : ∀ a, known a = some true ↔ success a ≤ x)
    (hfailure : ∀ a, known a = some false ↔ failure a ≤ x) (t : Formula α) :
    t.outcome known = some false ↔ t.failsAt success failure ≤ x := by
  induction t using Formula.induction with
  | leaf a => exact hfailure a
  | node op operands ih =>
    rw [outcome_node, failsAt]
    generalize Join.ofOperator op operands.length = join
    induction operands with
    | nil => cases join <;> simp [Join.unit, nodeFailsAt, Join.failsEmpty]
    | cons t rest ihrest =>
      have ht := ih t List.mem_cons_self
      have hrest := ihrest fun u hu => ih u (List.mem_cons_of_mem _ hu)
      have htrue := outcome_eq_true_iff hsuccess t
      rw [List.map_cons, Join.combine_cons, nodeFailsAt]
      cases join with
      | all => rw [Join.step_all_eq_false, ht, hrest, Join.failsAfter, min_le_iff]
      | inOrder =>
        rw [Join.step_inOrder_eq_false, ht, htrue, hrest, Join.failsAfter, min_le_iff, max_le_iff]
      | any => rw [Join.step_any_eq_false, ht, hrest, Join.failsAfter, max_le_iff]

/-! ## ANDs of up to thirty operands -/

variable {operands : List (Formula α)} {x : ℕ∞}

/-- Joined in any order, operands fail with the first of them. -/
theorem nodeFailsAt_all : nodeFailsAt success failure .all operands =
    ⨅ t ∈ operands, t.failsAt success failure := by
  induction operands with
  | nil => simp [nodeFailsAt, Join.failsEmpty]
  | cons t rest ih =>
    rw [nodeFailsAt, Join.failsAfter, ih]
    simp [iInf_or, iInf_inf_eq]

/-! ## Longer ANDs -/

/-- Joined in order, operands have failed when one of them has and those before it have
succeeded. -/
theorem nodeFailsAt_inOrder_le_iff (hx : x ≠ ⊤) :
    nodeFailsAt success failure .inOrder operands ≤ x ↔
      ∃ before t after, operands = before ++ t :: after ∧ t.failsAt success failure ≤ x ∧
        ∀ u ∈ before, u.successTime success ≤ x := by
  induction operands with
  | nil => simp [nodeFailsAt, Join.failsEmpty, hx]
  | cons t rest ih =>
    rw [nodeFailsAt, Join.failsAfter, min_le_iff, max_le_iff, ih]
    constructor
    · rintro (hfails | ⟨hsucceeds, before, u, after, rfl, hfails, hbefore⟩)
      · exact ⟨[], t, rest, rfl, hfails, by simp⟩
      · exact ⟨t :: before, u, after, rfl, hfails, List.forall_mem_cons.mpr ⟨hsucceeds, hbefore⟩⟩
    · rintro ⟨before, u, after, hsplit, hfails, hbefore⟩
      cases before with
      | nil =>
        cases hsplit
        exact .inl hfails
      | cons v before =>
        cases hsplit
        obtain ⟨hsucceeds, hbefore⟩ := List.forall_mem_cons.mp hbefore
        exact .inr ⟨hsucceeds, before, u, after, rfl, hfails, hbefore⟩

/-- Joined in order, operands never fail before the first of them. -/
theorem le_nodeFailsAt_inOrder : ⨅ t ∈ operands, t.failsAt success failure ≤
    nodeFailsAt success failure .inOrder operands := by
  by_cases htop : nodeFailsAt success failure .inOrder operands = ⊤
  · rw [htop]
    exact le_top
  · obtain ⟨before, t, after, rfl, hfails, -⟩ := (nodeFailsAt_inOrder_le_iff htop).mp le_rfl
    exact (iInf₂_le t (by simp)).trans hfails

/-- **A longer AND fails as early as a short one** if one of the operands that fail first has only
operands before it that have succeeded by then. -/
theorem nodeFailsAt_inOrder_eq_iff :
    nodeFailsAt success failure .inOrder operands = ⨅ t ∈ operands, t.failsAt success failure ↔
      ⨅ t ∈ operands, t.failsAt success failure = ⊤ ∨
      ∃ before t after, operands = before ++ t :: after ∧
        t.failsAt success failure = ⨅ t ∈ operands, t.failsAt success failure ∧
        ∀ u ∈ before, u.successTime success ≤ ⨅ t ∈ operands, t.failsAt success failure := by
  have hle := @le_nodeFailsAt_inOrder α success failure operands
  generalize hearliest : ⨅ t ∈ operands, t.failsAt success failure = earliest at hle ⊢
  have hmem : ∀ t ∈ operands, earliest ≤ t.failsAt success failure := fun t ht =>
    hearliest ▸ iInf₂_le t ht
  by_cases htop : earliest = ⊤
  · subst htop
    exact iff_of_true (top_le_iff.mp hle) (.inl rfl)
  · rw [or_iff_right htop, ← hle.ge_iff_eq', nodeFailsAt_inOrder_le_iff htop]
    constructor
    · rintro ⟨before, t, after, hsplit, hfails, hbefore⟩
      exact ⟨before, t, after, hsplit, hfails.antisymm (hmem t (by simp [hsplit])), hbefore⟩
    · rintro ⟨before, t, after, hsplit, hfails, hbefore⟩
      exact ⟨before, t, after, hsplit, hfails.le, hbefore⟩

/-! ## Awaiting a formula -/

/-- **Awaited from any moment on**, for any duration, the formula has the given outcome exactly if
the time of it has come, and it has it at that very time. -/
def SettlesAt (condition : α → Condition) (behaviour? : α → Option Behaviour)
    (component : ComponentHandle) (succeeds : Bool) (t : Formula α) (time : ℕ∞) : Prop :=
  ∀ duration s, ∃ e s',
    t.await (rules condition (fun a => (behaviour? a).map .custom) component) (s.now + duration) s =
      (e, s') ∧
    (e.outcome? = some succeeds ↔ time ≤ duration) ∧
    (e.outcome? = some succeeds → (s'.now : ℕ∞) = s.now + time)

variable {condition : α → Condition} {behaviour? : α → Option Behaviour}
  {component : ComponentHandle} {succeeds : Bool} {t : Formula α} {time time' : ℕ∞}

/-- What is known of a formula by its leaves tells when it settles. -/
theorem settlesAt_of_outcome
    (htime : ∀ x : ℕ, t.outcome (fun a => Behaviour.outcomeAfter x (behaviour? a)) = some succeeds ↔
      time ≤ x) : SettlesAt condition behaviour? component succeeds t time := by
  intro duration s
  obtain ⟨final, e, s', hawait, hle, hnow, hwatching, hopen⟩ :=
    await_watching condition component t duration s
  refine ⟨e, s', hawait, hwatching.outcome_iff hle hopen htime, fun he => ?_⟩
  rw [hwatching.time_eq he htime, hnow]
  exact Nat.cast_add _ _

/-- Every formula succeeds at its time of success. -/
theorem settlesAt_successTime (t : Formula α) : SettlesAt condition behaviour? component true t
    (t.successTime fun a => Behaviour.successTime (behaviour? a)) :=
  settlesAt_of_outcome fun _ => outcome_eq_true_iff (fun _ => Behaviour.outcomeAfter_eq_true) t

/-- **Every formula fails at its time of failing.** -/
theorem settlesAt_failsAt (t : Formula α) : SettlesAt condition behaviour? component false t
    (t.failsAt (fun a => Behaviour.successTime (behaviour? a))
      fun a => Behaviour.failureTime (behaviour? a)) :=
  settlesAt_of_outcome fun _ => outcome_eq_false_iff_failsAt
    (fun _ => Behaviour.outcomeAfter_eq_true) (fun _ => Behaviour.outcomeAfter_eq_false) t

/-- A formula that settles at one time does not settle before another. -/
theorem SettlesAt.le (h : SettlesAt condition behaviour? component succeeds t time)
    (h' : SettlesAt condition behaviour? component succeeds t time') : time' ≤ time := by
  by_cases htop : time = ⊤
  · rw [htop]
    exact le_top
  · obtain ⟨duration, rfl⟩ := ENat.ne_top_iff_exists.mp htop
    obtain ⟨e, s, hawait, hiff, -⟩ := h duration {}
    obtain ⟨e', s', hawait', hiff', -⟩ := h' duration {}
    cases hawait.symm.trans hawait'
    exact hiff'.mp (hiff.mpr le_rfl)

/-- No formula settles at two times. -/
theorem SettlesAt.unique (h : SettlesAt condition behaviour? component succeeds t time)
    (h' : SettlesAt condition behaviour? component succeeds t time') : time = time' :=
  (h'.le h).antisymm (h.le h')

variable (condition behaviour? component) in
/-- **When an AND fails early.**  Every operand fails at a time of its own, which may be infinite.
An AND of up to thirty operands fails at the earliest of these times, wherever in the list the
operand stands that fails then and whatever the others do.  A longer AND does so exactly if no
operand ever fails, or one that fails first has only operands before it that have succeeded by
then. -/
theorem and_fails_earliest_iff (operands : List (Formula α)) :
    ∃ successes failures : Formula α → ℕ∞,
      (∀ t, SettlesAt condition behaviour? component true t (successes t)) ∧
      (∀ t, SettlesAt condition behaviour? component false t (failures t)) ∧
      let earliest := ⨅ t ∈ operands, failures t
      (SettlesAt condition behaviour? component false (node .and operands) earliest ↔
        operands.length ≤ Join.limit ∨ earliest = ⊤ ∨
        ∃ before t after, operands = before ++ t :: after ∧ failures t = earliest ∧
          ∀ u ∈ before, successes u ≤ earliest) := by
  let success a := Behaviour.successTime (behaviour? a)
  let failure a := Behaviour.failureTime (behaviour? a)
  refine ⟨successTime success, failsAt success failure, settlesAt_successTime, settlesAt_failsAt, ?_⟩
  intro earliest
  have hand : SettlesAt condition behaviour? component false (node .and operands)
      ((node .and operands).failsAt success failure) := settlesAt_failsAt _
  have htime : SettlesAt condition behaviour? component false (node .and operands) earliest ↔
      (node .and operands).failsAt success failure = earliest :=
    ⟨hand.unique, fun h => h ▸ hand⟩
  rw [htime, failsAt, Join.ofOperator]
  by_cases hlength : operands.length ≤ Join.limit
  · rw [if_pos hlength]
    exact iff_of_true nodeFailsAt_all (.inl hlength)
  · rw [if_neg hlength, nodeFailsAt_inOrder_eq_iff]
    exact (or_iff_right hlength).symm

/-- Thirty-one operands: one that never settles, many that succeed after 50 ms, and at the end one
that fails after 30 ms. -/
def thirtyOne : List Requirement :=
  Requirement.condition "later" ::
    (List.replicate 29 (Requirement.condition "slow") ++ [Requirement.condition "off"])

/-- The last of thirty-one operands fails after 30 ms and none fails before it, but the AND of
them does not fail then: it never settles. -/
theorem long_and_never_fails :
    let behaviour? := fun c : Condition => slowAndOff c.name
    thirtyOne.length = 31 ∧
      SettlesAt id behaviour? ⟨⟨0⟩, "1"⟩ false (Requirement.condition "off") 30 ∧
      (∀ t ∈ thirtyOne, ∃ time ≥ 30, SettlesAt id behaviour? ⟨⟨0⟩, "1"⟩ false t time) ∧
      ¬ SettlesAt id behaviour? ⟨⟨0⟩, "1"⟩ false (node .and thirtyOne) 30 ∧
      ∀ succeeds, SettlesAt id behaviour? ⟨⟨0⟩, "1"⟩ succeeds (node .and thirtyOne) ⊤ := by
  intro behaviour?
  -- Nothing counts before the first operand has succeeded, which it never does.
  have hopen : ∀ succeeds, SettlesAt id behaviour? ⟨⟨0⟩, "1"⟩ succeeds (node .and thirtyOne) ⊤ := by
    rintro (_ | _)
    · convert settlesAt_failsAt (node .and thirtyOne) using 1
      simp [failsAt, thirtyOne, Join.ofOperator, Join.limit, nodeFailsAt, Join.failsAfter,
        Requirement.condition, successTime, settleTime, behaviour?, slowAndOff,
        Behaviour.successTime, Behaviour.failureTime]
    · convert settlesAt_successTime (node .and thirtyOne) using 1
      simp [successTime, settleTime, thirtyOne, latest, Requirement.condition, behaviour?,
        slowAndOff, Behaviour.successTime]
  have hoff : SettlesAt id behaviour? ⟨⟨0⟩, "1"⟩ false (Requirement.condition "off") 30 := by
    convert settlesAt_failsAt (Requirement.condition "off") using 1
    simp [failsAt, Requirement.condition, behaviour?, slowAndOff, Behaviour.failureTime]
  refine ⟨by simp [thirtyOne], hoff, fun t ht => ?_, fun h => ?_, hopen⟩
  · refine ⟨_, ?_, settlesAt_failsAt t⟩
    simp only [thirtyOne, List.mem_cons, List.mem_append, List.mem_replicate,
      List.not_mem_nil, or_false] at ht
    rcases ht with rfl | ⟨-, rfl⟩ | rfl
    all_goals simp [failsAt, Requirement.condition, behaviour?, slowAndOff, Behaviour.failureTime]
  · have := h.unique (hopen false)
    simp at this

end Formula

end Hydration
