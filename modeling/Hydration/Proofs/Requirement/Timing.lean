import Hydration.Proofs.Requirement.Tracking
import Hydration.Proofs.Strategy.Wait
import Hydration.Requirement.Timed
import Mathlib.Data.ENat.Lattice

/-!
# When a requirement settles

Give each leaf of a formula a time, possibly infinite.  The formula then **succeeds** at
the latest of the times of its operands for an AND and at the earliest for an OR
(`successTime`), and it **fails** the other way round (`failureTime`).

`await_eq` says that awaiting a formula does exactly this.  The leaves are arbitrary:
each has a behaviour of its own, which succeeds or fails after some time or never
settles, or it has none.  The evaluator only ever resumes what waits, at the times of its timers;
the proof follows it from one of these times to the next.  Between two of them nothing
becomes known of a leaf that waits, so the outcome of the formula is the outcome of the
evaluation at every moment (`Watching`).
-/

namespace Hydration

namespace Formula

variable {α : Type}

/-! ## Times -/

mutual

/-- The time of a formula whose nodes with the operator `slow` take the latest of the times of
their operands and whose other nodes take the earliest. -/
noncomputable def settleTime (slow : Operator) (time : α → ℕ∞) : Formula α → ℕ∞
  | leaf a => time a
  | node op operands => if op = slow then latest slow time operands else earliest slow time operands

/-- The latest time of some operands, 0 if there are none. -/
noncomputable def latest (slow : Operator) (time : α → ℕ∞) : List (Formula α) → ℕ∞
  | [] => 0
  | operand :: rest => max (operand.settleTime slow time) (latest slow time rest)

/-- The earliest time of some operands, infinite if there are none. -/
noncomputable def earliest (slow : Operator) (time : α → ℕ∞) : List (Formula α) → ℕ∞
  | [] => ⊤
  | operand :: rest => min (operand.settleTime slow time) (earliest slow time rest)

end

/-- **The time at which a formula succeeds** when its leaves succeed at the given times: the latest
over the operands of an AND, the earliest over those of an OR. -/
noncomputable def successTime (time : α → ℕ∞) : Formula α → ℕ∞ :=
  settleTime .and time

/-- **The time at which a formula fails** when its leaves fail at the given times: the earliest over
the operands of an AND, the latest over those of an OR. -/
noncomputable def failureTime (time : α → ℕ∞) : Formula α → ℕ∞ :=
  settleTime .or time

/-- No AND has more operands than are joined in any order. -/
inductive Short : Formula α → Prop where
  | leaf (a : α) : Short (leaf a)
  | node {op : Operator} {operands : List (Formula α)} :
      (op = .and → operands.length ≤ Join.limit) → (∀ x ∈ operands, Short x) →
      Short (node op operands)

section

variable {slow : Operator} {time : α → ℕ∞} {x : ℕ}

theorem latest_le_iff {operands : List (Formula α)} :
    latest slow time operands ≤ x ↔ ∀ t ∈ operands, t.settleTime slow time ≤ x := by
  induction operands with
  | nil => simp [latest]
  | cons t operands ih => rw [latest, max_le_iff, ih, List.forall_mem_cons]

theorem earliest_le_iff {operands : List (Formula α)} :
    earliest slow time operands ≤ x ↔ ∃ t ∈ operands, t.settleTime slow time ≤ x := by
  induction operands with
  | nil => simp [earliest]
  | cons t operands ih => rw [earliest, min_le_iff, ih, List.exists_mem_cons_iff]

end

/-! ## Outcomes and times -/

variable {known : α → Option Bool} {time : α → ℕ∞} {x : ℕ}

/-- A formula has succeeded by `x` exactly if its time of success has come. -/
theorem outcome_eq_true_iff (h : ∀ a, known a = some true ↔ time a ≤ x) (t : Formula α) :
    t.outcome known = some true ↔ t.successTime time ≤ x := by
  rw [successTime]
  induction t using Formula.induction with
  | leaf a => exact h a
  | node op operands ih =>
    rw [outcome_node, settleTime]
    cases op with
    | and =>
      have hjoin : Join.ofOperator .and operands.length ≠ .any := by
        rw [Join.ofOperator]
        split <;> simp
      rw [Join.combine_eq_true hjoin, if_pos rfl, latest_le_iff]
      simp only [List.forall_mem_map]
      exact forall₂_congr ih
    | or =>
      rw [Join.ofOperator, Join.combine_any_eq_true, if_neg (by simp), earliest_le_iff,
        List.mem_map]
      exact exists_congr fun t => and_congr_right fun ht => ih t ht

/-- The same for failing, while no AND is too long. -/
theorem outcome_eq_false_iff (h : ∀ a, known a = some false ↔ time a ≤ x) {t : Formula α}
    (ht : t.Short) : t.outcome known = some false ↔ t.failureTime time ≤ x := by
  rw [failureTime]
  induction t using Formula.induction with
  | leaf a => exact h a
  | node op operands ih =>
    cases ht with
    | node hlength hshort =>
      rw [outcome_node, settleTime]
      cases op with
      | and =>
        rw [Join.ofOperator, if_pos (hlength rfl), Join.combine_all_eq_false, if_neg (by simp),
          earliest_le_iff, List.mem_map]
        exact exists_congr fun t => and_congr_right fun ht => ih t ht (hshort t ht)
      | or =>
        rw [Join.ofOperator, Join.combine_any_eq_false, if_pos rfl, latest_le_iff]
        simp only [List.forall_mem_map]
        exact forall₂_congr fun t ht => ih t ht (hshort t ht)

end Formula

/-! ## Behaviours on the clock -/

namespace Behaviour

/-- When a leaf succeeds that has this behaviour or none. -/
def successTime : Option Behaviour → ℕ∞
  | some ⟨some delay, .ok ()⟩ => delay
  | _ => ⊤

/-- When a leaf fails that has this behaviour or none. -/
def failureTime : Option Behaviour → ℕ∞
  | some ⟨some delay, .error _⟩ => delay
  | _ => ⊤

/-- What is known of such a leaf some time after it has been started. -/
def outcomeAfter (elapsed : ℕ) : Option Behaviour → Option Bool
  | some ⟨some delay, outcome⟩ => if delay ≤ elapsed then some outcome.isOk else none
  | _ => none

/-- What such a leaf waits for when it has been started at the time `start`. -/
def Awaits (start : ℕ) : Option Behaviour → Wait → Prop
  | some ⟨some delay, outcome⟩, v => ∃ ticket, v = .timer ticket (start + delay) outcome
  | _, v => v = .never

variable {b : Option Behaviour} {elapsed elapsed' : ℕ}

theorem outcomeAfter_eq_true : outcomeAfter elapsed b = some true ↔ successTime b ≤ elapsed := by
  rcases b with _ | ⟨_ | delay, _ | _⟩ <;>
    simp [outcomeAfter, successTime, Except.isOk, Except.toBool]

theorem outcomeAfter_eq_false : outcomeAfter elapsed b = some false ↔ failureTime b ≤ elapsed := by
  rcases b with _ | ⟨_ | delay, _ | _⟩ <;>
    simp [outcomeAfter, failureTime, Except.isOk, Except.toBool]

/-- What is known stays known. -/
theorem outcomeAfter_mono (h : elapsed ≤ elapsed') :
    Join.Extends (outcomeAfter elapsed' b) (outcomeAfter elapsed b) := by
  rcases b with _ | ⟨_ | delay, outcome⟩
  · exact .inl rfl
  · exact .inl rfl
  · rw [outcomeAfter, outcomeAfter]
    by_cases hd : delay ≤ elapsed
    · rw [if_pos hd, if_pos (hd.trans h)]
      exact .inr rfl
    · rw [if_neg hd]
      exact .inl rfl

/-- A wait for a leaf is ready when its outcome is known, and reports it. -/
theorem Awaits.isReady {start : ℕ} {v : Wait} {s : Surroundings} (h : Awaits start b v)
    (hs : s.now = start + elapsed) : v.isReady s = (outcomeAfter elapsed b).isSome := by
  rcases b with _ | ⟨_ | delay, outcome⟩
  · rw [Awaits] at h
    · rw [h]
      rfl
    · simp
  · rw [Awaits] at h
    · rw [h]
      rfl
    · simp
  · obtain ⟨ticket, rfl⟩ := h
    rw [Wait.isReady, outcomeAfter, hs]
    by_cases hd : delay ≤ elapsed
    · simp [hd]
    · simp [hd]

/-- Leaves with a behaviour of their own need no subscription. -/
theorem Awaits.isServed {start : ℕ} {v : Wait} (h : Awaits start b v) (s : Surroundings) :
    v.isServed s = true := by
  rcases b with _ | ⟨_ | delay, outcome⟩
  · rw [Awaits] at h
    · rw [h]
      rfl
    · simp
  · rw [Awaits] at h
    · rw [h]
      rfl
    · simp
  · obtain ⟨ticket, rfl⟩ := h
    rfl

theorem Awaits.outcome_ending {start : ℕ} {v : Wait} {name : String} {succeeds : Bool}
    (h : Awaits start b v) (hb : outcomeAfter elapsed b = some succeeds) :
    (Evaluation.ofSignal (NamedWait.attach name (v.ending name))).outcome? = some succeeds := by
  rcases b with _ | ⟨_ | delay, outcome⟩
  · cases hb
  · cases hb
  · obtain ⟨ticket, rfl⟩ := h
    rw [outcomeAfter] at hb
    split at hb
    · cases hb
      rcases outcome with _ | _
      · rfl
      · rfl
    · cases hb

end Behaviour

namespace Formula

section

variable {α : Type} (condition : α → Condition) (behaviour? : α → Option Behaviour)
  (component : ComponentHandle)

/-- The rules of leaves that have a behaviour of their own, or none and never settle. -/
def behaviourRules : LeafRules α NamedWait Surroundings :=
  rules condition (fun a => (behaviour? a).map .custom) component

/-- Leaves that have been started at the time `start`, when some time has passed. -/
def clockAccount (start elapsed : ℕ) :
    Account (behaviourRules condition behaviour? component)
      fun a => Behaviour.outcomeAfter elapsed (behaviour? a) where
  Valid s := s.now = start + elapsed
  Sees _ a v := Behaviour.Awaits start (behaviour? a) v.wait
  key _ := none
  resume_valid h := Wait.now_resume.trans h
  resume_outcome {s a v} h hv := by
    show (Evaluation.ofSignal
      (NamedWait.attach v.strategy (v.wait.resume v.strategy s).1)).outcome? = _
    rw [Wait.resume_fst (hv.isServed s), hv.isReady h]
    cases hb : Behaviour.outcomeAfter elapsed (behaviour? a) with
    | none => rfl
    | some succeeds => exact hv.outcome_ending hb
  resume_sees {s a v v'} h hv hw := by
    refine ⟨?_, hv⟩
    have hsignal : NamedWait.attach v.strategy (v.wait.resume v.strategy s).1 = .waiting v' := hw
    generalize hr : (v.wait.resume v.strategy s).1 = signal at hsignal
    cases signal with
    | waiting u =>
      rw [← Signal.waiting.inj hsignal, Wait.eq_of_resume_waiting hr]
    | succeeded => cases hsignal
    | failed error => cases hsignal
  resume_keeps _ hu _ := hu
  release_valid h := Wait.now_release.trans h
  release_keeps _ hu _ := hu

/-- A leaf that is started waits, or it settles at once; the clock stands still. -/
theorem behaviourRules_start (a : α) (s : Surroundings) :
    ∃ signal s', (behaviourRules condition behaviour? component).start a s = (signal, s') ∧
      s'.now = s.now ∧
      ((∃ v, signal = .waiting v ∧ Behaviour.Awaits s.now (behaviour? a) v.wait ∧
        Behaviour.outcomeAfter 0 (behaviour? a) = none) ∨
      ∃ name outcome, signal = NamedWait.attach name (Strategy.signalOf name outcome) ∧
        behaviour? a = some ⟨some 0, outcome⟩) := by
  rw [behaviourRules, rules]
  dsimp only
  rcases behaviour? a with _ | ⟨_ | _ | delay, outcome⟩
  · exact ⟨_, _, rfl, rfl, .inl ⟨_, rfl, rfl, rfl⟩⟩
  · exact ⟨_, _, rfl, rfl, .inl ⟨_, rfl, rfl, rfl⟩⟩
  · exact ⟨_, _, rfl, rfl, .inr ⟨_, _, rfl, rfl⟩⟩
  · exact ⟨_, _, rfl, rfl, .inl ⟨_, rfl, ⟨_, rfl⟩, rfl⟩⟩

/-- Leaves that are started report what is known of them at that moment. -/
theorem starts_clockAccount (start : ℕ) :
    (clockAccount condition behaviour? component start 0).Starts id where
  valid {s a} h := by
    obtain ⟨signal, s', hstart, hnow, -⟩ :=
      behaviourRules_start condition behaviour? component a s
    rw [hstart]
    exact hnow.trans h
  outcome {s a} h := by
    obtain ⟨signal, s', hstart, -, ⟨v, rfl, -, hnone⟩ | ⟨name, outcome, rfl, hb⟩⟩ :=
      behaviourRules_start condition behaviour? component a s
    · rw [hstart]
      exact hnone.symm
    · rw [hstart, id, hb]
      rcases outcome with _ | _
      · rfl
      · rfl
  sees {s a v} h hv := by
    obtain ⟨signal, s', hstart, -, ⟨u, rfl, hu, -⟩ | ⟨name, outcome, rfl, hb⟩⟩ :=
      behaviourRules_start condition behaviour? component a s
    · rw [hstart] at hv
      rw [← Signal.waiting.inj hv]
      have hstart : s.now = start := h
      exact hstart ▸ hu
    · rw [hstart] at hv
      rcases outcome with _ | _
      · cases hv
      · cases hv
  keeps _ hu := hu
  apart _ _ _ n hn := by
    cases hn

/-! ## From one timer to the next -/

variable {condition behaviour? component}

/-- **An evaluation that is watched**: it keeps track at the time of the clock, `elapsed` after
`start`, and nothing was known of the formula before unless there is a result already. -/
structure Watching (behaviour? : α → Option Behaviour) (start elapsed : ℕ) (t : Formula α)
    (e : Evaluation NamedWait) : Prop where
  tracks : Tracks (fun a => Behaviour.outcomeAfter elapsed (behaviour? a))
    (fun a v => Behaviour.Awaits start (behaviour? a) v.wait) t e
  first : ∀ earlier, earlier < elapsed →
    t.outcome (fun a => Behaviour.outcomeAfter earlier (behaviour? a)) = none

variable {start elapsed : ℕ} {t : Formula α} {e : Evaluation NamedWait}

/-- While no timer is due, the outcome stays that of the evaluation. -/
theorem Watching.outcome_eq (h : Watching behaviour? start elapsed t e) {later : ℕ}
    (hle : elapsed ≤ later)
    (hdue : ∀ v ∈ e.waits, ∀ due, v.wait.due? = some due → due ≤ start + later →
      due ≤ start + elapsed) :
    t.outcome (fun a => Behaviour.outcomeAfter later (behaviour? a)) = e.outcome? := by
  have hext : ∀ a, Join.Extends (Behaviour.outcomeAfter later (behaviour? a))
      (Behaviour.outcomeAfter elapsed (behaviour? a)) := fun a => Behaviour.outcomeAfter_mono hle
  have hchanged : Tracks (fun a => Behaviour.outcomeAfter later (behaviour? a))
      (fun a v => Behaviour.Awaits start (behaviour? a) v.wait) t e := by
    -- A leaf that still waits has a timer that is not due, or none at all.
    refine h.tracks.change hext fun a v hv hnone hw => ⟨?_, hw⟩
    rcases hb : behaviour? a with _ | ⟨_ | delay, outcome⟩
    · rfl
    · rfl
    · rw [hb] at hw hnone
      obtain ⟨ticket, hw⟩ := hw
      have := hdue v hv (start + delay) (by rw [hw]; rfl)
      rw [Behaviour.outcomeAfter] at hnone ⊢
      split at hnone
      · cases hnone
      · next hlate => rw [if_neg (by omega)]
  exact hchanged.outcome_eq

variable (condition component)

/-- The next time at which a timer is due. -/
theorem Watching.resume (h : Watching behaviour? start elapsed t e) (hopen : e.outcome? = none)
    {s : Surroundings} {later : ℕ} (hs : s.now = start + later) (hle : elapsed ≤ later)
    (hdue : ∀ v ∈ e.waits, ∀ due, v.wait.due? = some due →
      due ≤ start + elapsed ∨ start + later ≤ due) :
    Watching behaviour? start later t
        (e.resume (behaviourRules condition behaviour? component) s).1 ∧
      (e.resume (behaviourRules condition behaviour? component) s).2.now = start + later ∧
      (e.resume (behaviourRules condition behaviour? component) s).1.waits.Sublist e.waits := by
  have hext : ∀ a, Join.Extends (Behaviour.outcomeAfter later (behaviour? (id a)))
      (Behaviour.outcomeAfter elapsed (behaviour? a)) := fun a => Behaviour.outcomeAfter_mono hle
  have hapart : e.waits.Pairwise
      (Apart (clockAccount condition behaviour? component start later).key) :=
    List.pairwise_of_forall fun _ _ _ hn => by cases hn
  obtain ⟨htracks, hresumed⟩ := Account.resume_tracks id hext t
    (A := clockAccount condition behaviour? component start later) h.tracks hs hapart
  refine ⟨⟨htracks, fun earlier hearlier => ?_⟩, hresumed.valid, hresumed.sublist⟩
  by_cases hbefore : earlier < elapsed
  · exact h.first earlier hbefore
  · rw [h.outcome_eq (by omega) fun v hv due hdue' hle' => ?_, hopen]
    rcases hdue v hv due hdue' with hd | hd
    · exact hd
    · omega

/-- **From timer to timer**: when every timer that is due up to a time has had its turn, or there is
a result, the result came as soon as something was known of the formula. -/
theorem resumeAt_watching {times : List ℕ} {duration : ℕ} {s : Surroundings}
    (h : Watching behaviour? start elapsed t e) (hs : s.now = start + elapsed)
    (hle : elapsed ≤ duration) (hsorted : times.Pairwise (· ≤ ·))
    (htimes : ∀ time ∈ times, start + elapsed ≤ time ∧ time ≤ start + duration)
    (hcover : ∀ v ∈ e.waits, ∀ due, v.wait.due? = some due → due ≤ start + duration →
      due ≤ start + elapsed ∨ due ∈ times) :
    ∃ final e' s',
      resumeAt (behaviourRules condition behaviour? component) times (e, s) = (e', s') ∧
      final ≤ duration ∧ s'.now = start + final ∧ Watching behaviour? start final t e' ∧
      (e'.outcome? = none →
        t.outcome (fun a => Behaviour.outcomeAfter duration (behaviour? a)) = none) := by
  -- The times are in order, so no timer is passed over on the way to the next one.
  induction times generalizing elapsed e s with
  | nil =>
    refine ⟨elapsed, e, s, rfl, hle, hs, h, fun hopen => ?_⟩
    rw [h.outcome_eq hle fun v hv due hdue hlate => ?_, hopen]
    rcases hcover v hv due hdue hlate with hd | hd
    · exact hd
    · cases hd
  | cons time times ih =>
    rw [resumeAt]
    split
    · next hresult =>
      refine ⟨elapsed, e, s, rfl, hle, hs, h, fun hopen => ?_⟩
      rw [Evaluation.result?_isSome, hopen] at hresult
      cases hresult
    · next hresult =>
      have hopen : e.outcome? = none := by
        rw [Evaluation.result?_isSome] at hresult
        simpa using hresult
      obtain ⟨hfrom, hto⟩ := htimes time List.mem_cons_self
      obtain ⟨later, rfl⟩ := Nat.exists_eq_add_of_le (Nat.le_trans (Nat.le_add_right _ _) hfrom)
      rw [List.pairwise_cons] at hsorted
      have hdue : ∀ v ∈ e.waits, ∀ due, v.wait.due? = some due →
          due ≤ start + elapsed ∨ start + later ≤ due := by
        intro v hv due hdue
        by_cases hlate : due ≤ start + duration
        · rcases hcover v hv due hdue hlate with hd | hd
          · exact .inl hd
          · rcases List.mem_cons.mp hd with rfl | hd
            · exact .inr (Nat.le_refl _)
            · exact .inr (hsorted.1 due hd)
        · exact .inr (by omega)
      obtain ⟨hw, hnow, hsub⟩ := h.resume condition component hopen
        (s := { s with now := start + later }) rfl (by omega) hdue
      refine ih hw hnow (by omega) hsorted.2 (fun time' htime' => ⟨hsorted.1 time' htime',
        (htimes time' (List.mem_cons_of_mem _ htime')).2⟩) fun v hv due hdue hlate => ?_
      rcases hcover v (hsub.mem hv) due hdue hlate with hd | hd
      · exact .inl (by omega)
      · rcases List.mem_cons.mp hd with rfl | hd
        · exact .inl (Nat.le_refl _)
        · exact .inr hd

/-- Every timer of a formula that is started is due after its start. -/
theorem Watching.start_le (h : Watching behaviour? start elapsed t e) {v : NamedWait}
    (hv : v ∈ e.waits) {due : ℕ} (hdue : v.wait.due? = some due) : start ≤ due := by
  obtain ⟨a, -, -, hw⟩ := h.tracks.exists_leaf hv
  rcases hb : behaviour? a with _ | ⟨_ | delay, outcome⟩
  · rw [hb, Behaviour.Awaits] at hw
    · rw [hw] at hdue
      cases hdue
    · simp
  · rw [hb, Behaviour.Awaits] at hw
    · rw [hw] at hdue
      cases hdue
    · simp
  · rw [hb] at hw
    obtain ⟨ticket, hw⟩ := hw
    rw [hw] at hdue
    cases hdue
    omega

/-- **What awaiting gives** is an evaluation that has been watched until it had a result or the
time had passed. -/
theorem await_watching (t : Formula α) (duration : ℕ) (s : Surroundings) :
    ∃ final e s', t.await (behaviourRules condition behaviour? component) (s.now + duration) s =
        (e, s') ∧ final ≤ duration ∧ s'.now = s.now + final ∧
      Watching behaviour? s.now final t e ∧
      (e.outcome? = none →
        t.outcome (fun a => Behaviour.outcomeAfter duration (behaviour? a)) = none) := by
  obtain ⟨htracks, hbegun⟩ := Account.start_tracks
    (starts_clockAccount condition behaviour? component s.now) t (s := s) rfl
  have hwatching : Watching behaviour? s.now 0 t
      (t.start (behaviourRules condition behaviour? component) s).1 :=
    ⟨htracks, fun _ h => absurd h (Nat.not_lt_zero _)⟩
  refine resumeAt_watching condition component hwatching hbegun.valid (Nat.zero_le _) ?_ ?_ ?_
  · have hsorted := @List.pairwise_mergeSort ℕ (fun a b => decide (a ≤ b))
      (by simp only [decide_eq_true_eq]; omega)
      (by simp only [Bool.or_eq_true, decide_eq_true_eq]; omega)
    simpa [dueTimes] using hsorted _
  · intro time htime
    simp only [dueTimes, List.mem_mergeSort, List.mem_filter, List.mem_filterMap,
      decide_eq_true_eq] at htime
    obtain ⟨⟨v, hv, hdue⟩, hle⟩ := htime
    exact ⟨hwatching.start_le hv hdue, hle⟩
  · intro v hv due hdue hle
    right
    simp only [dueTimes, List.mem_mergeSort, List.mem_filter, List.mem_filterMap,
      decide_eq_true_eq]
    exact ⟨⟨v, hv, hdue⟩, hle⟩

/-- A watched evaluation has its result at the time of the formula. -/
theorem Watching.time_eq (h : Watching behaviour? start elapsed t e) {succeeds : Bool}
    (he : e.outcome? = some succeeds) {time : ℕ∞}
    (htime : ∀ x : ℕ, t.outcome (fun a => Behaviour.outcomeAfter x (behaviour? a)) = some succeeds ↔
      time ≤ x) : time = elapsed := by
  refine le_antisymm ((htime elapsed).mp (h.tracks.outcome_eq.trans he)) ?_
  by_contra hlt
  -- An earlier time would be finite, and something would have been known of the formula then.
  obtain ⟨earlier, rfl⟩ := ENat.ne_top_iff_exists.mp (ne_top_of_lt (not_le.mp hlt))
  have hearlier : earlier < elapsed := by exact_mod_cast not_le.mp hlt
  have := (htime earlier).mpr le_rfl
  rw [h.first earlier hearlier] at this
  cases this

/-- **Awaiting settles at the time of the formula.** -/
theorem Watching.outcome_iff (h : Watching behaviour? start elapsed t e) {duration : ℕ}
    (hle : elapsed ≤ duration) (hopen : e.outcome? = none →
      t.outcome (fun a => Behaviour.outcomeAfter duration (behaviour? a)) = none)
    {succeeds : Bool} {time : ℕ∞}
    (htime : ∀ x : ℕ, t.outcome (fun a => Behaviour.outcomeAfter x (behaviour? a)) = some succeeds ↔
      time ≤ x) : e.outcome? = some succeeds ↔ time ≤ duration := by
  constructor
  · intro he
    rw [h.time_eq he htime]
    exact_mod_cast hle
  · intro hsettled
    have hduration := (htime duration).mpr hsettled
    cases he : e.outcome? with
    | none =>
      rw [hopen he] at hduration
      cases hduration
    | some settled =>
      have hext := Formula.outcome_mono (fun a =>
        Behaviour.outcomeAfter_mono (b := behaviour? a) hle) t
      rw [← hduration, hext.of_some (h.tracks.outcome_eq.trans he)]

end

/-- **When a formula settles.**  Each leaf has a behaviour of its own, which succeeds or fails after
some time or never settles, or it has none.  Awaited for some time, the formula succeeds exactly if
its time of success has come by then, and at that very time.  If no AND has too many operands, it
fails exactly if its time of failure has come, at that very time, and it is still open if both
are infinite. -/
theorem await_settles {α : Type} (condition : α → Condition) (behaviour? : α → Option Behaviour)
    (component : ComponentHandle) (t : Formula α) (duration : ℕ) (s : Surroundings) :
    let succeeds := t.successTime fun a => Behaviour.successTime (behaviour? a)
    let fails := t.failureTime fun a => Behaviour.failureTime (behaviour? a)
    ∃ e s', t.await (rules condition (fun a => (behaviour? a).map .custom) component)
        (s.now + duration) s = (e, s') ∧
      (e.result? = some (.ok ()) ↔ succeeds ≤ duration) ∧
      (e.result? = some (.ok ()) → (s'.now : ℕ∞) = s.now + succeeds) ∧
      (t.Short →
        ((∃ error, e.result? = some (.error error)) ↔ fails ≤ duration) ∧
        ((∃ error, e.result? = some (.error error)) → (s'.now : ℕ∞) = s.now + fails) ∧
        (succeeds = ⊤ → fails = ⊤ → e.result? = none)) := by
  intro succeeds fails
  obtain ⟨final, e, s', hawait, hle, hnow, hwatching, hopen⟩ :=
    await_watching condition component t duration s
  have hsuccess : ∀ x : ℕ,
      t.outcome (fun a => Behaviour.outcomeAfter x (behaviour? a)) = some true ↔
      succeeds ≤ x := fun x => outcome_eq_true_iff (fun _ => Behaviour.outcomeAfter_eq_true) t
  have htrue : e.result? = some (.ok ()) ↔ e.outcome? = some true := by
    cases e <;> simp [Evaluation.result?, Evaluation.outcome?]
  have hfalse : (∃ error, e.result? = some (.error error)) ↔ e.outcome? = some false := by
    cases e <;> simp [Evaluation.result?, Evaluation.outcome?]
  refine ⟨e, s', hawait, ?_, ?_, fun hshort => ?_⟩
  · rw [htrue]
    exact hwatching.outcome_iff hle hopen hsuccess
  · intro he
    rw [hwatching.time_eq (htrue.mp he) hsuccess, hnow]
    exact Nat.cast_add _ _
  · have hfailure : ∀ x : ℕ, t.outcome (fun a => Behaviour.outcomeAfter x (behaviour? a)) =
        some false ↔ fails ≤ x :=
      fun x => outcome_eq_false_iff (fun _ => Behaviour.outcomeAfter_eq_false) hshort
    refine ⟨?_, ?_, ?_⟩
    · rw [hfalse]
      exact hwatching.outcome_iff hle hopen hfailure
    · intro he
      rw [hwatching.time_eq (hfalse.mp he) hfailure, hnow]
      exact Nat.cast_add _ _
    · intro hs hf
      have hnot : e.outcome? = none := by
        refine Join.eq_none (fun he => ?_) fun he => ?_
        · have := (hwatching.outcome_iff hle hopen hsuccess).mp he
          simp [hs] at this
        · have := (hwatching.outcome_iff hle hopen hfailure).mp he
          simp [hf] at this
      cases e <;> simp_all [Evaluation.result?, Evaluation.outcome?]

end Formula

/-- A requirement on a page without built-in strategies is awaited by these rules. -/
theorem Requirement.await_eq {table : StrategyTable} {behaviour? : String → Option Behaviour}
    (h : ∀ name, table.get? name = (behaviour? name).map .custom) (t : Requirement)
    (component : ComponentHandle) (limit : ℕ) (s : Surroundings) :
    t.await table component limit s =
      Formula.await t
        (Formula.rules id (fun c : Condition => (behaviour? c.name).map .custom) component)
        limit s := by
  simp only [Requirement.await, Requirement.rules, h]

namespace Formula

/-- A strategy that succeeds after 50 ms, and one that fails after 30 ms. -/
def slowAndOff (name : String) : Option Behaviour :=
  if name = "off" then some ⟨some 30, .error (.platform "off")⟩
  else if name = "slow" then some ⟨some 50, .ok ()⟩
  else none

/-- Awaited for 40 ms, an AND of the two has failed after 30 ms. -/
theorem await_settles_failure :
    ∃ e s', Requirement.await
        (.node .and [Requirement.condition "slow", Requirement.condition "off"])
        ⟨[("off", .custom ⟨some 30, .error (.platform "off")⟩),
          ("slow", .custom ⟨some 50, .ok ()⟩)]⟩
        ⟨⟨0⟩, "1"⟩ (0 + 40) {} = (e, s') ∧
      (∃ error, e.result? = some (.error error)) ∧ (s'.now : ℕ∞) = 30 := by
  have htable : ∀ name, StrategyTable.get?
      ⟨[("off", .custom ⟨some 30, .error (.platform "off")⟩), ("slow", .custom ⟨some 50, .ok ()⟩)]⟩
      name = (slowAndOff name).map .custom := by
    intro name
    by_cases hoff : name = "off"
    · subst hoff
      rfl
    · by_cases hslow : name = "slow"
      · subst hslow
        rfl
      · have hoff' : (name == "off") = false := by simpa using hoff
        have hslow' : (name == "slow") = false := by simpa using hslow
        simp [StrategyTable.get?, List.lookup_cons, slowAndOff, hoff, hslow, hoff', hslow']
  obtain ⟨e, s', hawait, -, -, hshort⟩ := await_settles id
    (fun c : Condition => slowAndOff c.name) ⟨⟨0⟩, "1"⟩
    (.node .and [Requirement.condition "slow", Requirement.condition "off"]) 40 {}
  have hlength : (Formula.node .and [Requirement.condition "slow",
      Requirement.condition "off"]).Short := .node (fun _ => by decide) fun x hx => by
    rcases List.mem_cons.mp hx with rfl | hx
    · exact .leaf _
    · rw [List.mem_singleton.mp hx]
      exact .leaf _
  obtain ⟨hfails, hnow, -⟩ := hshort hlength
  have htime : failureTime (fun c : Condition => Behaviour.failureTime (slowAndOff c.name))
      (.node .and [Requirement.condition "slow", Requirement.condition "off"]) = 30 := by
    simp [failureTime, settleTime, earliest, Requirement.condition, slowAndOff,
      Behaviour.failureTime]
  rw [htime] at hfails hnow
  have hfailed := hfails.mpr (by exact_mod_cast (by omega : 30 ≤ 40))
  refine ⟨e, s', (Requirement.await_eq htable _ _ _ _).trans hawait, hfailed, ?_⟩
  rw [hnow hfailed]
  simp

end Formula

end Hydration
