import Hydration.Proofs.Strategy.Account
import Hydration.Proofs.Strategy.Calls

/-!
# Which strategies are called, and who listens then

A wait that has just begun **listens** (`Wait.Listens`): if its strategy is `event` it has a
subscription of its own with nothing in the inbox, and otherwise what it awaits has not happened.
From then on it is told of every event (`Listens.told`).

While a requirement is being started other leaves are started and released, which does not
concern the waits that there are: they listen as long as no time passes and the platform stays
what it is (`listening`), so all waits of a requirement that has been started do (`listens_start`).

Together with the marks of calls and the leaves that are reached this says which strategies a
requirement calls, when and in which order, and that no event is missed (`starts_reached`).
-/

namespace Hydration

variable {α : Type} {condition : α → Condition} {strategy? : α → Option Strategy}
  {component : ComponentHandle} {a : α} {s s' : Surroundings} {name : String}
  {argument : Option String} {wait : Wait}

namespace Wait

/-- **A wait listens** for what is accepted, or it waits for something else than an event. -/
def Listens (accepts? : Option (Event → Bool)) (s : Surroundings) : Wait → Prop
  | event number _ =>
    ∃ accepts, accepts? = some accepts ∧ s.bus.find? number = some ⟨number, accepts, [], false⟩
  | wait => accepts? = none ∧ wait.isReady s = false

variable {accepts? : Option (Event → Bool)} {accepts : Event → Bool}

theorem Listens.isServed (h : wait.Listens accepts? s) : wait.isServed s = true := by
  cases wait with
  | event number awaited =>
    obtain ⟨accepts, -, hfind⟩ := h
    rw [Wait.isServed, Bus.serves, hfind]
    rfl
  | _ => rfl

theorem Listens.not_ready (h : wait.Listens accepts? s) : wait.isReady s = false := by
  cases wait with
  | event number awaited =>
    obtain ⟨accepts, -, hfind⟩ := h
    rw [isReady, hfind]
    rfl
  | _ => exact h.2

theorem Listens.exists_subscription (h : wait.Listens accepts? s) {n : Nat}
    (hn : wait.subscription? = some n) : ∃ sub, s.bus.find? n = some sub := by
  cases wait with
  | event number awaited =>
    cases hn
    obtain ⟨accepts, -, hfind⟩ := h
    exact ⟨_, hfind⟩
  | _ => cases hn

/-- Only the subscription that a wait owns matters to it. -/
theorem Listens.congr (h : wait.Listens accepts? s) (hnow : s'.now = s.now)
    (hplatform : s'.platform = s.platform)
    (hbus : ∀ n, wait.subscription? = some n → s'.bus.find? n = s.bus.find? n) :
    wait.Listens accepts? s' := by
  cases wait with
  | event number awaited =>
    obtain ⟨accepts, haccepts, hfind⟩ := h
    exact ⟨accepts, haccepts, (hbus number rfl).trans hfind⟩
  | timer ticket due outcome =>
    refine ⟨h.1, ?_⟩
    rw [isReady, hnow]
    exact h.2
  | never => exact h
  | _ =>
    refine ⟨h.1, ?_⟩
    rw [isReady, hplatform]
    exact h.2

/-- A wait that listens goes on when it is looked at, and listens. -/
theorem Listens.resume (h : wait.Listens accepts? s) :
    (wait.resume name s).1 = .waiting wait ∧ wait.Listens accepts? (wait.resume name s).2 := by
  refine ⟨?_, ?_⟩
  · rw [resume_fst h.isServed, h.not_ready]
    rfl
  · rw [resume_snd]
    cases wait with
    | event number awaited =>
      obtain ⟨accepts, haccepts, hfind⟩ := h
      have hnone : (s.bus.look number).1 = none := by
        rw [Bus.look_fst, hfind]
        rfl
      refine ⟨accepts, haccepts, ?_⟩
      dsimp only
      rw [Bus.find?_look_self hnone, hfind]
      rfl
    | _ => exact h

theorem find?_publishAll {b : Bus} {number : Nat} {inbox : List Event} (log : List Event)
    (h : b.find? number = some ⟨number, accepts, inbox, false⟩) :
    (log.foldl Bus.publish b).find? number = some ⟨number, accepts, inbox ++ log, false⟩ := by
  induction log generalizing b inbox with
  | nil => rwa [List.append_nil]
  | cons e log ih =>
    rw [List.foldl_cons, List.append_cons]
    refine ih ?_
    rw [Bus.find?_publish, h]
    rfl

/-- **A wait that listens is told of every event** from then on. -/
theorem Listens.told (h : wait.Listens (some accepts) s) (log : List Event) :
    wait.isReady { s with bus := log.foldl Bus.publish s.bus } = log.any accepts := by
  cases wait with
  | event number awaited =>
    obtain ⟨_, haccepts, hfind⟩ := h
    obtain rfl := Option.some.inj haccepts
    rw [isReady, find?_publishAll log hfind]
    rfl
  | _ => cases h.1

end Wait

/-! ## Leaves that begin to listen -/

/-- **What beginning to listen comes to**: subscriptions stay what they are, and a wait listens and
owns something new. -/
structure Strategy.Opens (accepts? : Option (Event → Bool)) (s : Surroundings)
    (signal : Signal Wait) (s' : Surroundings) : Prop where
  numbered : s'.bus.Numbered
  keeps : ∀ n sub, s.bus.find? n = some sub → s'.bus.find? n = some sub
  listens : ∀ wait, signal = .waiting wait → wait.Listens accepts? s' ∧
    ∀ n, wait.subscription? = some n → s.bus.next ≤ n

namespace Strategy

/-- A leaf that touches no subscription. -/
theorem opens_of_bus {signal : Signal Wait} (hbus : s.bus.Numbered) (hsame : s'.bus = s.bus)
    (hsignal : ∀ wait, signal = .waiting wait → wait.Listens none s' ∧ wait.subscription? = none) :
    Opens none s signal s' := by
  refine ⟨hsame ▸ hbus, fun n sub h => hsame ▸ h, fun wait hwait => ⟨(hsignal wait hwait).1, ?_⟩⟩
  rw [(hsignal wait hwait).2]
  intro n hn
  cases hn

theorem opens_settled {signal : Signal Wait} (hbus : s.bus.Numbered) (hsame : s'.bus = s.bus)
    (hsettled : (Evaluation.ofSignal signal).waits = []) : Opens none s signal s' := by
  refine opens_of_bus hbus hsame fun wait hwait => ?_
  rw [← Evaluation.mem_waits_ofSignal, hsettled] at hwait
  exact absurd hwait List.not_mem_nil

theorem opens_waiting (hbus : s.bus.Numbered) (hsame : s'.bus = s.bus)
    (hlistens : wait.Listens none s') (hnone : wait.subscription? = none) :
    Opens none s (.waiting wait) s' :=
  opens_of_bus hbus hsame fun _ h => Signal.waiting.inj h ▸ ⟨hlistens, hnone⟩

/-- A timer is not due when it is set, unless it takes no time. -/
theorem opens_timer {s₁ : Surroundings} {delay : Nat} {outcome : Except StrategyError Unit}
    (hbus : s.bus.Numbered) (hsame : s'.bus = s.bus) (hnow : s'.now = s₁.now) (hdelay : 0 < delay) :
    Opens none s (.waiting (setTimer s₁ delay outcome).1) s' := by
  refine opens_waiting hbus hsame ⟨rfl, ?_⟩ rfl
  refine decide_eq_false ?_
  omega

/-- **A strategy that begins to wait** listens. -/
theorem start_opens (strategy : Strategy) (name : String) (component : ComponentHandle)
    (argument : Option String) (hbus : s.bus.Numbered) :
    Opens (strategy.listens? component argument) s (strategy.start name component argument s).1
      (strategy.start name component argument s).2 := by
  cases strategy with
  | eager => exact opens_settled hbus rfl rfl
  | event =>
    rw [start_event]
    refine ⟨hbus.listen, fun n sub => Bus.find?_listen, fun wait hwait => ?_⟩
    cases hwait
    refine ⟨⟨_, rfl, Bus.find?_listen_next _ hbus⟩, fun n hn => ?_⟩
    cases hn
    exact Nat.le_refl _
  | idle =>
    rw [start]
    split
    · exact opens_waiting hbus rfl ⟨rfl, by simp [Wait.isReady]⟩ rfl
    · exact opens_timer hbus rfl rfl (by decide)
  | media =>
    rw [start]
    split
    · exact opens_settled hbus rfl rfl
    · dsimp only
      split
      · exact opens_settled hbus rfl rfl
      · next hnot => exact opens_waiting hbus rfl ⟨rfl, (Bool.not_eq_true _).mp hnot⟩ rfl
  | visible =>
    rw [start]
    split
    · exact opens_settled hbus rfl rfl
    · next hnot => exact opens_waiting hbus rfl ⟨rfl, (Bool.not_eq_true _).mp hnot⟩ rfl
  | custom behaviour =>
    rw [start]
    dsimp only
    split
    · exact opens_waiting hbus rfl ⟨rfl, rfl⟩ rfl
    · refine opens_settled hbus rfl ?_
      cases behaviour.outcome <;> rfl
    · next delay hdelay _ => exact opens_timer hbus rfl rfl (Nat.pos_of_ne_zero hdelay)

end Strategy

namespace Formula

/-- A leaf that begins to wait listens. -/
theorem rules_start_opens (a : α) (hbus : s.bus.Numbered) :
    let r := (rules condition strategy? component).start a s
    r.2.bus.Numbered ∧ (∀ n sub, s.bus.find? n = some sub → r.2.bus.find? n = some sub) ∧
      ∀ v, r.1 = .waiting v → v.wait.Listens (listens? condition strategy? component a) r.2 ∧
        ∀ n, v.wait.subscription? = some n → s.bus.next ≤ n := by
  rw [listens?]
  cases hstrategy : strategy? a with
  | none =>
    rw [rules_start_of_none hstrategy]
    refine ⟨hbus, fun _ _ => id, fun v hv => ?_⟩
    cases hv
    refine ⟨⟨rfl, rfl⟩, fun n hn => ?_⟩
    cases hn
  | some strategy =>
    rw [rules_start_of_some hstrategy]
    have hopens := strategy.start_opens (condition a).name component (condition a).argument hbus
    refine ⟨hopens.numbered, hopens.keeps, fun v hv => ?_⟩
    obtain ⟨wait, hwait, rfl⟩ := NamedWait.attach_waiting.mp hv
    exact hopens.listens wait hwait

variable (condition strategy? component)

/-- A leaf that listens goes on when it is looked at. -/
theorem noting_resume_of_listens {accepts? : Option (Event → Bool)} {v : α × NamedWait}
    {s : Surroundings × List (Note α Surroundings)} (h : v.2.wait.Listens accepts? s.1) :
    ((rules condition strategy? component).noting.resume v s).1 = .waiting v ∧
      v.2.wait.Listens accepts?
        ((rules condition strategy? component).noting.resume v s).2.1 := by
  obtain ⟨hwait, hlistens⟩ := @Wait.Listens.resume _ v.2.strategy _ _ h
  refine ⟨?_, hlistens⟩
  show (NamedWait.attach v.2.strategy (v.2.wait.resume v.2.strategy s.1).1).map (v.1, ·) = _
  rw [hwait]
  rfl

/-- **Waits listen** as long as no time passes and the platform stays what it is. -/
def listening (s : Surroundings) : Account (rules condition strategy? component).noting
    (settledAtOnce condition strategy? component s) where
  Valid s' := s'.1.now = s.now ∧ s'.1.platform = s.platform ∧ s'.1.bus.Numbered
  Sees s' a v := v.1 = a ∧
    settledAtOnce condition strategy? component s a = none ∧
    v.2.wait.Listens (listens? condition strategy? component a) s'.1
  key v := v.2.wait.subscription?
  resume_valid h := ⟨Wait.now_resume.trans h.1, Wait.platform_resume.trans h.2.1,
    Wait.numbered_resume h.2.2⟩
  resume_outcome {s' a v} _ hv := by
    rw [hv.2.1, (noting_resume_of_listens condition strategy? component hv.2.2).1]
    rfl
  resume_sees {s' a v v'} _ hv hw := by
    obtain ⟨hwait, hlistens⟩ :=
      noting_resume_of_listens condition strategy? component hv.2.2
    rw [hwait] at hw
    exact ⟨(Signal.waiting.inj hw).symm, hv.1, hv.2.1, hlistens⟩
  resume_keeps {s' v a u} _ hu hapart :=
    ⟨hu.1, hu.2.1, hu.2.2.congr Wait.now_resume Wait.platform_resume fun n hn =>
      Trigger.subscription?_resume n v.2.strategy fun hv => hapart n hv hn⟩
  release_valid h := ⟨Wait.now_release.trans h.1, Wait.platform_release.trans h.2.1,
    Wait.numbered_release h.2.2⟩
  release_keeps {s' v a u} _ hu hapart :=
    ⟨hu.1, hu.2.1, hu.2.2.congr Wait.now_release Wait.platform_release fun n hn =>
      Trigger.subscription?_release n fun hv => hapart n hv hn⟩

theorem starts_listening (s : Surroundings) :
    (listening condition strategy? component s).Starts id where
  valid {s' a} h := by
    have hsteady := (steady_rules condition strategy? component s).start a s'.1 ⟨h.1, h.2.1⟩
    exact ⟨hsteady.1, hsteady.2, (rules_start_opens a h.2.2).1⟩
  outcome {s' a} h := by
    have hsteady := (steady_rules condition strategy? component s).noting
    exact hsteady.known a s' ⟨h.1, h.2.1⟩
  sees {s' a v} h hv := by
    have hnone := (steady_rules condition strategy? component s).noting.known a s' ⟨h.1, h.2.1⟩
    rw [hv] at hnone
    obtain ⟨u, hu, rfl⟩ := Signal.map_eq_waiting.mp hv
    exact ⟨rfl, hnone.symm, ((rules_start_opens a h.2.2).2.2 u hu).1⟩
  keeps {s' a b u} h hu := by
    have hmarks := rules_start_marks condition strategy? component s'.1 a
    refine ⟨hu.1, hu.2.1, hu.2.2.congr hmarks.now hmarks.platform fun n hn => ?_⟩
    obtain ⟨sub, hsub⟩ := hu.2.2.exists_subscription hn
    rw [hsub]
    exact (rules_start_opens a h.2.2).2.1 n sub hsub
  apart {s' a v b u} h hv hu n hn hn' := by
    -- What there is has a smaller number than what is new.
    obtain ⟨v', hv', rfl⟩ := Signal.map_eq_waiting.mp hv
    have hnew := ((rules_start_opens a h.2.2).2.2 v' hv').2 n hn
    obtain ⟨sub, hsub⟩ := hu.2.2.exists_subscription hn'
    obtain ⟨hmem, rfl, -⟩ := Bus.mem_of_find? hsub
    exact absurd (h.2.2 sub hmem) (Nat.not_lt.mpr hnew)

/-- **The waits of a formula that has been started** listen. -/
theorem listens_start (t : Formula α) (hbus : s.bus.Numbered) {v : α × NamedWait}
    (hv : v ∈ (t.start (rules condition strategy? component).noting (s, [])).1.waits) :
    v.2.wait.Listens (listens? condition strategy? component v.1)
      (t.start (rules condition strategy? component) s).2 := by
  have hbegun := (Account.start_tracks (starts_listening condition strategy? component s) t
    (s := (s, [])) ⟨rfl, rfl, hbus⟩).2
  obtain ⟨a, rfl, -, hlistens⟩ := hbegun.seen v hv
  rw [(simulates_noting _).formula_start t (s, [])]
  exact hlistens

/-- **Which leaves are started, and when.**  `atOnce` says what formulas come to when they are
started in the state `s`.

* In every run the leaves that are started are those that are reached, each occurrence once, from
  left to right and at the time of `s`.
* A leaf is not reached exactly if a node above it has settled by what operands before it have come
  to at once: an AND of up to thirty by a failure, a longer one by a failure behind nothing but
  successes, and an OR by a success.
* Strategies that are not built in are called for the leaves that are reached, with the arguments
  of these leaves, and `event` subscribes for them, before anything is resumed; resuming calls and
  subscribes nothing.
* Every wait for an event among those that are left is told of all events from then on. -/
theorem starts_reached (t : Formula α) (s : Surroundings)
    (changes : List (Surroundings → Surroundings)) :
    let rules := rules condition strategy? component
    let atOnce := fun u : Formula α => (u.start rules s).1.outcome?
    let begun := Note.begunOf (t.notes rules s changes)
    let started := (t.start rules s).2
    t.run rules s changes =
      ((t.noted rules s changes).1.map Prod.snd, (t.noted rules s changes).2.1) ∧
    (begun.map (·.1) = t.reached atOnce ∧ ∀ p ∈ begun, p.2.now = s.now) ∧
    (t.occurrences.map (·.leaf) = t.leaves ∧ ∀ o ∈ t.occurrences,
      (o.isReached atOnce = false ↔ ∃ step ∈ o.above,
        step.op = .and ∧ step.count ≤ 30 ∧ (∃ u ∈ step.before, atOnce u = some false) ∨
        step.op = .and ∧ 30 < step.count ∧ (∃ earlier u later,
          step.before = earlier ++ u :: later ∧ (∀ v ∈ earlier, atOnce v = some true) ∧
            atOnce u = some false) ∨
        step.op = .or ∧ ∃ u ∈ step.before, atOnce u = some true)) ∧
    (started.calls = s.calls ++
        (t.reached atOnce).filterMap (call? condition strategy? component s.now) ∧
      started.bus.subscriptions.map (·.accepts) = s.bus.subscriptions.map (·.accepts) ++
        (t.reached atOnce).filterMap (listens? condition strategy? component) ∧
      ∀ (e : Evaluation NamedWait) s', (e.resume rules s').2.calls = s'.calls ∧
        (e.resume rules s').2.bus.subscriptions.map (·.accepts) =
          s'.bus.subscriptions.map (·.accepts)) ∧
    (s.bus.Numbered → ∀ v ∈ (t.noted rules s []).1.waits,
      ∀ accepts, listens? condition strategy? component v.1 = some accepts → ∀ log : List Event,
        v.2.wait.isReady { started with bus := log.foldl Bus.publish started.bus } =
          log.any accepts) := by
  intro rules atOnce begun started
  have hsteady := steady_rules condition strategy? component s
  have hatOnce : atOnce = Formula.outcome _ := funext fun u => hsteady.outcome_start u ⟨rfl, rfl⟩
  have hcalled := called_start condition strategy? component t s
  have hbegun : begun = Note.begunOf (t.start rules.noting (s, [])).2.2 :=
    begun_run rules t s changes
  have hreached : begun.map (·.1) = t.reached atOnce := by
    rw [hbegun, hatOnce]
    exact hsteady.begun_start t ⟨rfl, rfl⟩
  have hstarted : started = (t.start rules.noting (s, [])).2.1 :=
    congrArg Prod.snd ((simulates_noting rules).formula_start t (s, []))
  refine ⟨run_noting rules t s changes, ⟨hreached, ?_⟩, ⟨map_leaf_occurrences t, fun o _ => ?_⟩,
    ⟨?_, ?_, resume_leaves⟩, fun hbus v hv accepts haccepts log => ?_⟩
  · rw [hbegun]
    exact hcalled.times
  · rw [Occurrence.isReached, List.all_eq_false]
    simp only [Bool.not_eq_true', Bool.not_eq_false, Step.cuts_iff]
    rfl
  · rw [← hreached, hbegun, hstarted]
    exact hcalled.calls
  · rw [← hreached, hbegun, hstarted]
    exact hcalled.listeners
  · have hlistens := listens_start condition strategy? component t hbus hv
    rw [haccepts] at hlistens
    exact hlistens.told log

end Formula

end Hydration
