import Hydration.Proofs.Requirement.Tracking
import Hydration.Proofs.Strategy.Trigger

/-!
# The account of the built-in strategies

On a page with the built-in strategies the conditions of a component have an account at
every moment (`Trigger.account`): a wait that stands for its trigger is ready exactly if the
trigger has happened.  What a wait owns is its subscription to the bus, and no waiter touches
the subscription of another.

Conditions that are started on a page that begins are accounted for from then on
(`starts_account`).
-/

namespace Hydration.Trigger

variable {trigger : Trigger} {wait : Wait} {s s' : Surroundings} {m : Moment}

/-- What is known stays known. -/
theorem known_extends {m' : Moment} (hchanges : m.changes <+: m'.changes)
    (hclock : m.clock ≤ m'.clock) (trigger : Trigger) :
    Join.Extends (trigger.known m') (trigger.known m) := by
  rw [known, known]
  by_cases h : trigger.happened m = true
  · rw [if_pos h, if_pos (happened_mono hchanges hclock h)]
    exact .inr rfl
  · rw [if_neg h]
    exact .inl rfl

theorem subscription?_resume (n : Nat) (name : String) (hn : wait.subscription? ≠ some n) :
    (wait.resume name s).2.bus.find? n = s.bus.find? n := by
  rw [Wait.resume_snd]
  cases wait with
  | event number awaited => exact Bus.find?_look fun h => hn (by rw [h]; rfl)
  | _ => rfl

theorem subscription?_release (n : Nat) (hn : wait.subscription? ≠ some n) :
    (wait.release s).bus.find? n = s.bus.find? n := by
  cases wait with
  | event number awaited => exact Bus.find?_drop fun h => hn (by rw [h]; rfl)
  | _ => rfl

/-- A wait that has been looked at and goes on still stands for its trigger. -/
theorem Stands.resume (h : Stands m s trigger wait) {name : String} {v : Wait}
    (hwait : (wait.resume name s).1 = .waiting v) :
    Stands m (wait.resume name s).2 trigger wait := by
  have hready : wait.isReady s = false := by
    rw [Wait.resume_fst h.isServed, h.ending_eq] at hwait
    split at hwait
    · cases hwait
    · next hnot => simpa using hnot
  cases wait with
  | event number awaited =>
    cases trigger with
    | event filter =>
      obtain ⟨inbox, hfind⟩ := h.fits
      -- A subscription that is looked at in vain has an empty inbox from then on.
      rw [Wait.resume_snd]
      have hnone : (s.bus.look number).1 = none := by
        rw [Wait.isReady, hfind, Option.any_some] at hready
        rw [Bus.look_fst, hfind, Option.bind_some, List.find?_eq_none]
        simpa using hready
      have hempty := Bus.find?_look_self hnone
      rw [hfind] at hempty
      refine ⟨⟨[], hempty⟩, ?_⟩
      rw [← h.ready, hready, Wait.isReady, hempty]
      rfl
    | _ => exact h.fits.elim
  | _ =>
    rw [Wait.resume_snd]
    exact h

/-- **The account of a component's conditions** on a page with the built-in strategies. -/
def account (platform : Platform) (component : ComponentHandle) (m : Moment) :
    Account (Requirement.rules .builtIn component) (Trigger.known m) where
  Valid s := s.now = m.clock ∧ s.platform = platform ∧ s.bus.Numbered
  Sees s trigger v := Stands m s trigger v.wait
  key v := v.wait.subscription?
  resume_valid h :=
    ⟨Wait.now_resume.trans h.1, Wait.platform_resume.trans h.2.1, Wait.numbered_resume h.2.2⟩
  resume_outcome {s trigger v} _ hv := by
    show (Evaluation.ofSignal
      (NamedWait.attach v.strategy (v.wait.resume v.strategy s).1)).outcome? = _
    rw [Wait.resume_fst hv.isServed, hv.ready, hv.ending_eq, known]
    cases trigger.happened m <;> rfl
  resume_sees {s trigger v v'} _ hv hw := by
    have hsignal : NamedWait.attach v.strategy (v.wait.resume v.strategy s).1 = .waiting v' := hw
    cases hr : (v.wait.resume v.strategy s).1 with
    | waiting u =>
      rw [hr] at hsignal
      refine ⟨?_, hv.resume hr⟩
      rw [← Signal.waiting.inj hsignal, Wait.eq_of_resume_waiting hr]
    | succeeded =>
      rw [hr] at hsignal
      cases hsignal
    | failed error =>
      rw [hr] at hsignal
      cases hsignal
  resume_keeps {s v trigger u} _ hu hapart :=
    hu.congr Wait.now_resume Wait.platform_resume fun n hn =>
      subscription?_resume n v.strategy fun hv => hapart n hv hn
  release_valid h :=
    ⟨Wait.now_release.trans h.1, Wait.platform_release.trans h.2.1, Wait.numbered_release h.2.2⟩
  release_keeps {s v trigger u} _ hu hapart :=
    hu.congr Wait.now_release Wait.platform_release fun n hn =>
      subscription?_release n fun hv => hapart n hv hn

/-! ## Starting -/

theorem Stands.exists_subscription (h : Stands m s trigger wait) {n : Nat}
    (hn : wait.subscription? = some n) : ∃ sub, s.bus.find? n = some sub := by
  cases wait with
  | event number awaited =>
    cases hn
    cases trigger with
    | event filter =>
      obtain ⟨inbox, hfind⟩ := h.fits
      exact ⟨_, hfind⟩
    | _ => exact h.fits.elim
  | _ => cases hn

/-- **What beginning to wait for a trigger comes to** on a page that begins: the trigger needs no
wait, or it has not happened and the wait for it has a subscription of its own if it needs one. -/
structure Begins (trigger : Trigger) (s : Surroundings) (signal : Signal Wait) (s' : Surroundings) :
    Prop where
  now : s'.now = s.now
  platform : s'.platform = s.platform
  numbered : s'.bus.Numbered
  keeps : ∀ n sub, s.bus.find? n = some sub → s'.bus.find? n = some sub
  signal : (signal = .succeeded ∧ trigger = .now) ∨
    ∃ v, signal = .waiting v ∧ Stands ⟨[], 0⟩ s' trigger v ∧ v.isReady s' = false ∧
      ∀ n, v.subscription? = some n → s.bus.next ≤ n

theorem begins_now (hbus : s.bus.Numbered) : Begins .now s .succeeded s :=
  ⟨rfl, rfl, hbus, fun _ _ => id, .inl ⟨rfl, rfl⟩⟩

/-- A wait that owns nothing takes at most a ticket. -/
theorem begins_ticket (hbus : s.bus.Numbered) (ticket : Nat)
    (hwait : Stands ⟨[], 0⟩ { s with nextTicket := ticket } trigger wait)
    (hready : wait.isReady { s with nextTicket := ticket } = false)
    (hnone : wait.subscription? = none) :
    Begins trigger s (.waiting wait) { s with nextTicket := ticket } := by
  refine ⟨rfl, rfl, hbus, fun _ _ => id, .inr ⟨wait, rfl, hwait, hready, fun n hn => ?_⟩⟩
  rw [hnone] at hn
  cases hn

theorem begins_event (hbus : s.bus.Numbered) (filter : Event.Filter) (awaited : String) :
    Begins (.event filter) s (.waiting (.event s.bus.next awaited))
      { s with bus := (s.bus.subscribe filter).2 } := by
  have hfind : (s.bus.subscribe filter).2.find? s.bus.next =
      some ⟨s.bus.next, filter.accepts, [], false⟩ := Bus.find?_listen_next filter.accepts hbus
  have hready : (Wait.event s.bus.next awaited).isReady
      { s with bus := (s.bus.subscribe filter).2 } = false := by
    rw [Wait.isReady, hfind]
    rfl
  refine ⟨rfl, rfl, hbus.listen, fun n sub => Bus.find?_listen,
    .inr ⟨_, rfl, ⟨⟨[], hfind⟩, hready⟩, hready, fun n hn => ?_⟩⟩
  cases hn
  exact Nat.le_refl _

theorem begins_idle (component : ComponentHandle) (argument : Option String) (name : String)
    (hidle : s.platform.idlePeriods = 0) (hnow : s.now = 0) (hbus : s.bus.Numbered) :
    Begins (Strategy.idle.trigger s.platform component argument) s
      (Strategy.idle.start name component argument s).1
      (Strategy.idle.start name component argument s).2 := by
  rw [Strategy.start, Strategy.trigger]
  split
  · have hready : (Wait.idle s.nextTicket s.platform.idlePeriods).isReady
        { s with nextTicket := s.nextTicket + 1 } = false := by
      simp [Wait.isReady]
    exact begins_ticket hbus _ ⟨hidle, hready⟩ hready rfl
  · -- Without idle periods the wait is for the clock, which has not moved yet.
    have hready : (Wait.timer s.nextTicket (s.now + Strategy.idleFallback) (.ok ())).isReady
        { s with nextTicket := s.nextTicket + 1 } = false := by
      rw [Wait.isReady, decide_eq_false_iff_not, Strategy.idleFallback]
      show ¬ s.now + 200 ≤ s.now
      omega
    refine begins_ticket hbus _ ⟨⟨?_, rfl⟩, hready⟩ hready rfl
    rw [hnow, Nat.zero_add]

/-- **A built-in strategy that is started** on a page that begins waits for its trigger. -/
theorem begins_start {strategy : Strategy} (name : String) (component : ComponentHandle)
    (argument : Option String) (hstrategy : ∀ b, strategy ≠ .custom b)
    (hidle : s.platform.idlePeriods = 0) (hnow : s.now = 0) (hbus : s.bus.Numbered) :
    Begins (strategy.trigger s.platform component argument) s
      (strategy.start name component argument s).1
      (strategy.start name component argument s).2 := by
  cases strategy with
  | eager => exact begins_now hbus
  | event =>
    exact begins_event hbus (Strategy.eventFilter component argument)
      (Strategy.eventName component argument)
  | idle => exact begins_idle component argument name hidle hnow hbus
  | media =>
    rw [Strategy.start.eq_def, Strategy.trigger.eq_def]
    dsimp only
    cases Strategy.given argument with
    | none => exact begins_now hbus
    | some argument =>
      dsimp only
      split
      · exact begins_now hbus
      · next hno =>
        have hready := (Bool.not_eq_true _).mp hno
        exact begins_ticket hbus _ ⟨rfl, hready⟩ hready rfl
  | visible =>
    rw [Strategy.start, Strategy.trigger]
    split
    · exact begins_now hbus
    · next hno =>
      have hready := (Bool.not_eq_true _).mp hno
      exact begins_ticket hbus _ ⟨rfl, hready⟩ hready rfl
  | custom b => exact absurd rfl (hstrategy b)

/-- None of the built-in strategies is of another kind. -/
theorem builtIn_ne_custom {name : String} {b : Behaviour} :
    StrategyTable.builtIn.get? name ≠ some (.custom b) := by
  have hentries : StrategyTable.builtIn.entries =
      [("eager", .eager), ("event", .event), ("idle", .idle), ("media", .media),
        ("visible", .visible)] := rfl
  intro h
  obtain ⟨before, after, hlist, -⟩ := List.lookup_eq_some_iff.mp h
  have hmem : (name, Strategy.custom b) ∈ StrategyTable.builtIn.entries := by
    rw [hlist]
    exact List.mem_append_right _ List.mem_cons_self
  rw [hentries] at hmem
  simp at hmem

/-- **A condition that is started** on a page that begins waits for its trigger. -/
theorem begins_condition (component : ComponentHandle) (c : Condition)
    (hidle : s.platform.idlePeriods = 0) (hnow : s.now = 0) (hbus : s.bus.Numbered) :
    ∃ signal s', (Requirement.rules .builtIn component).start c s =
        (NamedWait.attach c.name signal, s') ∧
      Begins (c.trigger s.platform component) s signal s' := by
  rw [Condition.trigger, Requirement.rules, Formula.rules]
  dsimp only [id]
  cases hget : StrategyTable.builtIn.get? c.name with
  | none => exact ⟨.waiting .never, s, rfl, begins_ticket hbus s.nextTicket ⟨trivial, rfl⟩ rfl rfl⟩
  | some strategy =>
    have hbuiltIn : ∀ b, strategy ≠ .custom b := by
      rintro b rfl
      exact builtIn_ne_custom hget
    exact ⟨_, _, rfl, begins_start c.name component c.argument hbuiltIn hidle hnow hbus⟩

/-- **The conditions of a component begin to wait** on a page with the built-in strategies. -/
theorem starts_account {platform : Platform} (component : ComponentHandle)
    (hidle : platform.idlePeriods = 0) :
    (account platform component ⟨[], 0⟩).Starts (Condition.trigger platform component) := by
  have hstart : ∀ (s : Surroundings) (c : Condition), (account platform component ⟨[], 0⟩).Valid s →
      ∃ signal s', (Requirement.rules .builtIn component).start c s =
        (NamedWait.attach c.name signal, s') ∧
          Begins (c.trigger platform component) s signal s' := by
    rintro s c ⟨hnow, rfl, hbus⟩
    exact begins_condition component c hidle hnow hbus
  refine ⟨?_, ?_, ?_, ?_, ?_⟩
  · intro s c hs
    obtain ⟨signal, s', hs', hbegins⟩ := hstart s c hs
    rw [hs']
    exact ⟨hbegins.now.trans hs.1, hbegins.platform.trans hs.2.1, hbegins.numbered⟩
  · intro s c hs
    obtain ⟨signal, s', hs', hbegins⟩ := hstart s c hs
    rcases hbegins.signal with ⟨rfl, htrigger⟩ | ⟨v, rfl, hv, hready, -⟩
    · rw [hs', htrigger]
      rfl
    · rw [hs', known, ← hv.ready, hready]
      rfl
  · intro s c v hs hv
    obtain ⟨signal, s', hs', hbegins⟩ := hstart s c hs
    rw [hs'] at hv ⊢
    rcases hbegins.signal with ⟨rfl, -⟩ | ⟨u, rfl, hu, -⟩
    · cases hv
    · cases hv
      exact hu
  · -- The waits of others stand for their triggers still: their subscriptions are kept.
    intro s c trigger u hs hu
    obtain ⟨signal, s', hs', hbegins⟩ := hstart s c hs
    rw [hs']
    refine hu.congr hbegins.now hbegins.platform fun n hn => ?_
    obtain ⟨sub, hsub⟩ := hu.exists_subscription hn
    rw [hsub, hbegins.keeps n sub hsub]
  · -- Whatever others own has a number below that of a new subscription.
    intro s c v trigger u hs hv hu n hn hun
    obtain ⟨signal, s', hs', hbegins⟩ := hstart s c hs
    rw [hs'] at hv
    rcases hbegins.signal with ⟨rfl, -⟩ | ⟨u', rfl, -, -, hnew⟩
    · cases hv
    · cases hv
      obtain ⟨sub, hsub⟩ := hu.exists_subscription hun
      obtain ⟨hmem, hnumber, -⟩ := Bus.mem_of_find? hsub
      have hold := hs.2.2 sub hmem
      have := hnew n hn
      omega

end Hydration.Trigger
