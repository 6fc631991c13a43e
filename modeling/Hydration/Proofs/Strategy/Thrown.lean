import Hydration.Proofs.Requirement.Origin
import Hydration.Proofs.Strategy.Wait

/-!
# What strategies throw

Of all strategies only two fail: one that is not built in fails as its behaviour says, and `event`
fails when its channel is closed (`Strategy.Throws`).  A leaf reports what its strategy
throws under the name of the condition (`Reports`), at once or when its wait is resumed, and a
leaf without a strategy reports nothing.

Together with the origin of errors this says where the error of a requirement comes from,
whatever happens while it is awaited (`error_origin`).
-/

namespace Hydration

variable {α : Type} {condition : α → Condition} {strategy? : α → Option Strategy}
  {component : ComponentHandle} {a : α} {s : Surroundings} {name : String}
  {argument : Option String} {error : RequirementError}

/-! ## Errors of strategies -/

/-- **The errors of a strategy** that is called for a component with an argument. -/
def Strategy.Throws (strategy : Strategy) (component : ComponentHandle) (argument : Option String)
    (thrown : StrategyError) : Prop :=
  match strategy with
  | .custom behaviour => behaviour.outcome = .error thrown
  | .event => thrown = .channelClosed (Strategy.eventName component argument)
  | _ => False

theorem Strategy.signalOf_failed {outcome : Except StrategyError Unit}
    (h : Strategy.signalOf name outcome = .failed error) :
    ∃ thrown, outcome = .error thrown ∧ error = .rejected name thrown.message := by
  cases outcome with
  | ok => cases h
  | error thrown =>
    cases h
    exact ⟨thrown, rfl, rfl⟩

/-- A strategy that fails at once throws. -/
theorem Strategy.throws_of_start {strategy : Strategy}
    (h : (strategy.start name component argument s).1 = .failed error) :
    ∃ thrown, strategy.Throws component argument thrown ∧
      error = .rejected name thrown.message := by
  rw [Strategy.start.eq_def] at h
  split at h
  case h_6 behaviour =>
    dsimp only at h
    split at h
    · cases h
    · exact Strategy.signalOf_failed h
    · cases h
  case h_1 => cases h
  case h_2 => cases h
  case h_3 => split at h <;> cases h
  case h_4 =>
    split at h
    · cases h
    · dsimp only at h
      split at h <;> cases h
  case h_5 => split at h <;> cases h

/-- A wait fails when its timer is due with an error or its channel is closed. -/
theorem Wait.failed_cases {wait : Wait} (h : (wait.resume name s).1 = .failed error) :
    (∃ ticket due thrown, wait = .timer ticket due (.error thrown) ∧
      error = .rejected name thrown.message) ∨
    ∃ number awaited, wait = .event number awaited ∧
      error = .rejected name (StrategyError.channelClosed awaited).message := by
  rw [Wait.resume.eq_def] at h
  split at h
  case h_1 ticket due outcome =>
    split at h
    · obtain ⟨thrown, rfl, herror⟩ := Strategy.signalOf_failed h
      exact .inl ⟨ticket, due, thrown, rfl, herror⟩
    · cases h
  case h_2 number awaited =>
    split at h
    · cases h
    · cases h
    · cases h
      exact .inr ⟨number, awaited, rfl, rfl⟩
  case h_6 => cases h
  all_goals
    split at h
    · cases h
    · cases h

/-- A strategy that begins to wait throws when its wait fails. -/
theorem Strategy.throws_of_resume {strategy : Strategy} {wait : Wait} {s' : Surroundings}
    (hwait : (strategy.start name component argument s).1 = .waiting wait)
    (h : (wait.resume name s').1 = .failed error) :
    ∃ thrown, strategy.Throws component argument thrown ∧
      error = .rejected name thrown.message := by
  have hfailed := Wait.failed_cases h
  rw [Strategy.start.eq_def] at hwait
  split at hwait
  case h_1 => cases hwait
  case h_2 =>
    cases hwait
    rcases hfailed with ⟨ticket, due, thrown, heq, -⟩ | ⟨number, awaited, heq, herror⟩
    · cases heq
    · cases heq
      exact ⟨_, rfl, herror⟩
  case h_6 behaviour =>
    dsimp only at hwait
    split at hwait
    · cases hwait
      rcases hfailed with ⟨ticket, due, thrown, heq, -⟩ | ⟨number, awaited, heq, -⟩ <;> cases heq
    · generalize behaviour.outcome = outcome at hwait
      cases outcome <;> cases hwait
    · cases hwait
      rcases hfailed with ⟨ticket, due, thrown, heq, herror⟩ | ⟨number, awaited, heq, -⟩
      · injection heq with _ _ houtcome
        exact ⟨thrown, houtcome, herror⟩
      · cases heq
  case h_3 =>
    -- An idle period may stand for a timer, but one that ends well.
    split at hwait <;> cases hwait <;>
      rcases hfailed with ⟨ticket, due, thrown, heq, -⟩ | ⟨number, awaited, heq, -⟩ <;> cases heq
  case h_4 =>
    split at hwait
    · cases hwait
    · dsimp only at hwait
      split at hwait <;> cases hwait
      rcases hfailed with ⟨ticket, due, thrown, heq, -⟩ | ⟨number, awaited, heq, -⟩ <;> cases heq
  case h_5 =>
    split at hwait <;> cases hwait
    rcases hfailed with ⟨ticket, due, thrown, heq, -⟩ | ⟨number, awaited, heq, -⟩ <;> cases heq

/-! ## Errors of leaves -/

variable (condition strategy? component) in
/-- **The errors that a leaf reports**: what its strategy throws, under the name of its
condition. -/
def Reports (a : α) (error : RequirementError) : Prop :=
  ∃ strategy thrown, strategy? a = some strategy ∧
    strategy.Throws component (condition a).argument thrown ∧
    error = .rejected (condition a).name thrown.message

namespace Formula

theorem reports_of_start
    (h : ((rules condition strategy? component).start a s).1 = .failed error) :
    Reports condition strategy? component a error := by
  rw [rules] at h
  dsimp only at h
  split at h
  · cases h
  · next strategy hstrategy =>
    obtain ⟨thrown, hthrows, herror⟩ :=
      Strategy.throws_of_start (NamedWait.attach_failed.mp h)
    exact ⟨strategy, thrown, hstrategy, hthrows, herror⟩

theorem reports_of_resume {v : NamedWait} {s' : Surroundings}
    (hwait : ((rules condition strategy? component).start a s).1 = .waiting v)
    (h : ((rules condition strategy? component).resume v s').1 = .failed error) :
    Reports condition strategy? component a error := by
  have hfailed : (v.wait.resume v.strategy s').1 = .failed error := NamedWait.attach_failed.mp h
  rw [rules] at hwait
  dsimp only at hwait
  split at hwait
  · cases hwait
    cases hfailed
  · next strategy hstrategy =>
    obtain ⟨wait, hstart, rfl⟩ := NamedWait.attach_waiting.mp hwait
    obtain ⟨thrown, hthrows, herror⟩ := Strategy.throws_of_resume hstart hfailed
    exact ⟨strategy, thrown, hstrategy, hthrows, herror⟩

/-- A wait that is resumed and goes on is the same wait. -/
theorem eq_of_rules_resume {v v' : NamedWait}
    (h : ((rules condition strategy? component).resume v s).1 = .waiting v') : v' = v := by
  obtain ⟨wait, hwait, rfl⟩ := NamedWait.attach_waiting.mp h
  rw [Wait.eq_of_resume_waiting hwait]

end Formula

/-! ## What is noted of errors -/

theorem mem_ofSignal {β w σ : Type} {a b : β} {signal : Signal w} :
    (Note.ended b (.error error) : Note β σ) ∈ Note.ofSignal a signal ↔
      b = a ∧ signal = .failed error := by
  cases signal <;> simp [Note.ofSignal, eq_comm]

/-- What is noted of errors: leaves report them, and they have been started. -/
def ErrorsNoted (condition : α → Condition) (strategy? : α → Option Strategy)
    (component : ComponentHandle) (s : Surroundings × List (Note α Surroundings)) : Prop :=
  ∀ a error, .ended a (.error error) ∈ s.2 →
    Reports condition strategy? component a error ∧ ∃ s', .begun a s' ∈ s.2

/-- What is known of waits: their leaves have been started, and whatever error they end with is one
that the leaf reports. -/
def WaitNoted (condition : α → Condition) (strategy? : α → Option Strategy)
    (component : ComponentHandle) (s : Surroundings × List (Note α Surroundings))
    (v : α × NamedWait) : Prop :=
  (∃ s', .begun v.1 s' ∈ s.2) ∧ ∀ s' error,
    ((Formula.rules condition strategy? component).resume v.2 s').1 = .failed error →
      Reports condition strategy? component v.1 error

variable (condition strategy? component)

/-- **The notes of a run** name only errors that leaves report which have been started. -/
theorem errorsNoted_run (t : Formula α) (s : Surroundings)
    (changes : List (Surroundings → Surroundings)) :
    ErrorsNoted condition strategy? component
      (t.noted (Formula.rules condition strategy? component) s changes).2 := by
  have hrelease : ∀ (v : α × NamedWait) s, ErrorsNoted condition strategy? component s →
      WaitNoted condition strategy? component s v →
      Upheld (ErrorsNoted condition strategy? component) (WaitNoted condition strategy? component) s
        ((Formula.rules condition strategy? component).noting.release v s) [] :=
    fun v s hs _ => .change hs fun _ => id
  have hmore : ∀ {s s' : Surroundings × List (Note α Surroundings)} {new}, s'.2 = s.2 ++ new →
      ∀ v, WaitNoted condition strategy? component s v →
        WaitNoted condition strategy? component s' v := by
    rintro s s' new hs' v ⟨⟨s'', hbegun⟩, hreports⟩
    exact ⟨⟨s'', hs' ▸ List.mem_append_left _ hbegun⟩, hreports⟩
  refine (run_upholds (W := WaitNoted condition strategy? component) ?_ ?_ hrelease ?_ t ?_).state
  · intro a s hs
    refine ⟨fun b error hb => ?_, hmore rfl, fun v hv => ?_⟩
    · rcases List.mem_append.mp hb with hb | hb
      · obtain ⟨hreports, s', hbegun⟩ := hs b error hb
        exact ⟨hreports, s', List.mem_append_left _ hbegun⟩
      · obtain ⟨rfl, hfailed⟩ := mem_ofSignal.mp ((List.mem_cons.mp hb).resolve_left (by simp))
        exact ⟨Formula.reports_of_start hfailed, s.1, by simp [LeafRules.noting]⟩
    · obtain ⟨u, hu, rfl⟩ := Signal.map_eq_waiting.mp (Evaluation.mem_waits_ofSignal.mp hv)
      exact ⟨⟨s.1, by simp [LeafRules.noting]⟩, fun s' error => Formula.reports_of_resume hu⟩
  · rintro v s hs ⟨⟨s₀, hbegun⟩, hreports⟩
    have hgrown : Note.begun v.1 s₀ ∈
        ((Formula.rules condition strategy? component).noting.resume v s).2.2 :=
      List.mem_append_left _ hbegun
    refine ⟨fun b error hb => ?_, hmore rfl, fun v' hv' => ?_⟩
    · rcases List.mem_append.mp hb with hb | hb
      · obtain ⟨hreports', s', hbegun'⟩ := hs b error hb
        exact ⟨hreports', s', List.mem_append_left _ hbegun'⟩
      · obtain ⟨rfl, hfailed⟩ := mem_ofSignal.mp hb
        exact ⟨hreports _ _ hfailed, s₀, hgrown⟩
    · obtain ⟨u, hu, rfl⟩ := Signal.map_eq_waiting.mp (Evaluation.mem_waits_ofSignal.mp hv')
      rw [Formula.eq_of_rules_resume hu]
      exact ⟨⟨s₀, hgrown⟩, hreports⟩
  · intro change hchange s hs
    obtain ⟨change', -, rfl⟩ := List.mem_map.mp hchange
    exact .change hs fun _ => id
  · exact fun a error h => absurd h List.not_mem_nil

/-- **Where the error of a requirement comes from**, whatever the leaves do and whatever happens
while it is awaited.

* An error of a strategy has been thrown by the strategy of a leaf that can be reached through ANDs,
  which has been started and has ended with it.
* A count is that of the operands of an OR that can be reached through ANDs, all of which have
  failed.
* An OR with an operand that has not failed does not fail, and a leaf without a strategy never
  does. -/
theorem error_origin (t : Formula α) (s : Surroundings)
    (changes : List (Surroundings → Surroundings)) :
    let rules := Formula.rules condition strategy? component
    let notes := t.notes rules s changes
    let result? := (t.run rules s changes).1.result?
    (t.run rules s changes =
      ((t.noted rules s changes).1.map Prod.snd, (t.noted rules s changes).2.1)) ∧
    (∀ name message, result? = some (.error (.rejected name message)) →
      ∃ a, t.Requires (.leaf a) ∧ (condition a).name = name ∧ (∃ s', .begun a s' ∈ notes) ∧
        .ended a (.error (.rejected name message)) ∈ notes ∧
        ∃ strategy thrown, strategy? a = some strategy ∧
          strategy.Throws component (condition a).argument thrown ∧ thrown.message = message) ∧
    (∀ count, result? = some (.error (.noneSatisfied count)) →
      ∃ operands, t.Requires (.node .or operands) ∧ operands.length = count ∧
        ∀ u ∈ operands, ∃ error, u.Settled notes (.error error)) ∧
    (∀ operands, ∀ u ∈ operands, (∀ error, ¬ u.Settled notes (.error error)) →
      (∀ error, ¬ (Formula.node .or operands).Settled notes (.error error)) ∧
      (t = .node .or operands → ∀ error, result? ≠ some (.error error))) ∧
    ∀ a, strategy? a = none → ∀ error, ¬ (Formula.leaf a).Settled notes (.error error) := by
  intro rules notes result?
  have hnoted := errorsNoted_run condition strategy? component t s changes
  have hsettled : ∀ error, result? = some (.error error) → t.Settled notes (.error error) :=
    fun _ => settled_of_run
  refine ⟨run_noting rules t s changes, fun name message hresult => ?_, fun count hresult => ?_,
    fun operands u hu hopen => ⟨fun error h => ?_, ?_⟩, fun a hnone error h => ?_⟩
  · rcases (hsettled _ hresult).origin with ⟨a, ha, hended⟩ | ⟨operands, -, herror, -⟩
    · obtain ⟨⟨strategy, thrown, hstrategy, hthrows, herror⟩, hbegun⟩ := hnoted a _ hended
      obtain ⟨hname, hmessage⟩ := RequirementError.rejected.inj herror
      exact ⟨a, ha, hname.symm, hbegun, hended, strategy, thrown, hstrategy, hthrows,
        hmessage.symm⟩
    · cases herror
  · rcases (hsettled _ hresult).origin with ⟨a, -, hended⟩ | ⟨operands, hor, herror, hfailed⟩
    · obtain ⟨⟨_, _, _, _, herror⟩, -⟩ := hnoted a _ hended
      cases herror
    · exact ⟨operands, hor, (RequirementError.noneSatisfied.inj herror).symm, hfailed⟩
  · obtain ⟨error', herror'⟩ := h.of_or hu
    exact hopen error' herror'
  · rintro rfl error hresult
    obtain ⟨error', herror'⟩ := (hsettled error hresult).of_or hu
    exact hopen error' herror'
  · cases h with
    | leaf hended =>
      obtain ⟨⟨strategy, -, hstrategy, -⟩, -⟩ := hnoted a error hended
      rw [hnone] at hstrategy
      cases hstrategy

end Hydration
