import Hydration.Proofs.Page.Clock
import Hydration.Proofs.Scenario.Times

/-!
# The timeline of a scenario

What the scheduler makes of a scenario, step by step.  `Reached` says where the tasks
are at some time: each of them has taken into account what happened before this very
millisecond, and nothing else.

It holds behind each step of the timeline (`reached_apply`), so it holds at the end of the
run unless no time passes at all (`reached_play`).
-/

namespace Hydration.Scenario

variable {s : Scenario} {join : Url.Joiner} {p q : Page} {S : Page.Setting} {k m clock : ℕ}

/-! ## The beginning -/

theorem prompt_register (modules : List (String × ComponentModule)) {t : ModuleTable}
    (ht : t.Prompt) : (modules.foldl (fun t m => t.register m.1 (.holding m.2)) t).Prompt := by
  induction modules generalizing t with
  | nil => exact ht
  | cons first modules ih =>
    refine ih (ht.setEntry fun producer hproducer => ?_)
    cases hproducer
    rfl

theorem prompt_registerUrl (urls : List (String × String)) {t t' : ModuleTable} (ht : t.Prompt)
    (h : urls.foldlM (fun t u => do return (← t.registerUrl u.1 u.2 s.options).2) t = .ok t') :
    t'.Prompt := by
  induction urls generalizing t with
  | nil =>
    cases h
    exact ht
  | cons first urls ih =>
    rw [List.foldlM_cons] at h
    obtain ⟨t₁, hfirst, h⟩ := bind_eq_ok h
    obtain ⟨registered, hregister, hfirst⟩ := bind_eq_ok hfirst
    cases hfirst
    exact ih (ht.registerUrl hregister) h

/-- What a scenario registers answers at once. -/
theorem prompt_moduleTable {t : ModuleTable} (h : s.moduleTable join = .ok t) : t.Prompt := by
  refine prompt_registerUrl s.urls (prompt_register s.modules ⟨?_, ?_, ?_⟩) h
  · intro e he
    cases he
  · -- A pattern is no source of its own: it makes URLs, which are asked of what is served.
    intro producer hproducer
    obtain ⟨pattern, -, hpattern⟩ := Option.map_eq_some_iff.mp hproducer
    cases hpattern
  · intro served hserved e he
    obtain rfl := Option.some.inj hserved
    obtain ⟨origin, -, rfl⟩ := List.mem_map.mp he
    rfl

theorem startTask_eq (el : ElementRef) (q : Page) : ∃ queue,
    (q.startTask el true).2 = { q with
      tasks := q.tasks ++ [{ element := el, status := .fresh true }]
      queue } ∧
    (∀ i ∈ q.queue, i ∈ queue) ∧ q.tasks.length ∈ queue := by
  rw [Page.startTask, Page.enqueue]
  dsimp only
  split
  · next h => exact ⟨q.queue, rfl, fun _ => id, h⟩
  · exact ⟨q.queue ++ [q.tasks.length], rfl, fun i hi => List.mem_append_left _ hi, by simp⟩

/-- **Starting tasks** for some elements adds them to the tasks and to the queue. -/
theorem startTasks_eq (els : List ElementRef) (q : Page) : ∃ queue,
    els.foldl (fun p el => (p.startTask el true).2) q = { q with
      tasks := q.tasks ++ els.map fun el => { element := el, status := .fresh true }
      queue } ∧
    (∀ i ∈ q.queue, i ∈ queue) ∧
    ∀ i, q.tasks.length ≤ i → i < q.tasks.length + els.length → i ∈ queue := by
  induction els generalizing q with
  | nil => exact ⟨q.queue, by simp, fun _ => id, fun i hle hlt => absurd hle (Nat.not_le.mpr hlt)⟩
  | cons el els ih =>
    obtain ⟨queue, hstart, hkeep, hmem⟩ := startTask_eq el q
    obtain ⟨queue', hrest, hkeep', hmem'⟩ := ih (q.startTask el true).2
    refine ⟨queue', ?_, ?_, ?_⟩
    · rw [List.foldl_cons, hrest, hstart]
      simp
    · rw [hstart] at hkeep'
      exact fun i hi => hkeep' i (hkeep i hi)
    · rw [hstart] at hkeep' hmem'
      intro i hle hlt
      rcases Nat.eq_or_lt_of_le hle with rfl | hlt'
      · exact hkeep' _ hmem
      · refine hmem' i ?_ ?_
        · rw [List.length_append]
          exact hlt'
        · simp only [List.length_append, List.length_cons, List.length_nil] at hlt ⊢
          omega

/-- What the page of a scenario begins with. -/
def setting (s : Scenario) (p : Page) : Page.Setting where
  platform := p.surroundings.platform
  requirement := p.requirementFor
  elements := s.deferred

theorem component?_start {el : ElementRef} (h : s.page join = .ok p) (hel : el ∈ s.deferred) :
    (s.start p).component? el = some { element := el } := by
  obtain ⟨queue, hstart, -⟩ := startTasks_eq s.deferred (s.opened p)
  rw [start_eq, hstart]
  exact ((opened_of_page h).component el).trans (if_pos hel)

theorem getElem?_start (h : s.page join = .ok p) {i : ℕ} {t : Task}
    (ht : (s.start p).tasks[i]? = some t) : ∃ el ∈ s.deferred,
      t = { element := el, status := .fresh true } ∧ i ∈ (s.start p).queue := by
  obtain ⟨queue, hstart, -, hqueue⟩ := startTasks_eq s.deferred (s.opened p)
  obtain ⟨document, platform, modules, -, -, -, hp⟩ := page_eq h
  have hempty : (s.opened p).tasks = [] := by rw [(opened_of_page h).rest.1, hp]
  rw [start_eq, hstart, hempty, List.nil_append, List.getElem?_map] at ht
  obtain ⟨el, hel, rfl⟩ := Option.map_eq_some_iff.mp ht
  have hlt : i < s.deferred.length := (List.getElem?_eq_some_iff.mp hel).1
  refine ⟨el, List.mem_of_getElem? hel, rfl, ?_⟩
  rw [start_eq, hstart]
  apply hqueue
  · rw [hempty]
    exact Nat.zero_le _
  · rw [hempty]
    simpa using hlt

/-- **At the beginning** no task has had a turn. -/
theorem current_start (h : s.page join = .ok p) : Page.Current (s.setting p) [] ⟨[], 0⟩
    (· ∈ (s.start p).queue) (s.start p) := by
  have ho := opened_of_page h
  obtain ⟨document, platform, modules, -, hplatform, hmodules, hp⟩ := page_eq h
  obtain ⟨queue, hstart, -⟩ := startTasks_eq s.deferred (s.opened p)
  obtain ⟨htasks, -, hsurroundings, hoptions, hstrategies, htable⟩ := ho.rest
  exact {
    changes := List.prefix_rfl
    clock := by rw [start_eq, hstart, hsurroundings, hp]
    numbered := by
      rw [start_eq, hstart, hsurroundings, hp]
      intro sub hsub
      cases hsub
    strategies := by rw [start_eq, hstart, hstrategies, hp]
    cloning := by
      rw [start_eq, hstart]
      exact ho.cloning
    modules := by
      rw [start_eq, hstart, htable, hp]
      exact prompt_moduleTable hmodules
    text := fun el => by
      apply Page.requirementFor_congr
      · rw [start_eq, hstart]
        exact ho.skeleton
      · rw [start_eq, hstart]
        exact hoptions
    uncancelled := fun i t ht => by
      obtain ⟨el, -, rfl, -⟩ := getElem?_start h ht
      rfl
    elements := by
      rw [start_eq, hstart, htasks, hp, List.nil_append, List.map_map]
      exact List.map_id _
    nodup := nodup_deferred
    apart := fun i j t u ht _ _ v hv => by
      obtain ⟨el, -, rfl, -⟩ := getElem?_start h ht
      cases hv
    stage := fun i t ht => by
      -- Discovery has recorded every element, but the tasks have still to begin.
      obtain ⟨el, hel, rfl, hi⟩ := getElem?_start h ht
      refine .inr ⟨hi, .fresh rfl ?_ ?_ rfl (component?_start h hel)⟩
      · rw [start_eq, hstart, hsurroundings]
        rfl
      · rw [setting, hp]
        exact (startingPlatform_cases hplatform).2.1 }

/-! ## The time of the steps -/

/-- The time at which the first `k` steps are over. -/
def timeAfter (s : Scenario) (k : ℕ) : ℕ :=
  stepGap * k + ((s.timeline.take k).map ScenarioStep.duration).sum

theorem stepTime_eq (k : ℕ) : s.stepTime k = s.timeAfter k + stepGap := by
  rw [stepTime, timeAfter, Nat.mul_succ]
  omega

theorem timeAfter_succ {step : ScenarioStep} (hk : s.timeline[k]? = some step) :
    s.timeAfter (k + 1) = s.stepTime k + step.duration := by
  rw [timeAfter, stepTime, List.take_add_one, hk, List.map_append, List.sum_append]
  simp [Nat.add_assoc]

theorem endTime_eq : s.endTime = s.timeAfter s.timeline.length + s.settleTime := by
  rw [endTime, timeAfter, List.take_length]

theorem stepTime_le_timeAfter {j : ℕ} (hj : j < k) (hk : k ≤ s.timeline.length) :
    s.stepTime j ≤ s.timeAfter k := by
  induction k with
  | zero => cases hj
  | succ k ih =>
    obtain ⟨step, hstep⟩ : ∃ step, s.timeline[k]? = some step := ⟨_, List.getElem?_eq_getElem hk⟩
    rw [timeAfter_succ hstep]
    rcases Nat.lt_succ_iff_lt_or_eq.mp hj with hlt | rfl
    · have := ih hlt (Nat.le_of_succ_le hk)
      rw [stepTime_eq k]
      omega
    · exact Nat.le_add_right _ _

/-! ## The steps -/

/-- **Where the tasks are** when the first `k` steps are over: what has happened before the time
`clock`, which is what the first `m` steps have changed, has been taken into account. -/
structure Reached (s : Scenario) (S : Page.Setting) (k m clock : ℕ) (p : Page) : Prop where
  current : Page.Current S (s.changesOf m) ⟨s.changesOf k, clock⟩ (· ∈ p.queue) p
  each : ∀ (i : ℕ) (t : Task), p.tasks[i]? = some t →
    Page.AtStage S ⟨s.changesOf m, clock - 1⟩ ⟨s.changesOf k, clock⟩ p t
  before : ∀ j, j < m → s.stepTime j < clock
  after : ∀ j, m ≤ j → j < k → clock ≤ s.stepTime j

theorem changesOf_succ {step : ScenarioStep} (hk : s.timeline[k]? = some step) :
    s.changesOf (k + 1) = s.changesOf k ++ (s.changeOf step).toList := by
  rw [changesOf, List.take_add_one, hk, List.filterMap_append, changesOf]
  rfl

/-- **What a step does**: it lets time pass, or it changes the surroundings, or nothing. -/
theorem apply_cases {step : ScenarioStep} (h : s.apply p step = .ok q) :
    (∃ duration, step = .wait duration ∧ q = p.advance duration) ∨
    step.duration = 0 ∧ (s.changeOf step = none ∧ q = p ∨
      ∃ c, s.changeOf step = some c ∧ q = p.change c) := by
  have hvisible : ∀ key on, (do return p.setVisible (← s.element key) on) = .ok q →
      ∃ c, ((s.element? key).map fun el => Change.visible el on) = some c ∧ q = p.change c := by
    intro key on h
    obtain ⟨el, hel, rfl⟩ := setVisible_ok h
    exact ⟨.visible el on, by rw [hel]; rfl, Page.setVisible_eq on⟩
  cases step with
  | wait duration =>
    cases h
    exact .inl ⟨duration, rfl, rfl⟩
  | visible key => exact .inr ⟨rfl, .inr (hvisible key true h)⟩
  | hidden key => exact .inr ⟨rfl, .inr (hvisible key false h)⟩
  | media query on =>
    cases h
    exact .inr ⟨rfl, .inr ⟨_, rfl, Page.setMedia_eq query on⟩⟩
  | idle happens =>
    cases h
    cases happens with
    | false => exact .inr ⟨rfl, .inl ⟨rfl, rfl⟩⟩
    | true => exact .inr ⟨rfl, .inr ⟨_, rfl, Page.triggerIdle_eq⟩⟩
  | event name =>
    cases h
    exact .inr ⟨rfl, .inr ⟨_, rfl, Page.publish_eq _⟩⟩
  | load id =>
    cases h
    exact .inr ⟨rfl, .inr ⟨_, rfl, Page.publish_eq _⟩⟩

/-- **Time that passes** behind the first `k` steps. -/
theorem reached_advance {done : List Change}
    (h : Page.Current S done ⟨s.changesOf k, clock⟩ (· ∈ p.queue) p) {duration : ℕ}
    (hpositive : 0 < duration) (hclock : ∀ j, j < k → s.stepTime j ≤ clock) :
    Reached s S k k (clock + duration) (p.advance duration) := by
  obtain ⟨hcurrent, heach⟩ := h.advance hpositive
  refine ⟨hcurrent, heach, fun j hj => ?_, fun j hle hlt => absurd hle (Nat.not_le.mpr hlt)⟩
  have := hclock j hj
  omega

/-- **A step** of the timeline together with the gap before it. -/
theorem reached_apply {done : List Change} {step : ScenarioStep} (hk : s.timeline[k]? = some step)
    (h : Page.Current S done ⟨s.changesOf k, s.timeAfter k⟩ (· ∈ p.queue) p)
    (happly : s.apply (p.advance stepGap) step = .ok q) :
    ∃ m, Reached s S (k + 1) m (s.timeAfter (k + 1)) q := by
  have hlt : k < s.timeline.length := (List.getElem?_eq_some_iff.mp hk).1
  have hgap := reached_advance h (by decide : 0 < stepGap) fun j hj =>
    stepTime_le_timeAfter hj (Nat.le_of_lt hlt)
  rw [← stepTime_eq] at hgap
  rw [timeAfter_succ hk]
  generalize p.advance stepGap = r at happly hgap
  have hpositive : 0 < s.stepTime k := by
    rw [stepTime_eq]
    exact Nat.lt_add_left _ (by decide)
  have hafter : ∀ j, k ≤ j → j < k + 1 → s.stepTime k ≤ s.stepTime j := by
    intro j hle hlt
    obtain rfl : j = k := by omega
    exact Nat.le_refl _
  rcases apply_cases happly with ⟨duration, rfl, rfl⟩ | ⟨hduration, ⟨hnone, rfl⟩ | ⟨c, hsome, rfl⟩⟩
  · -- Only when time passes behind the step is it itself among what has been taken into account.
    have hsame : s.changesOf (k + 1) = s.changesOf k := by
      rw [changesOf_succ hk]
      exact List.append_nil _
    show ∃ m, Reached s S (k + 1) m (s.stepTime k + duration) _
    rcases Nat.eq_zero_or_pos duration with rfl | hd
    · have hsame' : r.advance 0 = r := by rw [Page.advance, if_pos rfl]
      refine ⟨k, ?_, ?_, hgap.before, hafter⟩
      · rw [hsame, hsame']
        exact hgap.current
      · rw [hsame, hsame']
        exact hgap.each
    · refine ⟨k + 1, reached_advance (hsame ▸ hgap.current) hd fun j hj => ?_⟩
      rcases Nat.lt_succ_iff_lt_or_eq.mp hj with hj | rfl
      · exact Nat.le_of_lt (hgap.before j hj)
      · exact Nat.le_refl _
  · have hsame : s.changesOf (k + 1) = s.changesOf k := by
      rw [changesOf_succ hk, hnone]
      exact List.append_nil _
    rw [hduration, Nat.add_zero]
    refine ⟨k, ?_, ?_, hgap.before, hafter⟩
    · rw [hsame]
      exact hgap.current
    · rw [hsame]
      exact hgap.each
  · have hnext : s.changesOf (k + 1) = s.changesOf k ++ [c] := by
      rw [changesOf_succ hk, hsome]
      rfl
    rw [hduration, Nat.add_zero]
    refine ⟨k, ?_, fun i t ht => ?_, hgap.before, hafter⟩
    · rw [hnext]
      exact hgap.current.change hpositive c
    · rw [hnext]
      rw [Page.tasks_congr (Page.change_cases c).1.records] at ht
      exact (hgap.each i t ht).change rfl c

/-- A run that takes no time does nothing. -/
theorem play_of_endTime_eq_zero (h : s.endTime = 0) (hplay : s.play p = .ok q) : q = p := by
  have hlength : s.timeline.length = 0 := by
    rw [endTime, stepGap] at h
    omega
  have hsettle : s.settleTime = 0 := by
    rw [endTime] at h
    omega
  rw [play, List.length_eq_zero_iff.mp hlength, hsettle] at hplay
  exact (Except.ok.inj hplay).symm

/-- **The steps pass**, from some number on.  Where no step has been made the tasks are where they
begin. -/
theorem reached_steps (h : Page.Current S [] ⟨[], 0⟩ (· ∈ p.queue) p) {rest : List ScenarioStep}
    {r : Page} (hdrop : s.timeline.drop k = rest) (hk : k ≤ s.timeline.length)
    (hr : (∃ m, Reached s S k m (s.timeAfter k) r) ∨ k = 0 ∧ r = p)
    (hq : rest.foldlM (fun p step => s.apply (p.advance stepGap) step) r = .ok q) :
    (∃ m, Reached s S s.timeline.length m (s.timeAfter s.timeline.length) q) ∨
      s.timeline.length = 0 ∧ q = p := by
  induction rest generalizing k r with
  | nil =>
    obtain rfl : k = s.timeline.length := Nat.le_antisymm hk (List.drop_eq_nil_iff.mp hdrop)
    cases hq
    exact hr
  | cons step rest ih =>
    obtain ⟨hstep, hrest⟩ := split_of_drop hdrop
    rw [List.foldlM_cons] at hq
    obtain ⟨r', happly, hq⟩ := bind_eq_ok hq
    refine ih hrest (List.getElem?_eq_some_iff.mp hstep).1 (.inl ?_) hq
    rcases hr with ⟨m, hr⟩ | ⟨rfl, rfl⟩
    · exact reached_apply hstep hr.current happly
    · exact reached_apply hstep h happly

/-- **The timeline passes**, and at the end the tasks are where they should be. -/
theorem reached_play (h : Page.Current S [] ⟨[], 0⟩ (· ∈ p.queue) p) (hpositive : 0 < s.endTime)
    (hplay : s.play p = .ok q) : ∃ m, Reached s S s.timeline.length m s.endTime q := by
  rw [play] at hplay
  obtain ⟨r, hsteps, hplay⟩ := bind_eq_ok hplay
  cases hplay
  have hr := reached_steps h List.drop_zero (Nat.zero_le _) (.inr ⟨rfl, rfl⟩) hsteps
  have hnothing : s.timeline.length = 0 → s.timeAfter s.timeline.length = 0 := fun hlength => by
    rw [timeAfter, List.length_eq_zero_iff.mp hlength]
    rfl
  rw [endTime_eq] at hpositive ⊢
  rcases Nat.eq_zero_or_pos s.settleTime with hzero | hsettle
  · -- The run ends with its last step, and there is one since some time passes.
    have hsame : r.advance s.settleTime = r := by rw [Page.advance, if_pos hzero]
    rw [hsame, hzero, Nat.add_zero]
    rcases hr with hr | ⟨hlength, -⟩
    · exact hr
    · rw [hnothing hlength, hzero] at hpositive
      exact absurd hpositive (Nat.lt_irrefl 0)
  · have hcurrent : ∃ done, Page.Current S done
        ⟨s.changesOf s.timeline.length, s.timeAfter s.timeline.length⟩ (· ∈ r.queue) r := by
      rcases hr with ⟨m, hr⟩ | ⟨hlength, rfl⟩
      · exact ⟨_, hr.current⟩
      · refine ⟨[], ?_⟩
        rw [hnothing hlength, changesOf, List.length_eq_zero_iff.mp hlength]
        exact h
    obtain ⟨done, hcurrent⟩ := hcurrent
    exact ⟨_, reached_advance hcurrent hsettle fun j hj =>
      stepTime_le_timeAfter hj (Nat.le_refl _)⟩

end Hydration.Scenario
