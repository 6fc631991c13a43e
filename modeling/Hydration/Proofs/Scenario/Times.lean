import Hydration.Proofs.Requirement.Timing
import Hydration.Proofs.Scenario.Setup
import Hydration.Proofs.Strategy.Trigger

/-!
# The times of a scenario

The timeline of a scenario says at what time each of its steps happens (`stepTime`) and
when its run ends (`endTime`).  So each condition of a requirement has a time that can be
read off the scenario (`conditionTime`): from the beginning, after the idle fallback, with
the first step that brings about what it waits for, or never.

`happened_iff` ties these times to what strategies wait for: when the changes of the
first steps have happened and these are the steps up to some time, the trigger of a
condition has happened exactly if the time of the condition has come.
-/

namespace Hydration

/-- How long a step takes. -/
def ScenarioStep.duration : ScenarioStep → ℕ
  | wait duration => duration
  | _ => 0

namespace Scenario

variable (s : Scenario)

/-- The time of the step with number `k`, the first one having number 0. -/
def stepTime (k : ℕ) : ℕ :=
  stepGap * (k + 1) + ((s.timeline.take k).map ScenarioStep.duration).sum

/-- The time at which the run ends. -/
def endTime : ℕ :=
  stepGap * s.timeline.length + (s.timeline.map ScenarioStep.duration).sum + s.settleTime

/-- The time of the first step of some kind. -/
def firstTime (kind : ScenarioStep → Bool) : ℕ∞ :=
  match s.timeline.findIdx? kind with
  | some k => s.stepTime k
  | none => ⊤

/-- **The time of a condition** of the component `id` whose element has the key `key`.  A condition
with a name that is not built in never holds; an empty argument is none. -/
def conditionTime (key id : String) (c : Condition) : ℕ∞ :=
  match c.name with
  | "eager" => 0
  | "event" =>
    match Strategy.given c.argument with
    | none => s.firstTime fun step => step = .load id
    | some name => s.firstTime fun
      | .event name' => name' = name
      | .load _ => name = Event.loadName
      | _ => false
  | "idle" => if s.platform.idleCallback then s.firstTime fun step => step = .idle true else 200
  | "media" =>
    match Strategy.given c.argument with
    | none => 0
    | some query =>
      if Strategy.mediaQuery query ∈ s.platform.media then 0
      else s.firstTime fun step => step = .media (Strategy.mediaQuery query) true
  | "visible" =>
    if key ∈ s.platform.visible then 0 else s.firstTime fun step => step = .visible key
  | _ => ⊤

/-- The change that a step makes. -/
def changeOf : ScenarioStep → Option Change
  | .wait _ => none
  | .visible key => (s.element? key).map fun el => .visible el true
  | .hidden key => (s.element? key).map fun el => .visible el false
  | .media query on => some (.media query on)
  | .idle happens => if happens then some .idle else none
  | .event name => some (.event (.named name))
  | .load id => some (.event (.load id))

/-- The changes that the first `k` steps make. -/
def changesOf (k : ℕ) : List Change :=
  (s.timeline.take k).filterMap s.changeOf

variable {s} {platform : Platform} {m x : ℕ} {key id : String} {el : ElementRef}

/-! ## Steps -/

theorem firstTime_le_iff (hm : ∀ k, k < s.timeline.length → (k < m ↔ s.stepTime k ≤ x))
    (kind : ScenarioStep → Bool) :
    s.firstTime kind ≤ x ↔ (s.timeline.take m).any kind = true := by
  rw [firstTime]
  constructor
  · intro h
    cases hfind : s.timeline.findIdx? kind with
    | none =>
      rw [hfind] at h
      exact absurd h (by simp)
    | some k =>
      rw [hfind] at h
      have h : (s.stepTime k : ℕ∞) ≤ x := h
      obtain ⟨hk, hkind, -⟩ := List.findIdx?_eq_some_iff_getElem.mp hfind
      have hlt := (hm k hk).mpr (Nat.cast_le.mp h)
      exact List.any_eq_true.mpr ⟨_, List.mem_take_iff_getElem.mpr ⟨k, by omega, rfl⟩, hkind⟩
  · intro h
    obtain ⟨step, hstep, hkind⟩ := List.any_eq_true.mp h
    obtain ⟨j, hj, rfl⟩ := List.mem_take_iff_getElem.mp hstep
    cases hfind : s.timeline.findIdx? kind with
    | none =>
      rw [List.findIdx?_eq_none_iff] at hfind
      have := hfind _ (List.getElem_mem (by omega : j < s.timeline.length))
      rw [hkind] at this
      cases this
    | some k =>
      obtain ⟨hk, -, hfirst⟩ := List.findIdx?_eq_some_iff_getElem.mp hfind
      have hle : k ≤ j := by
        by_contra hlt
        exact hfirst j (Nat.lt_of_not_le hlt) hkind
      have htime := (hm k hk).mp (by omega)
      show (s.stepTime k : ℕ∞) ≤ x
      exact Nat.cast_le.mpr htime

/-! ## The platform at the beginning -/

theorem mem_of_mapM_element {keys : List String} {els : List ElementRef}
    (h : keys.mapM s.element = .ok els) :
    el ∈ els ↔ ∃ key ∈ keys, s.element? key = some el := by
  induction keys generalizing els with
  | nil =>
    cases h
    simp
  | cons key keys ih =>
    rw [List.mapM_cons] at h
    obtain ⟨first, hkey, h⟩ := bind_eq_ok h
    obtain ⟨rest, hrest, h⟩ := bind_eq_ok h
    cases h
    rw [List.mem_cons, ih hrest, List.exists_mem_cons_iff, element_ok hkey, Option.some.injEq]
    exact or_congr_left eq_comm

theorem setMedia_all (queries : List String) (p : Platform) :
    ∃ media, queries.foldl (fun p query => p.setMedia query true) p = { p with media } ∧
      ∀ query, query ∈ media ↔ query ∈ queries ∨ query ∈ p.media := by
  induction queries generalizing p with
  | nil => exact ⟨p.media, rfl, by simp⟩
  | cons first queries ih =>
    obtain ⟨media, hfold, hmedia⟩ := ih (p.setMedia first true)
    refine ⟨media, hfold, fun query => ?_⟩
    rw [hmedia, Platform.setMedia, Platform.mem_put, List.mem_cons]
    by_cases hq : query = first <;> simp [hq]

theorem setVisible_all (els : List ElementRef) (p : Platform) :
    ∃ visible, els.foldl (fun p el => p.setVisible el true) p = { p with visible } ∧
      ∀ el, el ∈ visible ↔ el ∈ els ∨ el ∈ p.visible := by
  induction els generalizing p with
  | nil => exact ⟨p.visible, rfl, by simp⟩
  | cons first els ih =>
    obtain ⟨visible, hfold, hvisible⟩ := ih (p.setVisible first true)
    refine ⟨visible, hfold, fun el => ?_⟩
    rw [hvisible, Platform.setVisible, Platform.mem_put, List.mem_cons]
    by_cases hel : el = first <;> simp [hel]

/-- **The platform of an accepted page** is as the scenario describes it. -/
theorem startingPlatform_cases (h : s.startingPlatform = .ok platform) :
    platform.idleCallback = s.platform.idleCallback ∧ platform.idlePeriods = 0 ∧
    (∀ query, platform.mediaMatches query = decide (query ∈ s.platform.media)) ∧
    ∀ el, platform.isVisible el = true ↔ ∃ key ∈ s.platform.visible, s.element? key = some el := by
  rw [startingPlatform] at h
  obtain ⟨els, hels, h⟩ := bind_eq_ok h
  obtain ⟨media, hmediaFold, hmedia⟩ :=
    setMedia_all s.platform.media { idleCallback := s.platform.idleCallback }
  obtain ⟨visible, hvisibleFold, hvisible⟩ :=
    setVisible_all els { idleCallback := s.platform.idleCallback, media }
  have hplatform : platform = { idleCallback := s.platform.idleCallback, media, visible } := by
    refine (Except.ok.inj h).symm.trans ?_
    show els.foldl _ (s.platform.media.foldl _ _) = _
    rw [hmediaFold, hvisibleFold]
  subst hplatform
  refine ⟨rfl, rfl, fun query => ?_, fun el => ?_⟩
  · simp [Platform.mediaMatches, hmedia]
  · rw [Platform.isVisible, decide_eq_true_eq, hvisible, mem_of_mapM_element hels]
    simp

/-! ## Keys -/

/-- An accepted scenario has one element for each key. -/
theorem element?_eq_some_iff {key : String} (hkeys : (s.elements.map (·.key)).Nodup)
    {e : ElementSpec} (he : s.elements[el.index]? = some e) :
    s.element? key = some el ↔ key = e.key := by
  obtain ⟨hlt, hget⟩ := List.getElem?_eq_some_iff.mp he
  rw [element?, Option.map_eq_some_iff]
  constructor
  · rintro ⟨i, hi, rfl⟩
    obtain ⟨_, hkey, -⟩ := List.findIdx?_eq_some_iff_getElem.mp hi
    rw [← hget]
    exact (eq_of_beq hkey).symm
  · rintro rfl
    cases hfind : s.elements.findIdx? (·.key == e.key) with
    | none =>
      rw [List.findIdx?_eq_none_iff] at hfind
      have := hfind e (hget ▸ List.getElem_mem hlt)
      simp at this
    | some i =>
      obtain ⟨hi, hkey, -⟩ := List.findIdx?_eq_some_iff_getElem.mp hfind
      refine ⟨i, rfl, congrArg ElementRef.mk ?_⟩
      have hlength : i < (s.elements.map (·.key)).length := by rwa [List.length_map]
      refine (List.getElem?_inj hlength hkeys).mp ?_
      rw [List.getElem?_map, List.getElem?_map, he, List.getElem?_eq_getElem hi]
      exact congrArg some (eq_of_beq hkey)

/-! ## Triggers -/

theorem get?_builtIn (name : String) : StrategyTable.builtIn.get? name =
    match name with
    | "eager" => some .eager
    | "event" => some .event
    | "idle" => some .idle
    | "media" => some .media
    | "visible" => some .visible
    | _ => none := by
  have hentries : StrategyTable.builtIn.entries =
      [("eager", .eager), ("event", .event), ("idle", .idle), ("media", .media),
        ("visible", .visible)] := rfl
  rw [StrategyTable.get?, hentries]
  split
  · rfl
  · rfl
  · rfl
  · rfl
  · rfl
  · next heager hevent hidle hmedia hvisible =>
    simp only [List.lookup_cons, List.lookup_nil, beq_eq_false_iff_ne.mpr heager,
      beq_eq_false_iff_ne.mpr hevent, beq_eq_false_iff_ne.mpr hidle, beq_eq_false_iff_ne.mpr hmedia,
      beq_eq_false_iff_ne.mpr hvisible]

/-- A trigger that only changes can fire has happened with the first step of its kind. -/
theorem fired_iff (hm : ∀ k, k < s.timeline.length → (k < m ↔ s.stepTime k ≤ x)) {trigger : Trigger}
    {kind : ScenarioStep → Bool}
    (hkind : ∀ step, (s.changeOf step).any trigger.firedBy = kind step) :
    (s.changesOf m).any trigger.firedBy = true ↔ s.firstTime kind ≤ x := by
  rw [firstTime_le_iff hm, changesOf, List.any_filterMap]
  refine Iff.of_eq (congrArg (· = true) (congrArg _ (funext fun step => ?_)))
  rw [← hkind]
  cases s.changeOf step with
  | none => rfl
  | some c => rfl

theorem changeOf_visible_any {trigger : Trigger}
    (hno : ∀ el on, trigger.firedBy (.visible el on) = false) (key : String) (on : Bool) :
    ((s.element? key).map fun el => Change.visible el on).any trigger.firedBy = false := by
  cases s.element? key with
  | none => rfl
  | some el => exact hno el on

theorem fired_named (name : String) (step : ScenarioStep) :
    (s.changeOf step).any (Trigger.event (.named name)).firedBy = match step with
      | .event name' => decide (name' = name)
      | .load _ => decide (name = Event.loadName)
      | _ => false := by
  cases step with
  | event name' =>
    show ((name' == name) && true) = _
    rw [Bool.and_true]
    exact beq_eq_decide name' name
  | load id =>
    show ((Event.loadName == name) && true) = decide (name = Event.loadName)
    rw [Bool.and_true, beq_eq_decide]
    exact decide_eq_decide.mpr eq_comm
  | idle happens => cases happens <;> rfl
  | visible key => exact changeOf_visible_any (fun _ _ => rfl) key true
  | hidden key => exact changeOf_visible_any (fun _ _ => rfl) key false
  | wait duration => rfl
  | media query on => rfl

theorem fired_load (id : String) (step : ScenarioStep) :
    (s.changeOf step).any (Trigger.event (.load id)).firedBy = decide (step = .load id) := by
  cases step with
  | event name =>
    show (true && (name == Event.loadName && none == some id)) = _
    simp
  | load id' =>
    show (true && (Event.loadName == Event.loadName && some id' == some id)) = _
    rw [Bool.true_and, beq_self_eq_true, Bool.true_and]
    simp [beq_eq_decide]
  | idle happens => cases happens <;> rfl
  | visible key => exact changeOf_visible_any (fun _ _ => rfl) key true
  | hidden key => exact changeOf_visible_any (fun _ _ => rfl) key false
  | wait duration => rfl
  | media query on => rfl

theorem fired_idle (step : ScenarioStep) :
    (s.changeOf step).any Trigger.idle.firedBy = decide (step = .idle true) := by
  cases step with
  | idle happens => cases happens <;> rfl
  | visible key => exact changeOf_visible_any (fun _ _ => rfl) key true
  | hidden key => exact changeOf_visible_any (fun _ _ => rfl) key false
  | _ => rfl

theorem fired_media (query : String) (step : ScenarioStep) :
    (s.changeOf step).any (Trigger.media query).firedBy = decide (step = .media query true) := by
  cases step with
  | media query' on => cases on <;> simp [changeOf, Trigger.firedBy]
  | idle happens => cases happens <;> rfl
  | visible key => exact changeOf_visible_any (fun _ _ => rfl) key true
  | hidden key => exact changeOf_visible_any (fun _ _ => rfl) key false
  | _ => rfl

theorem fired_visible (hkeys : (s.elements.map (·.key)).Nodup) {e : ElementSpec}
    (he : s.elements[el.index]? = some e) (step : ScenarioStep) :
    (s.changeOf step).any (Trigger.visible el).firedBy = decide (step = .visible e.key) := by
  cases step with
  | visible key =>
    show ((s.element? key).map fun el' => Change.visible el' true).any _ = _
    cases hkey : s.element? key with
    | none =>
      symm
      rw [Option.map_none, Option.any_none, decide_eq_false_iff_not]
      rintro heq
      cases heq
      rw [(element?_eq_some_iff hkeys he).mpr rfl] at hkey
      cases hkey
    | some el' =>
      show (decide (el' = el) && true) = _
      rw [Bool.and_true]
      refine decide_eq_decide.mpr ?_
      rw [ScenarioStep.visible.injEq, ← element?_eq_some_iff hkeys he, hkey, Option.some.injEq]
  | hidden key =>
    show ((s.element? key).map fun el' => Change.visible el' false).any _ = _
    cases s.element? key with
    | none => rfl
    | some el' => exact Bool.and_false _
  | idle happens => cases happens <;> rfl
  | _ => rfl

theorem happened_event (hm : ∀ k, k < s.timeline.length → (k < m ↔ s.stepTime k ≤ x))
    (argument : Option String) :
    (Trigger.event (Strategy.eventFilter ⟨el, id⟩ argument)).happened ⟨s.changesOf m, x⟩ = true ↔
      s.conditionTime key id ⟨"event", argument⟩ ≤ x := by
  show (s.changesOf m).any
    (Trigger.event (Strategy.eventFilter ⟨el, id⟩ argument)).firedBy = true ↔ _
  rw [conditionTime, Strategy.eventFilter]
  cases Strategy.given argument with
  | none => exact fired_iff hm (fired_load id)
  | some name => exact fired_iff hm (fired_named name)

theorem happened_idle (component : ComponentHandle)
    (hcallback : platform.idleCallback = s.platform.idleCallback)
    (hm : ∀ k, k < s.timeline.length → (k < m ↔ s.stepTime k ≤ x)) (argument : Option String) :
    (Strategy.idle.trigger platform component argument).happened ⟨s.changesOf m, x⟩ = true ↔
      s.conditionTime key id ⟨"idle", argument⟩ ≤ x := by
  rw [Strategy.trigger, conditionTime, hcallback]
  cases s.platform.idleCallback with
  | true => exact fired_iff hm fired_idle
  | false =>
    -- Where idle periods are not reported the time alone decides.
    show decide (Strategy.idleFallback ≤ x) = true ↔ ((200 : ℕ) : ℕ∞) ≤ x
    rw [decide_eq_true_eq, Nat.cast_le]
    rfl

theorem happened_media (component : ComponentHandle)
    (hmedia : ∀ query, platform.mediaMatches query = decide (query ∈ s.platform.media))
    (hm : ∀ k, k < s.timeline.length → (k < m ↔ s.stepTime k ≤ x)) (argument : Option String) :
    (Strategy.media.trigger platform component argument).happened ⟨s.changesOf m, x⟩ = true ↔
      s.conditionTime key id ⟨"media", argument⟩ ≤ x := by
  rw [conditionTime, Strategy.trigger]
  cases Strategy.given argument with
  | none => exact iff_of_true rfl bot_le
  | some query =>
    dsimp only
    rw [hmedia]
    by_cases hquery : Strategy.mediaQuery query ∈ s.platform.media
    · rw [if_pos (decide_eq_true hquery), if_pos hquery]
      exact iff_of_true rfl bot_le
    · rw [if_neg (by simpa using hquery), if_neg hquery]
      exact fired_iff hm (fired_media _)

theorem happened_visible (hkeys : (s.elements.map (·.key)).Nodup) {e : ElementSpec}
    (he : s.elements[el.index]? = some e)
    (hvisible : platform.isVisible el = true ↔
      ∃ key ∈ s.platform.visible, s.element? key = some el)
    (hm : ∀ k, k < s.timeline.length → (k < m ↔ s.stepTime k ≤ x)) (argument : Option String) :
    (Strategy.visible.trigger platform ⟨el, id⟩ argument).happened ⟨s.changesOf m, x⟩ = true ↔
      s.conditionTime e.key id ⟨"visible", argument⟩ ≤ x := by
  rw [conditionTime, Strategy.trigger]
  -- Keys differ, so the element is visible from the beginning exactly if its own key is listed.
  have hbegins : platform.isVisible el = true ↔ e.key ∈ s.platform.visible := by
    rw [hvisible]
    constructor
    · rintro ⟨key, hkey, hel⟩
      exact (element?_eq_some_iff hkeys he).mp hel ▸ hkey
    · exact fun hkey => ⟨e.key, hkey, (element?_eq_some_iff hkeys he).mpr rfl⟩
  by_cases hkey : e.key ∈ s.platform.visible
  · rw [if_pos (hbegins.mpr hkey), if_pos hkey]
    exact iff_of_true rfl bot_le
  · rw [if_neg fun h => hkey (hbegins.mp h), if_neg hkey]
    exact fired_iff hm (fired_visible hkeys he)

/-- **The trigger of a condition has happened** exactly if the time of the condition has come. -/
theorem happened_iff (h : s.startingPlatform = .ok platform)
    (hkeys : (s.elements.map (·.key)).Nodup) {e : ElementSpec}
    (he : s.elements[el.index]? = some e)
    (hm : ∀ k, k < s.timeline.length → (k < m ↔ s.stepTime k ≤ x)) (c : Condition) :
    (c.trigger platform ⟨el, id⟩).happened ⟨s.changesOf m, x⟩ = true ↔
      s.conditionTime e.key id c ≤ x := by
  obtain ⟨hcallback, -, hmedia, hvisible⟩ := startingPlatform_cases h
  obtain ⟨name, argument⟩ := c
  by_cases heager : name = "eager"
  · subst heager
    exact iff_of_true rfl bot_le
  by_cases hevent : name = "event"
  · subst hevent
    exact happened_event hm argument
  by_cases hidle : name = "idle"
  · subst hidle
    exact happened_idle ⟨el, id⟩ hcallback hm argument
  by_cases hmediaName : name = "media"
  · subst hmediaName
    exact happened_media ⟨el, id⟩ hmedia hm argument
  by_cases hvisibleName : name = "visible"
  · subst hvisibleName
    exact happened_visible hkeys he (hvisible el) hm argument
  · -- Any other name is not registered.
    have hnone : StrategyTable.builtIn.get? name = none := by
      rw [get?_builtIn]
      split <;> first | rfl | contradiction
    have hnever : s.conditionTime e.key id ⟨name, argument⟩ = ⊤ := by
      rw [conditionTime]
      dsimp only
      split <;> first | rfl | contradiction
    rw [Condition.trigger, hnone, hnever]
    exact iff_of_false (by rw [Trigger.not_happened_never]; decide) (by simp)

end Scenario

end Hydration
