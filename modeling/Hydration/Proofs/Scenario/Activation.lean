import Hydration.Proofs.Scenario.Timeline
import Hydration.Proofs.Scenario.Wording
import Hydration.Url.Parse

/-!
# When the elements of a scenario are activated

The report of a run can be foretold from the scenario.  Each leaf of a requirement has a
time (`conditionTime`), an AND has the latest time of its operands and an OR the earliest,
and the element is activated exactly if the time of its requirement comes before the run
ends, unless its module cannot be had (`activated_iff_lt_endTime`).
-/

namespace Hydration.Scenario

variable {s : Scenario} {join : Url.Joiner} {p q : Page} {el : ElementRef} {e : ElementSpec}

/-- The requirement of an element; a blank one is none. -/
def requirementOf (s : Scenario) (e : ElementSpec) : String :=
  (e.load.filter (!Text.isBlankText ·)).getD s.options.defaultStrategy

/-- The page sees the requirement of the scenario. -/
theorem requirementFor_page (h : s.page join = .ok p) (he : s.elements[el.index]? = some e) :
    p.requirementFor el = s.requirementOf e := by
  have hdeclared : p.declaration el = e.declaration := by
    rw [declaration_page h, he]
    rfl
  have hload : p.document.attribute? el (p.options.attributeName "load") = e.load :=
    congrArg Declaration.load hdeclared
  have hoptions : p.options = s.options := by
    obtain ⟨document, platform, modules, -, -, -, rfl⟩ := page_eq h
    rfl
  rw [Page.requirementFor, hload, hoptions, requirementOf]

/-- **The report on an element** is that on its task. -/
theorem component?_report (hkeys : (s.elements.map (·.key)).Nodup)
    (helements : q.tasks.map (·.element) = s.deferred) (he : s.elements[el.index]? = some e)
    (hel : el ∈ s.deferred) : ∃ (i : ℕ) (t : Task), q.tasks[i]? = some t ∧ t.element = el ∧
      (s.report q).component? e.key = some (s.reportOn q el t.status) := by
  have hkey : ∀ x, x ∈ s.deferred → s.keyOf x = e.key → x = el := by
    intro x hx hkey
    obtain ⟨e', he', -⟩ := mem_deferred.mp hx
    have hxkey : s.keyOf x = e'.key := by rw [keyOf, he']
    refine Option.some.inj (((element?_eq_some_iff hkeys he').mpr ?_).symm.trans
      ((element?_eq_some_iff hkeys he).mpr rfl))
    exact hkey.symm.trans hxkey
  have hmem : ∀ t ∈ q.tasks, t.element ∈ s.deferred := fun t ht => by
    rw [← helements]
    exact List.mem_map_of_mem ht
  rw [Report.component?]
  cases hfind : (s.report q).components.find? (·.key == e.key) with
  | none =>
    rw [← helements] at hel
    obtain ⟨t, ht, rfl⟩ := List.mem_map.mp hel
    rw [List.find?_eq_none] at hfind
    refine absurd ?_ (hfind _ (List.mem_map_of_mem ht))
    show (s.keyOf t.element == e.key) = true
    rw [keyOf, he]
    exact beq_self_eq_true _
  | some c =>
    obtain ⟨t, ht, rfl⟩ := List.mem_map.mp (List.mem_of_find?_eq_some hfind)
    obtain ⟨i, hi⟩ := List.getElem?_of_mem ht
    have hfound : (s.keyOf t.element == e.key) = true :=
      List.find?_some (p := fun c : ComponentReport => c.key == e.key) hfind
    have helement := hkey t.element (hmem t ht) (eq_of_beq hfound)
    exact ⟨i, t, hi, helement, by rw [helement]⟩

/-- **A run** that gives a report. -/
theorem run_cases {r : Report} (h : s.run join = .ok r) :
    ∃ p q, s.page join = .ok p ∧ s.play (s.start p) = .ok q ∧ r = s.report q := by
  rw [run] at h
  obtain ⟨p, hpage, h⟩ := bind_eq_ok h
  obtain ⟨q, hplay, h⟩ := bind_eq_ok h
  exact ⟨p, q, hpage, mapError_eq_ok hplay, (Except.ok.inj h).symm⟩

/-! ## The end of a run -/

section End

variable {S : Page.Setting} {m : ℕ} {t : Requirement} {id : String} {platform : Platform}

/-- Exactly the steps that happen before the end have been taken into account. -/
theorem Reached.lt_iff (h : Reached s S s.timeline.length m s.endTime q) {k : ℕ}
    (hk : k < s.timeline.length) : k < m ↔ s.stepTime k ≤ s.endTime - 1 := by
  constructor
  · intro hkm
    have := h.before k hkm
    omega
  · intro hle
    by_contra hkm
    have hlate := h.after k (Nat.le_of_not_lt hkm) hk
    have hpositive : 0 < s.stepTime k := by
      rw [stepTime_eq]
      exact Nat.lt_add_left _ (by decide)
    omega

/-- **The requirement holds** in the last millisecond of a run exactly if its time comes before the
run ends. -/
theorem outcome_eq_true_iff_lt_endTime (h : Reached s S s.timeline.length m s.endTime q)
    (hpositive : 0 < s.endTime) (hplatform : s.startingPlatform = .ok platform)
    (hkeys : (s.elements.map (·.key)).Nodup) (he : s.elements[el.index]? = some e) :
    t.outcome (fun a => Trigger.known ⟨s.changesOf m, s.endTime - 1⟩
        (a.trigger platform ⟨el, id⟩)) = some true ↔
      t.successTime (s.conditionTime e.key id) < s.endTime := by
  have houtcome : t.outcome (fun a => Trigger.known ⟨s.changesOf m, s.endTime - 1⟩
      (a.trigger platform ⟨el, id⟩)) = some true ↔
      t.successTime (s.conditionTime e.key id) ≤ ((s.endTime - 1 : ℕ) : ℕ∞) := by
    refine Formula.outcome_eq_true_iff (fun a => ?_) t
    rw [Trigger.known_eq_true]
    exact happened_iff hplatform hkeys he (fun k hk => h.lt_iff hk) a
  rw [houtcome]
  obtain ⟨n, hn⟩ := Nat.exists_eq_succ_of_ne_zero (Nat.pos_iff_ne_zero.mp hpositive)
  rw [hn]
  exact ENat.lt_natCast_add_one_iff.symm

end End

/-- **Whether an element is activated** at the end of a run. -/
theorem activated_iff_lt_endTime {r : Report} {t : Requirement} (h : s.run join = .ok r)
    (he : e ∈ s.elements) (hload : e.load.isSome)
    (hparse : Requirement.parse (s.requirementOf e) = .ok t) :
    ∃ c, r.component? e.key = some c ∧
      ((∀ error : ModuleError, c.error ≠ some (Failure.module error).message) →
        (0 < s.endTime → c.id.isSome) ∧ (c.state = some .activated ↔
          ∃ id, c.id = some id ∧ t.successTime (s.conditionTime e.key id) < s.endTime)) := by
  obtain ⟨i, hi⟩ := List.getElem?_of_mem he
  obtain ⟨p, q, hpage, hplay, rfl⟩ := run_cases h
  obtain ⟨document, platform, modules, hdocument, hplatform, -, hp⟩ := page_eq hpage
  have hkeys : (s.elements.map (·.key)).Nodup := by
    have := (built_of_document hdocument).keys
    rwa [List.take_length] at this
  have hel : (⟨i⟩ : ElementRef) ∈ s.deferred := mem_deferred.mpr ⟨e, hi, hload⟩
  have hstart := current_start hpage
  rcases Nat.eq_zero_or_pos s.endTime with hzero | hpositive
  · -- No time passes: every component is as it was discovered.
    obtain rfl := play_of_endTime_eq_zero hzero hplay
    obtain ⟨j, task, htask, helement, hreport⟩ := component?_report hkeys hstart.elements hi hel
    refine ⟨_, hreport, fun _ => ⟨fun hpositive => ?_, iff_of_false ?_ ?_⟩⟩
    · rw [hzero] at hpositive
      exact absurd hpositive (Nat.lt_irrefl 0)
    · show ((s.start p).component? ⟨i⟩).map (·.state) ≠ _
      rw [component?_start hpage hel]
      simp
    · rintro ⟨id, -, hlt⟩
      rw [hzero] at hlt
      exact absurd hlt not_lt_bot
  · obtain ⟨m, hreached⟩ := reached_play hstart hpositive hplay
    obtain ⟨j, task, htask, helement, hreport⟩ :=
      component?_report hkeys hreached.current.elements hi hel
    refine ⟨_, hreport, fun hmodule => ?_⟩
    have hstage := hreached.each j task htask
    rw [Page.AtStage, helement] at hstage
    have hfailed : ∀ error : ModuleError, task.status ≠ .ended (.error (.module error)) := by
      intro error hstatus
      refine hmodule error ?_
      rw [hstatus]
      rfl
    have hparse' : Requirement.parse ((s.setting p).requirement ⟨i⟩) = .ok t := by
      rw [← hparse, ← requirementFor_page hpage hi]
      rfl
    obtain ⟨c, id, hrecord, hid, hactivated⟩ := hstage.activated_iff hparse' hfailed
    have hstarting : (s.setting p).platform = platform := by rw [setting, hp]
    rw [hstarting, outcome_eq_true_iff_lt_endTime hreached hpositive hplatform hkeys hi]
      at hactivated
    refine ⟨fun _ => ?_, ?_⟩
    · show ((q.component? ⟨i⟩).bind (·.id)).isSome
      rw [hrecord, Option.bind_some, hid]
      rfl
    · show (q.component? ⟨i⟩).map (·.state) = some .activated ↔
        ∃ id, (q.component? ⟨i⟩).bind (·.id) = some id ∧ _
      rw [hrecord, Option.map_some, Option.some.injEq, Option.bind_some, hid, hactivated]
      simp

/-- An element that waits for an event and for the viewport. -/
def lateBanner : Scenario :=
  { elements := [{ key := "banner", load := some "visible && event(show)" }]
    timeline := [.event "show", .wait 20, .visible "banner"] }

/-- The report on `lateBanner`. -/
def lateBannerReport : Report :=
  (lateBanner.run Url.joinTexts).toOption.getD default

/-- The last step of `lateBanner` happens after 35 ms and the run ends after 285 ms, so the element
is activated. -/
theorem activated_iff_lt_endTime_late_banner : lateBanner.run Url.joinTexts = .ok lateBannerReport ∧
    lateBanner.stepTime 2 = 35 ∧ lateBanner.endTime = 285 ∧
    ∃ c, lateBannerReport.component? "banner" = some c ∧ c.state = some .activated := by
  have hrun : lateBanner.run Url.joinTexts = .ok lateBannerReport := by
    have hok : (lateBanner.run Url.joinTexts).isOk = true := by decide +kernel
    rw [lateBannerReport]
    cases h : lateBanner.run Url.joinTexts with
    | ok r => rfl
    | error error =>
      rw [h] at hok
      cases hok
  refine ⟨hrun, rfl, rfl, ?_⟩
  have hscan : Token.scan "visible && event(show)" =
      [.condition ⟨"visible", none⟩, .operator .and, .condition ⟨"event", some "show"⟩] := by
    decide +kernel
  have htext : lateBanner.requirementOf { key := "banner", load := some "visible && event(show)" } =
      "visible && event(show)" := by
    decide +kernel
  have hparse : Requirement.parse "visible && event(show)" =
      .ok (.node .and [.leaf ⟨"visible", none⟩, .leaf ⟨"event", some "show"⟩]) := by
    rw [Requirement.parse, if_neg (by decide +kernel), hscan]
    rfl
  rw [← htext] at hparse
  obtain ⟨c, hc, hactivated⟩ := activated_iff_lt_endTime hrun List.mem_cons_self rfl hparse
  have hnone : (lateBannerReport.component? "banner").bind (·.error) = none := by decide +kernel
  rw [hc, Option.bind_some] at hnone
  obtain ⟨hid, hiff⟩ := hactivated fun error => by
    rw [hnone]
    exact nofun
  obtain ⟨id, hid⟩ := Option.isSome_iff_exists.mp (hid (by decide))
  refine ⟨c, hc, hiff.mpr ⟨id, hid, ?_⟩⟩
  -- The viewport is the later of the two operands.
  show max ((35 : ℕ) : ℕ∞) (max ((5 : ℕ) : ℕ∞) 0) < ((285 : ℕ) : ℕ∞)
  rw [max_lt_iff, max_lt_iff]
  exact ⟨Nat.cast_lt.mpr (by decide), Nat.cast_lt.mpr (by decide),
    Nat.cast_lt.mpr (by decide : 0 < 285)⟩

end Hydration.Scenario
