import Hydration.Proofs.Page.Once

/-!
# Pages whose elements are attended to

On a page on which each discovered element has a call of its own, and no call is given up, no call
is ever skipped: it finds its element as it was discovered, and nobody else touches it.  Such a page
is `Attended`, and it stays so in a run without commands (`Attended.passes`).

What is known of every course then becomes a statement about the elements.  A call has an outcome
exactly if its element is activated, and a call that has failed leaves its element waiting
(`Attended.outcome_iff`, `Attended.failed`).
-/

namespace Hydration.Page

variable {p q r : Page} {els : List ElementRef} {start : List TreeChange} {i j : Nat} {t : Task}
  {el x : ElementRef}

/-- **The task goes on**: it has not been given up or skipped, and if it has still to begin its
element waits to be claimed. -/
structure Onward (p : Page) (t : Task) : Prop where
  uncancelled : t.cancelled = false
  kept : t.status ≠ .dropped
  unskipped : t.status ≠ .ended (.ok .skipped)
  fresh : ∀ discovers, t.status = .fresh discovers → p.state? t.element = some .discovered

/-- **Each element of `els` has a task of its own** that goes on, and since the journal was `start`
only what is handed back has been noted in it. -/
structure Attended (els : List ElementRef) (start : List TreeChange) (p : Page) : Prop where
  sound : Sound els p
  elements : p.tasks.map (·.element) = els
  nodup : els.Nodup
  onward : ∀ (i : Nat) (t : Task), p.tasks[i]? = some t → Onward p t
  history : ∃ log handed, Kept log handed p ∧ p.document.journal = start ++ blocks handed

theorem Attended.distinct {u : Task} (h : Attended els start p) (ht : p.tasks[i]? = some t)
    (hu : p.tasks[j]? = some u) (hsame : t.element = u.element) : i = j :=
  task_distinct (h.elements ▸ h.nodup) ht hu hsame

/-! ## Turns -/

/-- With other elements than its own a turn has nothing to do. -/
theorem Progress.state?_other {component : ComponentHandle} {turn : TaskStatus × Page}
    (h : Progress p component turn) (hx : x ≠ component.element) :
    turn.2.state? x = p.state? x := by
  cases h with
  | failed hq => exact state?_congr hq
  | waiting hq => exact state?_congr hq
  | done hq =>
    rw [state?_handBack, if_neg hx]
    exact state?_congr hq

/-- A turn ends neither skipped nor given up. -/
theorem Progress.status {component : ComponentHandle} {turn : TaskStatus × Page}
    (h : Progress p component turn) : turn.1 ≠ .dropped ∧ turn.1 ≠ .ended (.ok .skipped) ∧
      ∀ discovers, turn.1 ≠ .fresh discovers := by
  cases h with
  | failed hq => exact ⟨nofun, nofun, nofun⟩
  | waiting hq => exact ⟨nofun, nofun, nofun⟩
  | @done q hq =>
    refine ⟨nofun, fun hskipped => ?_, nofun⟩
    injection hskipped with hresult
    exact (handBack_spec q component.element).2.1 (Except.ok.inj hresult)

/-- **A turn on an attended page** has nothing to do, or makes progress with the element of its
task. -/
theorem Attended.runTask_cases (h : Attended els start p) (i : Nat) : p.runTask i = p ∨
    ∃ t r component turn, p.tasks[i]? = some t ∧ component.element = t.element ∧
      r.tasks = p.tasks ∧ (∀ x, x ≠ t.element → r.state? x = p.state? x) ∧
      Progress r component turn ∧ p.runTask i = turn.2.setStatus i turn.1 := by
  rw [runTask]
  cases ht : p.tasks[i]? with
  | none => exact .inl rfl
  | some t =>
    have honward := h.onward i t ht
    dsimp only
    cases hstatus : t.status with
    | ended result => exact .inl rfl
    | dropped => exact absurd hstatus honward.kept
    | fresh discovers =>
      dsimp only
      rw [if_neg (by rw [honward.uncancelled]; decide)]
      have hdiscovered := honward.fresh discovers hstatus
      have hprepared : p.prepared t discovers = p := by
        rw [prepared, discover_of_state hdiscovered, ite_self]
      have hclaim : p.claim? t.element = some _ :=
        claim?_eq_some.mpr ⟨h.sound.marked.cloning, hdiscovered, rfl⟩
      obtain ⟨f, q, id, hf, hprogress⟩ := beginActivation_of_some hclaim
      refine .inr ⟨t, p.modifyComponent t.element f, ⟨t.element, id⟩, _, rfl, rfl, rfl,
        fun x hx => ?_, hprogress, ?_⟩
      · rw [state?_modifyComponent_of_some hf.element hf.state hf.discovered, if_neg hx]
      · show ((p.prepared t discovers).beginActivation t.element).2.setStatus i
          ((p.prepared t discovers).beginActivation t.element).1 = _
        rw [hprepared]
    | awaiting component name requirement download =>
      dsimp only
      rw [if_neg (by rw [honward.uncancelled]; decide)]
      obtain ⟨log, handed, hkept, -⟩ := h.history
      obtain ⟨hcomponent, -, -⟩ := hkept.awaits i t _ _ _ _ ht hstatus
      exact .inr ⟨t, p, component, _, rfl, hcomponent, rfl, fun _ _ => rfl,
        resumeActivation_progress, rfl⟩

theorem Attended.runTask (h : Attended els start p) (i : Nat) :
    Attended els start (p.runTask i) := by
  have hsound := (h.sound.run (.single (.turn i))).1
  have hhistory : ∃ log handed, Kept log handed (p.runTask i) ∧
      (p.runTask i).document.journal = start ++ blocks handed := by
    obtain ⟨log, handed, hkept, hjournal⟩ := h.history
    have hturn := hkept.turn (turn_cases p i)
    refine ⟨_, _, hturn.kept, ?_⟩
    rw [hturn.journal, hjournal, blocks_append, List.append_assoc]
  rcases h.runTask_cases i with
    hsame | ⟨t, r, component, turn, ht, hel, htasks, hstate, hprogress, hq⟩
  · rw [hsame]
    exact h
  · have hturn := hprogress.tasks.trans htasks
    rw [hq] at hsound hhistory ⊢
    refine ⟨hsound, ?_, h.nodup, fun j u hu => ?_, hhistory⟩
    · rw [elements_setStatus, hturn]
      exact h.elements
    · rw [getElem?_setStatus, hturn] at hu
      split at hu
      · next hij =>
        subst hij
        rw [ht] at hu
        obtain rfl := Option.some.inj hu
        obtain ⟨hkept, hunskipped, hfresh⟩ := hprogress.status
        exact ⟨(h.onward i t ht).uncancelled, hkept, hunskipped,
          fun discovers hstatus => absurd hstatus (hfresh discovers)⟩
      · next hij =>
        have honward := h.onward j u hu
        refine ⟨honward.uncancelled, honward.kept, honward.unskipped, fun discovers hstatus => ?_⟩
        have hne : u.element ≠ t.element := fun hsame => hij (h.distinct hu ht hsame).symm
        show turn.2.state? u.element = _
        rw [hprogress.state?_other (hel ▸ hne), hstate _ hne]
        exact honward.fresh discovers hstatus

theorem Attended.congr (h : Attended els start p) (hq : q.records = p.records) :
    Attended els start q where
  sound := h.sound.congr hq
  elements := by
    rw [tasks_congr hq]
    exact h.elements
  nodup := h.nodup
  onward i t ht := by
    have honward := h.onward i t (tasks_congr hq ▸ ht)
    exact ⟨honward.uncancelled, honward.kept, honward.unskipped, fun discovers hstatus =>
      (state?_congr hq).trans (honward.fresh discovers hstatus)⟩
  history := by
    obtain ⟨log, handed, hkept, hjournal⟩ := h.history
    exact ⟨log, handed, hkept.congr (tasks_congr hq) fun x => state?_congr hq,
      (congrArg Records.journal hq).trans hjournal⟩

/-- **Attended pages stay attended** in a run without commands. -/
theorem Attended.passes (h : Attended els start p) (hq : Passes p q) : Attended els start q := by
  induction hq with
  | refl => exact h
  | tail _ hstep ih =>
    cases hstep with
    | turn i => exact ih.runTask i
    | outside hr => exact ih.congr hr

/-! ## What tasks have come to -/

/-- A task has an outcome exactly if its element is activated. -/
theorem Attended.outcome_iff (h : Attended els start p) (ht : p.tasks[i]? = some t) :
    (outcomeOf t.status).isSome ↔ p.state? t.element = some .activated := by
  obtain ⟨log, handed, hkept, -⟩ := h.history
  constructor
  · intro hsome
    obtain ⟨outcome, houtcome⟩ := Option.isSome_iff_exists.mp hsome
    have hstatus := outcomeOf_eq_some.mp houtcome
    refine hkept.state?_of_ended ht hstatus ?_
    rintro rfl
    exact (h.onward i t ht).unskipped hstatus
  · rw [hkept.activated]
    rintro ⟨j, outcome, hmem⟩
    obtain ⟨-, u, hu, hsame, hstatus⟩ := (hkept.delivered _ _ _).mp hmem
    obtain rfl := h.distinct ht hu hsame.symm
    obtain rfl := Option.some.inj (ht.symm.trans hu)
    rw [hstatus]
    rfl

/-- A task that has failed leaves its element waiting. -/
theorem Attended.failed (h : Attended els start p) (ht : p.tasks[i]? = some t) {error : Failure}
    (hstatus : t.status = .ended (.error error)) :
    p.state? t.element = some .awaitingRequirements := by
  obtain ⟨log, handed, hkept, -⟩ := h.history
  exact hkept.state?_of_failed ht hstatus

end Hydration.Page
