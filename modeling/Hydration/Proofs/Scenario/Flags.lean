import Hydration.Proofs.Page.Flags
import Hydration.Proofs.Scenario.Setup
import Hydration.Url.Parse

/-!
# Which elements are initialized

Once the deferred elements of a scenario are discovered and the roots are initialized
(`opened`), the flags of its page say exactly how far the activations have come, at
every moment of every run and in whatever order the activations end.  An element is
inert while it is deferred and not activated.  It is initialized once each
deferred element among itself and its ancestors is activated, and stays so.

What the scheduler does to the page of a scenario is one of these runs (`passes_play`).
-/

namespace Hydration.Scenario

variable {s : Scenario} {join : Url.Joiner} {p q r : Page} {el x : ElementRef}

/-- **On the opened page** the flags fit the components. -/
theorem sound_opened (h : s.page join = .ok p) : Page.Sound s.deferred (s.opened p) := by
  have ho := opened_of_page h
  have htasks : (s.opened p).tasks = [] := by
    obtain ⟨_, _, _, -, -, -, hp⟩ := page_eq h
    rw [ho.rest.1, hp]
  refine ⟨⟨(Document.ordered_congr ho.skeleton).mpr ho.built.ordered, ho.cloning, ho.consistent,
    fun x => ?_, fun x => ?_⟩, ?_, ?_, ?_⟩
  · rw [ho.inert, Page.state?, ho.component]
    constructor
    · intro hx
      exact ⟨hx, by simp [hx]⟩
    · exact And.left
  · rw [ho.component]
    split
    · next hx => simp [hx]
    · next hx => simp [hx]
  · simp [htasks]
  · simp [htasks]
  · simp [htasks]

/-! ## Runs -/

theorem run_startTasks {els : List ElementRef} (hels : ∀ el ∈ els, el ∈ s.deferred) (q : Page) :
    Page.Run s.deferred q (els.foldl (fun p el => (p.startTask el true).2) q) := by
  induction els generalizing q with
  | nil => exact .refl
  | cons el els ih =>
    exact .head (.handle (hels el List.mem_cons_self))
      (ih (fun x hx => hels x (List.mem_cons_of_mem el hx)) _)

/-- Starting the tasks is part of a run. -/
theorem run_start : Page.Run s.deferred (s.opened p) (s.start p) := by
  rw [start_eq]
  exact run_startTasks (fun _ => id) (s.opened p)

theorem passes_apply {step : ScenarioStep} (h : s.apply p step = .ok q) : Page.Passes p q := by
  have hvisible : ∀ key on, (do return p.setVisible (← s.element key) on) = .ok q →
      Page.Passes p q := by
    intro key on h
    obtain ⟨el, -, rfl⟩ := setVisible_ok h
    exact .outside (Page.records_setVisible el on)
  cases step with
  | wait duration =>
    cases h
    exact Page.passes_advance duration
  | visible key => exact hvisible key true h
  | hidden key => exact hvisible key false h
  | media query on =>
    cases h
    exact .outside (Page.records_setMedia query on)
  | idle happens =>
    cases h
    cases happens with
    | false => exact .refl
    | true => exact .outside Page.records_triggerIdle
  | event name =>
    cases h
    exact .outside (Page.records_publish _)
  | load id =>
    cases h
    exact .outside (Page.records_publish _)

theorem passes_steps {steps : List ScenarioStep}
    (h : steps.foldlM (fun p step => s.apply (p.advance stepGap) step) p = .ok q) :
    Page.Passes p q := by
  induction steps generalizing p with
  | nil =>
    cases h
    exact .refl
  | cons step steps ih =>
    rw [List.foldlM_cons] at h
    obtain ⟨p', happly, h⟩ := bind_eq_ok h
    exact ((Page.passes_advance stepGap).trans (passes_apply happly)).trans (ih h)

/-- **The scheduler** makes a run without commands of the page of a scenario. -/
theorem passes_play (h : s.play p = .ok q) : Page.Passes p q := by
  rw [play] at h
  obtain ⟨p', hsteps, h⟩ := bind_eq_ok h
  cases h
  exact (passes_steps hsteps).trans (Page.passes_advance s.settleTime)

/-! ## The flags -/

/-- **The flags along every run** of a scenario's page.  An element is inert exactly while it is
deferred and not activated, and it is initialized exactly if every deferred element among itself
and its ancestors is activated.  What is initialized stays so in the rest of the run, and no move
destroys a tree in which anything is initialized. -/
theorem flags_of_run (h : s.page join = .ok p) (hrun : Page.Run s.deferred (s.opened p) q) :
    (∀ x, q.document.isInert x = true ↔ x ∈ s.deferred ∧ q.state? x ≠ some .activated) ∧
    (∀ x, q.document.isInitialized x = true ↔ q.document.Exists x ∧
      ∀ a, q.document.Above a x → a ∈ s.deferred → q.state? a = some .activated) ∧
    (∀ r, Page.Run s.deferred q r →
      ∀ x, q.document.isInitialized x = true → r.document.isInitialized x = true) ∧
    (∀ r, Page.Move s.deferred q r →
      ∀ el, .destroyed el ∈ r.document.journal.drop q.document.journal.length →
      ∀ x, q.document.Above el x → q.document.isInitialized x = false) := by
  obtain ⟨hq, -⟩ := (sound_opened h).run hrun
  refine ⟨hq.marked.inert, fun x => hq.marked.isInitialized_iff, ?_, ?_⟩
  · intro r hr x hx
    obtain ⟨hs, hkeeps⟩ := hq.run hr
    exact hkeeps.isInitialized hq.marked hs.marked hx
  · intro r hm el hel x hx
    obtain ⟨-, -, hdestroys⟩ := hq.move hm
    exact hdestroys.not_initialized hq.marked hel hx

/-- A deferred element inside a deferred element. -/
def nested : Scenario :=
  { elements := [{ key := "outer", load := some "idle" },
      { key := "inner", parent := some "outer", load := some "eager" }] }

/-- The page of `nested`. -/
def nestedPage : Page :=
  { document :=
      ((Document.add {} none [("x-load", "idle")]).2.add (some ⟨0⟩) [("x-load", "eager")]).2
    modules := { join := Url.joinTexts, served := some [] } }

/-- The inner element of `nested` is activated first: it is not inert any more, but the outer one
keeps it from being initialized. -/
theorem flags_of_run_inner_first :
    nested.page Url.joinTexts = .ok nestedPage ∧
      Page.Run nested.deferred (nested.opened nestedPage) ((nested.start nestedPage).runTask 1) ∧
      ((nested.start nestedPage).runTask 1).document.isInert ⟨1⟩ = false ∧
      ((nested.start nestedPage).runTask 1).document.isInitialized ⟨1⟩ = false := by
  have hpage : nested.page Url.joinTexts = .ok nestedPage := rfl
  have hrun : Page.Run nested.deferred (nested.opened nestedPage)
      ((nested.start nestedPage).runTask 1) := run_start.trans (.single (.turn 1))
  obtain ⟨hinert, hinitialized, -⟩ := flags_of_run hpage hrun
  have hinner : ((nested.start nestedPage).runTask 1).state? ⟨1⟩ = some .activated := by
    decide +kernel
  have houter : ((nested.start nestedPage).runTask 1).state? ⟨0⟩ = some .discovered := by
    decide +kernel
  have habove : ((nested.start nestedPage).runTask 1).document.Above ⟨0⟩ ⟨1⟩ := by
    rw [Document.above_congr (((sound_opened hpage).run hrun).2.skeleton.trans
      (opened_of_page hpage).skeleton)]
    exact .single ⟨_, rfl, rfl⟩
  refine ⟨hpage, hrun, ?_, ?_⟩
  · rw [← Bool.not_eq_true, hinert, hinner]
    simp
  · rw [← Bool.not_eq_true, hinitialized]
    rintro ⟨-, hactivated⟩
    have := hactivated ⟨0⟩ habove (by decide)
    rw [houter] at this
    cases this

end Hydration.Scenario
