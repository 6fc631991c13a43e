import Hydration.Proofs.Page.Stage

/-!
# Turns of the tasks

`Current` says how the tasks of a page stand at the moment `now`: each is at the stage of
this moment, or its turn is due and it is behind.  A task that is behind has not had a turn
at all, or it is at the stage of an earlier moment at which the changes `done` had
happened already.

Whatever task has its turn is at the stage of the moment afterwards (`Current.turn`), so
nothing is behind once every task of the queue has had its turn (`Current.settle`).
-/

namespace Hydration.Page

/-- What a page begins with. -/
structure Setting where
  platform : Platform
  requirement : ElementRef → String
  /-- The elements of the tasks. -/
  elements : List ElementRef

variable {p q : Page} {el x : ElementRef} {S : Setting} {done : List Change} {now : Moment}
  {due : Nat → Prop} {i j : Nat} {t u : Task}

/-- The stage of a task on a page. -/
def AtStage (S : Setting) (seen now : Moment) (p : Page) (t : Task) : Prop :=
  Stage S.platform t.element (S.requirement t.element) (p.component? t.element) seen now
    p.surroundings t.status

/-- **A task that is behind.** -/
inductive Behind (S : Setting) (done : List Change) (now : Moment) (p : Page) (t : Task) :
    Prop where
  /-- The time or the last change has not been taken into account. -/
  | lagging {clock : Nat} (hclock : clock ≤ now.clock) (hstage : AtStage S ⟨done, clock⟩ now p t)
  /-- The task has not had a turn on a page that begins. -/
  | fresh (hnow : now = ⟨[], 0⟩) (hplatform : p.surroundings.platform = S.platform)
      (hidle : S.platform.idlePeriods = 0) (hstatus : t.status = .fresh true)
      (hcomponent : p.component? t.element = some { element := t.element })

/-- **The tasks of a page** at the moment `now`, where `done` is what had happened when the tasks
that are behind had their turns and `due` tells which tasks may be behind. -/
structure Current (S : Setting) (done : List Change) (now : Moment) (due : Nat → Prop) (p : Page) :
    Prop where
  changes : done <+: now.changes
  clock : p.surroundings.now = now.clock
  numbered : p.surroundings.bus.Numbered
  strategies : p.strategies = .builtIn
  cloning : p.document.cloning = false
  modules : p.modules.Prompt
  text : ∀ el, p.requirementFor el = S.requirement el
  uncancelled : ∀ (i : Nat) (t : Task), p.tasks[i]? = some t → t.cancelled = false
  elements : p.tasks.map (·.element) = S.elements
  nodup : S.elements.Nodup
  apart : ∀ (i j : Nat) (t u : Task), p.tasks[i]? = some t → p.tasks[j]? = some u → i ≠ j →
    ∀ v ∈ waitsOf t.status, ∀ w ∈ waitsOf u.status, Apart Wait.subscription? v.wait w.wait
  stage : ∀ (i : Nat) (t : Task), p.tasks[i]? = some t →
    AtStage S now now p t ∨ due i ∧ Behind S done now p t

/-- Two tasks have different elements. -/
theorem Current.distinct (h : Current S done now due p) (ht : p.tasks[i]? = some t)
    (hu : p.tasks[j]? = some u) (helement : t.element = u.element) : i = j :=
  task_distinct (h.elements ▸ h.nodup) ht hu helement

/-- Every wait of a task stands for a trigger. -/
theorem Current.exists_trigger (h : Current S done now due p)
    (ht : p.tasks[i]? = some t) {v : NamedWait} (hv : v ∈ waitsOf t.status) :
    ∃ trigger : Trigger, trigger.Stands now p.surroundings v.wait := by
  rcases h.stage i t ht with hstage | ⟨-, hlag | ⟨-, -, -, hstatus, -⟩⟩
  · obtain ⟨c, id, -, hstands⟩ := hstage.exists_trigger hv
    exact ⟨_, hstands⟩
  · next hstage =>
    obtain ⟨c, id, -, hstands⟩ := hstage.exists_trigger hv
    exact ⟨_, hstands⟩
  · rw [hstatus] at hv
    cases hv

theorem getElem?_turned {turn : TaskStatus × Page} (ht : p.tasks[i]? = some t)
    (htasks : turn.2.tasks = p.tasks) (hu : (turn.2.setStatus i turn.1).tasks[j]? = some u) :
    (j = i ∧ u = { t with status := turn.1 }) ∨ (j ≠ i ∧ p.tasks[j]? = some u) := by
  rw [getElem?_setStatus, htasks] at hu
  split at hu
  · next hij =>
    subst hij
    rw [ht] at hu
    exact .inl ⟨rfl, (Option.some.inj hu).symm⟩
  · next hij => exact .inr ⟨Ne.symm hij, hu⟩

/-- A turn leaves the waits of other tasks as they are, and those it begins are apart from them. -/
theorem Current.keeps_other {turn : TaskStatus × Page}
    (h : Current S done now (fun j => j = i ∨ due j) p) (ht : p.tasks[i]? = some t)
    (hturn : Turned S.platform (S.requirement t.element) now (waitsOf t.status) t.element p turn)
    (hj : j ≠ i) (hu : p.tasks[j]? = some u) {w : NamedWait} (hw : w ∈ waitsOf u.status)
    {trigger : Trigger} (hstands : trigger.Stands now p.surroundings w.wait) :
    trigger.Stands now turn.2.surroundings w.wait ∧
      ∀ v ∈ waitsOf turn.1, Apart Wait.subscription? v.wait w.wait :=
  hturn.keeps trigger w.wait hstands fun v hv => h.apart i j t u ht hu (Ne.symm hj) v hv w hw

theorem Current.apart_other {turn : TaskStatus × Page}
    (h : Current S done now (fun j => j = i ∨ due j) p) (ht : p.tasks[i]? = some t)
    (hturn : Turned S.platform (S.requirement t.element) now (waitsOf t.status) t.element p turn)
    (hj : j ≠ i) (hu : p.tasks[j]? = some u) {v w : NamedWait} (hv : v ∈ waitsOf turn.1)
    (hw : w ∈ waitsOf u.status) : Apart Wait.subscription? v.wait w.wait := by
  obtain ⟨trigger, hstands⟩ := h.exists_trigger hu hw
  exact (h.keeps_other ht hturn hj hu hw hstands).2 v hv

theorem Current.component?_other {turn : TaskStatus × Page}
    (h : Current S done now (fun j => j = i ∨ due j) p) (ht : p.tasks[i]? = some t)
    (hturn : Turned S.platform (S.requirement t.element) now (waitsOf t.status) t.element p turn)
    (hj : j ≠ i) (hu : p.tasks[j]? = some u) :
    (turn.2.setStatus i turn.1).component? u.element = p.component? u.element :=
  hturn.leaves.component _ fun helement => hj (h.distinct hu ht helement)

theorem Current.atStage_other {turn : TaskStatus × Page}
    (h : Current S done now (fun j => j = i ∨ due j) p) (ht : p.tasks[i]? = some t)
    (hturn : Turned S.platform (S.requirement t.element) now (waitsOf t.status) t.element p turn)
    (hj : j ≠ i) (hu : p.tasks[j]? = some u) {seen : Moment} (hstage : AtStage S seen now p u) :
    AtStage S seen now (turn.2.setStatus i turn.1) u := by
  rw [AtStage, h.component?_other ht hturn hj hu]
  exact hstage.keeps fun trigger w hw _ hstands => (h.keeps_other ht hturn hj hu hw hstands).1

/-- The turn of a task, when it comes to `turn`. -/
theorem Current.turned {turn : TaskStatus × Page}
    (h : Current S done now (fun j => j = i ∨ due j) p) (ht : p.tasks[i]? = some t)
    (hturn : Turned S.platform (S.requirement t.element) now (waitsOf t.status) t.element p turn) :
    Current S done now due (turn.2.setStatus i turn.1) where
  changes := h.changes
  clock := hturn.clock
  numbered := hturn.numbered
  strategies := hturn.leaves.strategies.trans h.strategies
  cloning := hturn.leaves.cloning.trans h.cloning
  modules := hturn.leaves.modules h.modules
  text el := (requirementFor_congr hturn.leaves.skeleton hturn.leaves.options).trans (h.text el)
  uncancelled j u hu := by
    rcases getElem?_turned ht hturn.leaves.tasks hu with ⟨-, rfl⟩ | ⟨-, hu⟩
    · exact h.uncancelled i t ht
    · exact h.uncancelled j u hu
  elements := elements_setStatus.trans (hturn.leaves.tasks ▸ h.elements)
  nodup := h.nodup
  apart j k u w hu hw hjk := by
    rcases getElem?_turned ht hturn.leaves.tasks hu with ⟨rfl, rfl⟩ | ⟨hj, hu⟩
    · rcases getElem?_turned ht hturn.leaves.tasks hw with ⟨rfl, -⟩ | ⟨hk, hw⟩
      · exact absurd rfl hjk
      · exact fun v hv v' hv' => h.apart_other ht hturn hk hw hv hv'
    · rcases getElem?_turned ht hturn.leaves.tasks hw with ⟨-, rfl⟩ | ⟨-, hw⟩
      · exact fun v hv v' hv' => (h.apart_other ht hturn hj hu hv' hv).symm
      · exact h.apart j k u w hu hw hjk
  stage j u hu := by
    rcases getElem?_turned ht hturn.leaves.tasks hu with ⟨rfl, rfl⟩ | ⟨hj, hu⟩
    · exact .inl hturn.stage
    · rcases h.stage j u hu with hnow | ⟨rfl | hdue, hbehind⟩
      · exact .inl (h.atStage_other ht hturn hj hu hnow)
      · exact absurd rfl hj
      · -- Another task that is behind stays so, and it is due still.
        refine .inr ⟨hdue, ?_⟩
        cases hbehind with
        | lagging hclock hlag => exact .lagging hclock (h.atStage_other ht hturn hj hu hlag)
        | fresh hnow hplatform hidle hstatus hcomponent =>
          exact .fresh hnow (hturn.platform.trans hplatform) hidle hstatus
            ((h.component?_other ht hturn hj hu).trans hcomponent)

/-- What matters of a page besides its surroundings. -/
structure SameTasks (p q : Page) : Prop where
  records : q.records = p.records
  options : q.options = p.options
  strategies : q.strategies = p.strategies
  modules : q.modules = p.modules

/-- **The surroundings may go on** from the moment `now` to `now'` as long as tasks that come to be
behind are due. -/
theorem Current.goOn {done' : List Change} {now' : Moment} {due' : Nat → Prop}
    (h : Current S done now due p) (hq : SameTasks p q)
    (hchanges : done' <+: now'.changes) (hclock : q.surroundings.now = now'.clock)
    (hnumbered : q.surroundings.bus.Numbered)
    (hstage : ∀ (i : Nat) (t : Task), p.tasks[i]? = some t →
      AtStage S now now p t ∨ due i ∧ Behind S done now p t →
      AtStage S now' now' q t ∨
        due' i ∧ Behind S done' now' q t) :
    Current S done' now' due' q where
  changes := hchanges
  clock := hclock
  numbered := hnumbered
  strategies := hq.strategies.trans h.strategies
  cloning := (congrArg Records.cloning hq.records).trans h.cloning
  modules := by
    rw [hq.modules]
    exact h.modules
  text el := by
    rw [requirementFor_congr (Keeps.of_records hq.records).skeleton hq.options]
    exact h.text el
  uncancelled i t ht := h.uncancelled i t (tasks_congr hq.records ▸ ht)
  elements := tasks_congr hq.records ▸ h.elements
  nodup := h.nodup
  apart i j t u ht hu :=
    h.apart i j t u (tasks_congr hq.records ▸ ht) (tasks_congr hq.records ▸ hu)
  stage i t ht := by
    rw [tasks_congr hq.records] at ht
    exact hstage i t ht (h.stage i t ht)

/-- What is due may be counted differently as long as tasks that are behind are due. -/
theorem Current.redue {done' : List Change} {due' : Nat → Prop}
    (h : Current S done now due p) (hchanges : done' <+: now.changes)
    (hdue : ∀ (i : Nat) (t : Task), p.tasks[i]? = some t → due i →
      Behind S done now p t →
      AtStage S now now p t ∨ due' i ∧ Behind S done' now p t) :
    Current S done' now due' p :=
  h.goOn ⟨rfl, rfl, rfl, rfl⟩ hchanges h.clock h.numbered fun i t ht hstage => by
    rcases hstage with hnow | ⟨hi, hbehind⟩
    · exact .inl hnow
    · exact hdue i t ht hi hbehind

theorem Current.of_due {due' : Nat → Prop} (h : Current S done now due p)
    (hdue : ∀ i, due i → due' i) : Current S done now due' p :=
  h.redue h.changes fun i _ _ hi hbehind => .inr ⟨hdue i hi, hbehind⟩

/-- A task that is not behind any more need not be due. -/
theorem Current.not_due (h : Current S done now (fun j => j = i ∨ due j) p)
    (hi : ∀ t, p.tasks[i]? = some t → AtStage S now now p t) :
    Current S done now due p :=
  h.redue h.changes fun j u hu hj hbehind => by
    rcases hj with rfl | hj
    · exact .inl (hi u hu)
    · exact .inr ⟨hj, hbehind⟩

theorem runTask_fresh (ht : p.tasks[i]? = some t) (hstatus : t.status = .fresh true)
    (hcancelled : t.cancelled = false) (hknown : (p.component? t.element).isSome) :
    p.runTask i = (p.beginActivation t.element).2.setStatus i (p.beginActivation t.element).1 := by
  simp only [runTask, ht, hstatus, hcancelled, discover_of_known hknown, if_true,
    Bool.false_eq_true, if_false]

theorem runTask_awaiting {component : ComponentHandle} {name : String} {e : Evaluation NamedWait}
    {download : Download} (ht : p.tasks[i]? = some t)
    (hstatus : t.status = .awaiting component name e download) (hcancelled : t.cancelled = false) :
    p.runTask i = (p.resumeActivation component name e download).2.setStatus i
      (p.resumeActivation component name e download).1 := by
  simp only [runTask, ht, hstatus, hcancelled, Bool.false_eq_true, if_false]

/-- **After its turn** a task is not behind. -/
theorem Current.turn (h : Current S done now (fun j => j = i ∨ due j) p) :
    Current S done now due (p.runTask i) := by
  cases ht : p.tasks[i]? with
  | none =>
    have hrun : p.runTask i = p := by rw [runTask, ht]
    rw [hrun]
    exact h.not_due fun t ht' => by
      rw [ht] at ht'
      cases ht'
  | some t =>
    have hcancelled := h.uncancelled i t ht
    -- A task that has had a turn is at the stage of this moment or of an earlier one.
    have hseen : t.status ≠ .fresh true → ∃ seen : Moment, seen.changes <+: now.changes ∧
        seen.clock ≤ now.clock ∧ AtStage S seen now p t := by
      intro hstatus
      rcases h.stage i t ht with hnow | ⟨-, hbehind⟩
      · exact ⟨now, List.prefix_rfl, Nat.le_refl _, hnow⟩
      · cases hbehind with
        | lagging hclock hlag => exact ⟨⟨done, _⟩, h.changes, hclock, hlag⟩
        | fresh _ _ _ hfresh _ => exact absurd hfresh hstatus
    cases hstatus : t.status with
    | fresh discovers =>
      rcases h.stage i t ht with hnow | ⟨-, hbehind⟩
      · rw [AtStage, hstatus] at hnow
        cases hnow
      · -- Only on a page that begins has a task had no turn.
        cases hbehind with
        | lagging _ hlag =>
          rw [AtStage, hstatus] at hlag
          cases hlag
        | fresh hnow hplatform hidle hfresh hcomponent =>
          rw [runTask_fresh ht hfresh hcancelled (by rw [hcomponent]; rfl)]
          subst hnow
          refine h.turned ht ?_
          rw [hfresh, ← h.text, ← hplatform]
          exact turned_beginActivation hcomponent rfl h.cloning (hplatform ▸ hidle) h.clock
            h.numbered h.strategies h.modules
    | awaiting component name e download =>
      obtain ⟨seen, hchanges, hclock, hstage⟩ := hseen (by simp [hstatus])
      rw [AtStage, hstatus] at hstage
      rw [runTask_awaiting ht hstatus hcancelled]
      refine h.turned ht ?_
      rw [hstatus]
      exact turned_resumeActivation hstage hchanges hclock h.clock h.numbered h.strategies
    | ended result =>
      have hrun : p.runTask i = p := by simp only [runTask, ht, hstatus]
      rw [hrun]
      obtain ⟨seen, hchanges, hclock, hstage⟩ := hseen (by simp [hstatus])
      exact h.not_due fun t' ht' => by
        obtain rfl := Option.some.inj (ht.symm.trans ht')
        refine hstage.catchUp hchanges hclock fun v hv => ?_
        rw [hstatus] at hv
        cases hv
    | dropped =>
      obtain ⟨seen, -, -, hstage⟩ := hseen (by simp [hstatus])
      rw [AtStage, hstatus] at hstage
      cases hstage

/-- Every task of a list has its turn. -/
theorem Current.turns {tasks : List Nat}
    (h : Current S done now (· ∈ tasks) p) :
    Current S done now (fun _ => False) (tasks.foldl runTask p) := by
  induction tasks generalizing p with
  | nil => exact h.of_due fun i hi => by cases hi
  | cons i tasks ih => exact ih (h.of_due fun j hj => List.mem_cons.mp hj).turn

/-- **A page that settles** has no task that is behind. -/
theorem Current.settle (h : Current S done now (· ∈ p.queue) p) :
    Current S now.changes now (fun _ => False) p.settle := by
  have hempty : Current S done now (· ∈ p.queue) { p with queue := [] } :=
    h.goOn ⟨rfl, rfl, rfl, rfl⟩ h.changes h.clock h.numbered fun i t _ hstage =>
      hstage.imp_right fun ⟨hi, hbehind⟩ => by
        cases hbehind with
        | lagging hclock hlag => exact ⟨hi, .lagging hclock hlag⟩
        | fresh hnow hplatform hidle hstatus hcomponent =>
          exact ⟨hi, .fresh hnow hplatform hidle hstatus hcomponent⟩
  exact hempty.turns.redue List.prefix_rfl fun i t _ hi => hi.elim

end Hydration.Page
