import Hydration.Proofs.Page.Attended
import Hydration.Proofs.Page.Orderly

/-!
# What may happen on a page

A page settles, and in between **something else happens** (`Occurs`): a command is carried out, the
clock moves on, or results are reported.  The clock stands still while a task is queued, and it
passes over no timer.  What this does to the tasks is said once (`Effect`), and what ensues in this
way keeps a page in order (`Ensues.orderly`).

This is what the scheduler does: letting time pass is settling and moving the clock on from one
timer to the next (`Orderly.ensues_advance`), and so whatever `Page.step` does is of this kind
(`Orderly.ensues_step`).
-/

namespace Hydration.Page

variable {allowed : Page → Command → Prop} {p q r : Page} {el : ElementRef} {i : Nat} {t u : Task}
  {looks later : List Page} {command : Command}

/-! ## What happens between two looks -/

/-- **Something happens** besides turns. -/
inductive Occurs (allowed : Page → Command → Prop) (p : Page) : Page → Prop where
  | perform (command : Command) (hallowed : allowed p command)
      (hwait : ∀ duration, command ≠ .wait duration) : Occurs allowed p (p.perform command).2
  | clock (time : Nat) (hqueue : p.queue = []) (hnow : p.surroundings.now ≤ time)
      (htimers : ∀ t ∈ p.tasks, ∀ wait ∈ t.waits, ∀ due, wait.due? = some due → time ≤ due) :
      Occurs allowed p (p.setClock time)
  | report : Occurs allowed p p.markReported

/-- **What comes of it** for the tasks and for what they wait for. -/
inductive Effect (allowed : Page → Command → Prop) (p : Page) : Page → Prop where
  | aside {q : Page} (htasks : q.tasks = p.tasks) (hqueue : q.queue = p.queue)
      (hsurroundings : q.surroundings = p.surroundings) (hcomponents : q.components = p.components)
      (hskeleton : p.document.skeleton <+: q.document.skeleton) : Effect allowed p q
  | discover (el : ElementRef) (hallowed : allowed p (.discover el)) :
      Effect allowed p (p.discover el).2
  | handle (el : ElementRef) (hallowed : allowed p (.handle el)) :
      Effect allowed p (p.startTask el true).2
  | activate (el : ElementRef) : Effect allowed p (p.startTask el false).2
  | abort (task : Nat) (hallowed : allowed p (.abort task)) : Effect allowed p (p.abort task).2
  | change (c : Change) : Effect allowed p (p.change c)
  | counted : Effect allowed p
      { p with surroundings := { p.surroundings with bus := p.surroundings.bus.prune } }
  | clock (time : Nat) (hnow : p.surroundings.now ≤ time)
      (htimers : ∀ t ∈ p.tasks, ∀ wait ∈ t.waits, ∀ due, wait.due? = some due → time ≤ due) :
      Effect allowed p (p.setClock time)
  | report : Effect allowed p p.markReported

theorem effect_perform (hallowed : allowed p command)
    (hwait : ∀ duration, command ≠ .wait duration) : Effect allowed p (p.perform command).2 := by
  have hsame : ∀ {d : Document}, d.skeleton = p.document.skeleton →
      p.document.skeleton <+: d.skeleton := fun hd => hd ▸ List.prefix_rfl
  cases command with
  | discover el =>
    rw [perform]
    exact .discover el hallowed
  | handle el =>
    rw [perform]
    exact .handle el hallowed
  | activate el =>
    rw [perform]
    exact .activate el
  | abort task =>
    rw [perform]
    exact .abort task hallowed
  | publish e =>
    show Effect allowed p (p.publish e).2
    rw [publish_eq]
    exact .change (.event e)
  | setVisible el on =>
    show Effect allowed p (p.setVisible el on)
    rw [setVisible_eq]
    exact .change (.visible el on)
  | setMedia query on =>
    show Effect allowed p (p.setMedia query on)
    rw [setMedia_eq]
    exact .change (.media query on)
  | triggerIdle =>
    show Effect allowed p p.triggerIdle
    rw [triggerIdle_eq]
    exact .change .idle
  | countSubscribers => exact .counted
  | wait duration => exact absurd rfl (hwait duration)
  | mergeOptions update =>
    rw [perform]
    split
    · exact .aside rfl rfl rfl rfl List.prefix_rfl
    · exact .aside rfl rfl rfl rfl List.prefix_rfl
  | registerUrl name url =>
    rw [perform]
    split
    · exact .aside rfl rfl rfl rfl List.prefix_rfl
    · exact .aside rfl rfl rfl rfl List.prefix_rfl
  | addElement parent attributes =>
    refine .aside rfl rfl rfl rfl ⟨[(parent, attributes)], ?_⟩
    show p.document.skeleton ++ _ = (p.document.elements ++ _).map _
    rw [List.map_append]
    rfl
  | initTree el => exact .aside rfl rfl rfl rfl (hsame Document.skeleton_initTree)
  | destroyTree el => exact .aside rfl rfl rfl rfl (hsame Document.skeleton_destroyTree)
  | markInert el => exact .aside rfl rfl rfl rfl (hsame Document.skeleton_markInert)
  | clearInert el => exact .aside rfl rfl rfl rfl (hsame Document.skeleton_clearInert)
  | _ => exact .aside rfl rfl rfl rfl List.prefix_rfl

theorem Occurs.effect (h : Occurs allowed p q) : Effect allowed p q := by
  cases h with
  | perform command hallowed hwait => exact effect_perform hallowed hwait
  | clock time _ hnow htimers => exact .clock time hnow htimers
  | report => exact .report

/-! ## What is left as it is -/

theorem recalls_of_records (h : q.records = p.records) : Recalls [] p q where
  state _ := state?_congr h
  old _ t ht := ⟨t, tasks_congr h ▸ ht, rfl, rfl⟩
  new _ u hu := .inl ⟨u, tasks_congr h ▸ hu, rfl, rfl⟩

theorem recalls_of_aside (htasks : q.tasks = p.tasks) (hcomponents : q.components = p.components) :
    Recalls [] p q where
  state x := by
    rw [state?, component?, hcomponents]
    rfl
  old _ t ht := ⟨t, htasks ▸ ht, rfl, rfl⟩
  new _ u hu := .inl ⟨u, htasks ▸ hu, rfl, rfl⟩

theorem getElem?_markReported (ht : p.tasks[i]? = some t) : ∃ reported,
    p.markReported.tasks[i]? = some { t with reported } := by
  rw [markReported, List.getElem?_map, ht, Option.map_some]
  split
  · exact ⟨true, rfl⟩
  · exact ⟨t.reported, rfl⟩

theorem recalls_markReported (p : Page) : Recalls [] p p.markReported where
  state _ := rfl
  old i t ht := by
    obtain ⟨reported, hu⟩ := getElem?_markReported ht
    exact ⟨_, hu, rfl, rfl⟩
  new i u hu := by
    rw [markReported, List.getElem?_map] at hu
    obtain ⟨t, ht, rfl⟩ := Option.map_eq_some_iff.mp hu
    refine .inl ⟨t, ht, ?_⟩
    split
    · exact ⟨rfl, rfl⟩
    · exact ⟨rfl, rfl⟩

/-- What happens between two looks discovers an element, or it starts and gives up tasks at most. -/
theorem Occurs.recalls (h : Occurs allowed p q) : (∃ el, q = (p.discover el).2) ∨
    ∃ started, Recalls started p q ∧ ∀ t ∈ started, ∃ discovers, t.status = .fresh discovers := by
  have hnone : ∀ {r : Page}, Recalls [] p r → ∃ started, Recalls started p r ∧
      ∀ t ∈ started, ∃ discovers, t.status = .fresh discovers :=
    fun hr => ⟨[], hr, List.forall_mem_nil _⟩
  have hstarted : ∀ el discovers, ∃ started, Recalls started p (p.startTask el discovers).2 ∧
      ∀ t ∈ started, ∃ discovers, t.status = .fresh discovers := fun el discovers =>
    ⟨_, recalls_startTask p el discovers, fun t ht => ⟨discovers, by rw [List.mem_singleton.mp ht]⟩⟩
  cases h.effect with
  | aside htasks _ _ hcomponents _ => exact .inr (hnone (recalls_of_aside htasks hcomponents))
  | discover el => exact .inl ⟨el, rfl⟩
  | handle el => exact .inr (hstarted el true)
  | activate el => exact .inr (hstarted el false)
  | abort task => exact .inr (hnone (recalls_abort p task))
  | change c => exact .inr (hnone (recalls_of_records (change_cases (p := p) c).1.records))
  | counted => exact .inr (hnone (recalls_of_records rfl))
  | clock time => exact .inr (hnone (recalls_of_records (records_setClock time)))
  | report => exact .inr (hnone (recalls_markReported p))

/-- **No task is touched**, except that its result is reported and that it is given up if this is
allowed. -/
theorem Occurs.task (h : Occurs allowed p q) (ht : p.tasks[i]? = some t) :
    ∃ u, q.tasks[i]? = some u ∧ u.element = t.element ∧ u.status = t.status ∧
      (¬allowed p (.abort i) → u.cancelled = t.cancelled) := by
  have hsame : ∀ {r : Page}, r.tasks = p.tasks → ∃ u, r.tasks[i]? = some u ∧
      u.element = t.element ∧ u.status = t.status ∧
        (¬allowed p (.abort i) → u.cancelled = t.cancelled) :=
    fun hr => ⟨t, hr ▸ ht, rfl, rfl, fun _ => rfl⟩
  have hstarted : ∀ el discovers, (p.startTask el discovers).2.tasks[i]? = some t := by
    intro el discovers
    rw [tasks_startTask, List.getElem?_append_left (List.getElem?_eq_some_iff.mp ht).1]
    exact ht
  cases h.effect with
  | aside htasks _ _ _ _ => exact hsame htasks
  | discover el => exact hsame tasks_discover
  | handle el => exact ⟨t, hstarted el true, rfl, rfl, fun _ => rfl⟩
  | activate el => exact ⟨t, hstarted el false, rfl, rfl, fun _ => rfl⟩
  | abort task hallowed =>
    by_cases htask : task = i
    · subst htask
      obtain ⟨u, hu, helement, hstatus⟩ := (recalls_abort p task).old task t ht
      exact ⟨u, hu, helement, hstatus, fun hnot => absurd hallowed hnot⟩
    · refine ⟨t, ?_, rfl, rfl, fun _ => rfl⟩
      rw [Page.abort]
      split
      · exact ht
      · split
        · exact ht
        · show (Page.enqueue _ task).tasks[i]? = _
          rw [tasks_congr (records_enqueue task), List.getElem?_modify, ht]
          exact congrArg some (if_neg htask)
  | change c => exact hsame (tasks_congr (change_cases (p := p) c).1.records)
  | counted => exact hsame rfl
  | clock time => exact hsame (tasks_congr (records_setClock time))
  | report =>
    obtain ⟨reported, hu⟩ := getElem?_markReported ht
    exact ⟨_, hu, rfl, rfl, fun _ => rfl⟩

/-- The clock does not go back. -/
theorem Occurs.now_le (h : Occurs allowed p q) : p.surroundings.now ≤ q.surroundings.now := by
  have hstarted : ∀ el discovers, (p.startTask el discovers).2.surroundings = p.surroundings :=
    fun el discovers => surroundings_enqueue _
  cases h.effect with
  | aside _ _ hsurroundings _ _ => rw [hsurroundings]
  | discover el =>
    rw [discover]
    split
    · exact Nat.le_refl _
    · exact Nat.le_refl _
  | handle el => rw [hstarted]
  | activate el => rw [hstarted]
  | abort task =>
    obtain ⟨tasks, queue, habort⟩ := abort_eq p task
    rw [habort]
  | change c =>
    rw [(change_cases (p := p) c).2.1]
    cases c <;> exact Nat.le_refl _
  | counted => exact Nat.le_refl _
  | clock time hnow _ =>
    rw [(setClock_cases (p := p) time).2.1]
    exact hnow
  | report => exact Nat.le_refl _

theorem Occurs.orderly (h : Occurs allowed p q) (hp : Orderly (· ∈ p.queue) p) :
    Orderly (· ∈ q.queue) q := by
  cases h.effect with
  | aside htasks hqueue hsurroundings _ _ => exact hp.congr htasks hqueue hsurroundings
  | discover el =>
    obtain ⟨hsurroundings, hqueue⟩ := surroundings_prepared p ⟨el, .dropped, false, false⟩ true
    exact hp.congr tasks_discover hqueue hsurroundings
  | handle el => exact hp.startTask el true
  | activate el => exact hp.startTask el false
  | abort task => exact hp.abort task
  | change c => exact hp.change c
  | counted =>
    have hfind : ∀ n, p.surroundings.bus.prune.find? n = p.surroundings.bus.find? n :=
      fun n => Bus.find?_prune
    refine hp.keep hp.numbered.prune hp.queue (fun _ => id) (fun i u hu => .inl ⟨u, hu, rfl⟩)
      (fun wait hserved => ?_) hp.timely fun i t _ hidle => .inl ?_
    · cases wait with
      | event number awaited =>
        rw [Wait.isServed, Bus.serves] at hserved ⊢
        exact (congrArg Option.isSome (hfind number)).trans hserved
      | _ => rfl
    · exact hidle.alike ⟨rfl, rfl, fun n _ => hfind n⟩
  | clock time _ htimers => exact hp.setClock htimers
  | report =>
    refine hp.recalls (recalls_markReported p) (List.forall_mem_nil _) (fun i u hu hnone => ?_)
      hp.queue (fun _ => id) rfl
    rcases (recalls_markReported p).new i u hu with ⟨t, ht, -⟩ | hmem
    · rw [hnone] at ht
      cases ht
    · cases hmem

/-! ## Courses of what happens -/

/-- **What may happen on a page**: `looks` are the pages that were about to settle. -/
inductive Ensues (allowed : Page → Command → Prop) (p : Page) : List Page → Page → Prop where
  | refl : Ensues allowed p [] p
  | occurs {looks : List Page} {q r : Page} (h : Ensues allowed p looks q)
      (hr : Occurs allowed q r) : Ensues allowed p looks r
  | settle {looks : List Page} {q : Page} (h : Ensues allowed p looks q) :
      Ensues allowed p (looks ++ [q]) q.settle

theorem Ensues.trans (h : Ensues allowed p looks q) (h' : Ensues allowed q later r) :
    Ensues allowed p (looks ++ later) r := by
  induction h' with
  | refl => rwa [List.append_nil]
  | occurs _ hr ih => exact ih.occurs hr
  | settle _ ih =>
    rw [← List.append_assoc]
    exact ih.settle

/-- **A page stays in order.** -/
theorem Ensues.orderly (h : Ensues allowed p looks q) (hp : Orderly (· ∈ p.queue) p) :
    Orderly (· ∈ q.queue) q := by
  induction h with
  | refl => exact hp
  | occurs _ hr ih => exact hr.orderly ih
  | settle _ ih =>
    obtain ⟨hsettled, -⟩ := ih.settle
    exact hsettled.redue fun _ _ _ hi => hi.elim

/-- What has been worked on is kept. -/
theorem exists_kept_turns (tasks : List Nat) (h : ∃ log handed, Kept log handed p) :
    ∃ log handed, Kept log handed (tasks.foldl runTask p) := by
  obtain ⟨log, handed, hkept⟩ := h
  have hturns := (hkept.foldl (tasks.map .turn)).1
  rw [List.foldl_map] at hturns
  exact ⟨_, _, hturns⟩

theorem Ensues.exists_kept (h : Ensues allowed p looks q) (hp : ∃ log handed, Kept log handed p) :
    ∃ log handed, Kept log handed q := by
  induction h with
  | refl => exact hp
  | occurs _ hr ih =>
    obtain ⟨log, handed, hkept⟩ := ih
    rcases hr.recalls with ⟨el, rfl⟩ | ⟨started, hrecalls, hstarted⟩
    · exact ⟨log, handed, hkept.discover el⟩
    · exact ⟨log, handed, hkept.recalls hrecalls hstarted⟩
  | @settle _ q _ ih =>
    obtain ⟨log, handed, hkept⟩ := ih
    have hunqueued : Kept log handed { q with queue := [] } := hkept.congr rfl fun _ => rfl
    exact exists_kept_turns q.queue ⟨log, handed, hunqueued⟩

/-! ## Elements that are watched -/

/-- **The commands respect an element**: none takes its mark away, and it is in the document when it
is to be discovered. -/
structure Respects (allowed : Page → Command → Prop) (el : ElementRef) : Prop where
  kept : ∀ p, ¬allowed p (.clearInert el)
  present : ∀ p, allowed p (.discover el) ∨ allowed p (.handle el) → p.document.Exists el

/-- **An element is watched**: it is inert while it is known and not activated, and a task that is
to discover it will find it in the document. -/
structure Watched (el : ElementRef) (p : Page) : Prop where
  guarded : Guarded (fun d => d.isInert el = true) el p
  present : ∀ t ∈ p.tasks, t.element = el → t.status = .fresh true → p.document.Exists el

/-- No element is taken out of the document. -/
theorem Occurs.skeleton (h : Occurs allowed p q) :
    p.document.skeleton <+: q.document.skeleton := by
  have hsame : ∀ {r : Page}, r.document.skeleton = p.document.skeleton →
      p.document.skeleton <+: r.document.skeleton := fun hr => hr ▸ List.prefix_rfl
  have hrecords : ∀ {r : Page}, r.records = p.records →
      p.document.skeleton <+: r.document.skeleton := fun hr => hsame (Keeps.of_records hr).skeleton
  cases h.effect with
  | aside _ _ _ _ hskeleton => exact hskeleton
  | discover el => exact hsame skeleton_discover
  | handle el => exact hsame (congrArg Document.skeleton (document_enqueue _))
  | activate el => exact hsame (congrArg Document.skeleton (document_enqueue _))
  | abort task => exact hsame (congrArg Document.skeleton document_abort)
  | change c => exact hrecords (change_cases (p := p) c).1.records
  | counted => exact List.prefix_rfl
  | clock time => exact hrecords (records_setClock time)
  | report => exact List.prefix_rfl

theorem exists_of_skeleton (h : p.document.skeleton <+: q.document.skeleton)
    (hel : p.document.Exists el) : q.document.Exists el := by
  have hlength := h.length_le
  rw [Document.skeleton, Document.skeleton, List.length_map, List.length_map] at hlength
  rw [Document.exists_iff] at hel ⊢
  exact Nat.lt_of_lt_of_le hel hlength

/-- What has been discovered is the element. -/
theorem eq_of_discover {x : ElementRef} (hnone : p.component? el = none)
    (hsome : ((p.discover x).2.component? el).isSome) : x = el := by
  rcases discover_cases p x with hsame | ⟨-, hstate⟩
  · rw [hsame, hnone] at hsome
    cases hsome
  · by_contra hx
    have hel := hstate el
    rw [if_neg (Ne.symm hx), state?_eq_none.mpr hnone, state?_eq_none] at hel
    rw [hel] at hsome
    cases hsome

/-- **A turn** makes the record of an element only if its task is to discover it. -/
theorem exists_task_of_runTask (hnone : p.component? el = none)
    (hsome : ((p.runTask i).component? el).isSome) :
    ∃ t, p.tasks[i]? = some t ∧ t.element = el ∧ t.status = .fresh true := by
  have hturn := turn_cases p i
  generalize p.worksOn? i = worked at hturn
  generalize p.runTask i = q at hturn hsome
  have hprepared : ∀ t discovers, p.tasks[i]? = some t → t.status = .fresh discovers →
      ((p.prepared t discovers).component? el).isSome →
      ∃ t, p.tasks[i]? = some t ∧ t.element = el ∧ t.status = .fresh true := by
    intro t discovers ht hfresh hknown
    rw [prepared] at hknown
    split at hknown
    · next hdiscovers =>
      exact ⟨t, ht, eq_of_discover hnone hknown, hdiscovers ▸ hfresh⟩
    · rw [hnone] at hknown
      cases hknown
  cases hturn with
  | idle =>
    rw [hnone] at hsome
    cases hsome
  | dropped requirement =>
    have hknown : (p.component? el).isSome = true := hsome
    rw [hnone] at hknown
    cases hknown
  | @skipped t discovers ht hfresh => exact hprepared t discovers ht hfresh hsome
  | @begins t discovers _ _ _ _ _ ht hfresh _ hf _ hprogress =>
    refine hprepared t discovers ht hfresh ?_
    rw [← isSome_modifyComponent hf.element]
    exact hprogress.isSome.symm.trans hsome
  | @resumes t _ _ _ _ turn _ _ hprogress =>
    have hknown : (turn.2.component? el).isSome = true := hsome
    rw [hprogress.isSome, hnone] at hknown
    cases hknown

theorem mem_of_setStatus {status : TaskStatus} (hu : u ∈ (p.setStatus i status).tasks)
    (hother : u.status ≠ status) : u ∈ p.tasks := by
  obtain ⟨j, hj⟩ := List.getElem?_of_mem hu
  rw [getElem?_setStatus] at hj
  split at hj
  · obtain ⟨t, -, rfl⟩ := Option.map_eq_some_iff.mp hj
    exact absurd rfl hother
  · exact List.mem_of_getElem? hj

/-- After a turn only tasks are fresh that have been so. -/
theorem mem_of_fresh {discovers : Bool} (hu : u ∈ (p.runTask i).tasks)
    (hfresh : u.status = .fresh discovers) : u ∈ p.tasks := by
  have hturn := turn_cases p i
  generalize p.worksOn? i = worked at hturn
  generalize p.runTask i = q at hturn hu
  cases hturn with
  | idle => exact hu
  | dropped requirement => exact mem_of_setStatus hu (by simp [hfresh])
  | @skipped t discovers =>
    exact tasks_prepared (p := p) discovers ▸ mem_of_setStatus hu (by simp [hfresh])
  | @begins t discovers _ _ _ _ turn _ _ _ _ _ hprogress =>
    have hmem := mem_of_setStatus hu (hfresh ▸ (hprogress.status.2.2 _).symm)
    rw [hprogress.tasks] at hmem
    exact tasks_prepared (p := p) discovers ▸ hmem
  | resumes _ _ hprogress =>
    exact hprogress.tasks ▸ mem_of_setStatus hu (hfresh ▸ (hprogress.status.2.2 _).symm)

theorem Watched.runTask (h : Watched el p) (i : Nat) : Watched el (p.runTask i) where
  guarded := by
    refine h.guarded.turn lasting_isInert fun hnone hsome => ?_
    obtain ⟨t, ht, hel, hfresh⟩ := exists_task_of_runTask hnone hsome
    exact Document.isInert_markInert.mpr
      (.inr ⟨rfl, h.present t (List.mem_of_getElem? ht) hel hfresh⟩)
  present u hu hel hfresh := by
    have hskeleton : (p.runTask i).document.skeleton = p.document.skeleton :=
      skeleton_act (a := .turn i) nofun
    exact exists_of_skeleton (by rw [hskeleton]) (h.present u (mem_of_fresh hu hfresh) hel hfresh)

theorem Watched.turns (tasks : List Nat) (h : Watched el p) :
    Watched el (tasks.foldl Page.runTask p) := by
  induction tasks generalizing p with
  | nil => exact h
  | cons i tasks ih => exact ih (h.runTask i)

/-- No command but the one for it takes the mark of an element away. -/
theorem Occurs.isInert (h : Occurs allowed p q) (hclear : ¬allowed p (.clearInert el))
    (hinert : p.document.isInert el = true) : q.document.isInert el = true := by
  cases h with
  | perform command hallowed hwait =>
    by_cases hother : ∃ x, command = .clearInert x
    · obtain ⟨x, rfl⟩ := hother
      refine Document.isInert_clearInert.mpr ⟨hinert, ?_⟩
      rintro rfl
      exact hclear hallowed
    · exact (withholds_perform p command hwait fun x hx => hother ⟨x, hx⟩).inert el hinert
  | clock time =>
    exact lasting_isInert.elements (congrArg Records.elements (records_setClock time)) hinert
  | report => exact hinert

/-- Calls are made and given up while the element keeps its mark. -/
theorem Watched.recalls {started : List Task} (h : Watched el p) (hq : Recalls started p q)
    (hskeleton : p.document.skeleton <+: q.document.skeleton)
    (hinert : p.document.isInert el = true → q.document.isInert el = true)
    (hstarted : ∀ t ∈ started, t.element = el → t.status = .fresh true → p.document.Exists el) :
    Watched el q where
  guarded := h.guarded.keep hinert fun s hs hwaits => ⟨s, hq.state el ▸ hs, hwaits⟩
  present u hu hel hfresh := by
    refine exists_of_skeleton hskeleton ?_
    obtain ⟨j, hj⟩ := List.getElem?_of_mem hu
    rcases hq.new j u hj with ⟨t, ht, helement, hstatus⟩ | hmem
    · exact h.present t (List.mem_of_getElem? ht) (helement ▸ hel) (hstatus ▸ hfresh)
    · exact hstarted u hmem hel hfresh

/-- **What happens between two looks** leaves an element watched. -/
theorem Watched.occurs (h : Watched el p) (hrespects : Respects allowed el)
    (hq : Occurs allowed p q) : Watched el q := by
  have hskeleton := hq.skeleton
  have hinert : p.document.isInert el = true → q.document.isInert el = true :=
    hq.isInert (hrespects.kept p)
  cases hq.effect with
  | aside htasks _ _ hcomponents _ =>
    exact h.recalls (recalls_of_aside htasks hcomponents) hskeleton hinert (List.forall_mem_nil _)
  | discover x hallowed =>
    refine ⟨h.guarded.discover lasting_isInert fun hnone hsome => ?_, fun t ht hel hfresh => ?_⟩
    · obtain rfl := eq_of_discover hnone hsome
      exact Document.isInert_markInert.mpr (.inr ⟨rfl, hrespects.present p (.inl hallowed)⟩)
    · exact exists_of_skeleton hskeleton (h.present t (tasks_discover ▸ ht) hel hfresh)
  | handle x hallowed =>
    refine h.recalls (recalls_startTask p x true) hskeleton hinert fun t ht hel _ => ?_
    obtain rfl : x = el := by rw [← hel, List.mem_singleton.mp ht]
    exact hrespects.present p (.inr hallowed)
  | activate x =>
    refine h.recalls (recalls_startTask p x false) hskeleton hinert fun t ht _ hfresh => ?_
    rw [List.mem_singleton.mp ht] at hfresh
    cases hfresh
  | abort task =>
    exact h.recalls (recalls_abort p task) hskeleton hinert (List.forall_mem_nil _)
  | change c =>
    exact h.recalls (recalls_of_records (change_cases (p := p) c).1.records) hskeleton hinert
      (List.forall_mem_nil _)
  | counted => exact h.recalls (recalls_of_records rfl) hskeleton hinert (List.forall_mem_nil _)
  | clock time =>
    exact h.recalls (recalls_of_records (records_setClock time)) hskeleton hinert
      (List.forall_mem_nil _)
  | report => exact h.recalls (recalls_markReported p) hskeleton hinert (List.forall_mem_nil _)

theorem Ensues.watched (h : Ensues allowed p looks q) (hrespects : Respects allowed el)
    (hp : Watched el p) : Watched el q := by
  induction h with
  | refl => exact hp
  | occurs _ hr ih => exact ih.occurs hrespects hr
  | @settle _ q _ ih =>
    have hunqueued : Watched el { q with queue := [] } := ⟨ih.guarded, ih.present⟩
    exact hunqueued.turns q.queue

/-- **An element that a task waits for** waits as well, and it is inert if it is watched. -/
theorem Watched.inert (h : Watched el p) (hwaits : p.state? el = some .awaitingRequirements) :
    p.document.isInert el = true :=
  h.guarded _ hwaits nofun

/-! ## What the scheduler does -/

/-- **The clock moves on to a timer**, passing over none, and the page settles: what is waited for
then has been waited for before, and what has been due then has ended. -/
theorem Orderly.settleAt {time : Nat} (h : Orderly (fun _ => False) p)
    (htimers : ∀ t ∈ p.tasks, ∀ wait ∈ t.waits, ∀ due, wait.due? = some due → time ≤ due) :
    Orderly (fun _ => False) (p.settleAt time) ∧ (p.settleAt time).queue = [] ∧
      (p.settleAt time).surroundings.now = time ∧
      ∀ u ∈ (p.settleAt time).tasks, ∀ wait ∈ u.waits, ∀ due, wait.due? = some due →
        time < due ∧ ∃ t ∈ p.tasks, wait ∈ t.waits := by
  have hp : Orderly (· ∈ p.queue) p := h.redue fun _ _ _ hi => hi.elim
  have hmoved : Orderly (· ∈ (p.setClock time).queue) (p.setClock time) := hp.setClock htimers
  obtain ⟨hsettled, hempty⟩ := hmoved.settle
  obtain ⟨hsame, hsurroundings, -⟩ := setClock_cases (p := p) time
  have hclock : (p.settleAt time).surroundings.now = time := by
    rw [Page.settleAt, hmoved.now_settle, hsurroundings]
  refine ⟨hsettled, hempty, hclock, fun u hu wait hwait due hdue => ⟨?_, ?_⟩⟩
  · obtain ⟨i, hi⟩ := List.getElem?_of_mem hu
    have hlt : (p.settleAt time).surroundings.now < due :=
      Idle.lt_due ((hsettled.idle i u hi).resolve_right id) hwait hdue
    rwa [hclock] at hlt
  · obtain ⟨i, hi⟩ := List.getElem?_of_mem hu
    have hbefore : (p.setClock time).tasks = p.tasks := tasks_congr hsame.records
    obtain ⟨t, ht, hwaits⟩ := hmoved.waits_settle
      (fun k w hw => (idle_iff.mp ((h.idle k w (hbefore ▸ hw)).resolve_right id)).1) hi
    rw [hbefore] at ht
    exact ⟨t, List.mem_of_getElem? ht, hwaits wait hwait⟩

/-- The clock moves from one timer to the next, and the page settles at each. -/
theorem Orderly.ensues_settleAll {times : List Nat} {limit : Nat}
    (h : Orderly (fun _ => False) p) (hqueue : p.queue = []) (hsorted : times.Pairwise (· ≤ ·))
    (hlater : ∀ time ∈ times, p.surroundings.now ≤ time ∧ time ≤ limit)
    (hlimit : p.surroundings.now ≤ limit)
    (htimers : ∀ t ∈ p.tasks, ∀ wait ∈ t.waits, ∀ due, wait.due? = some due →
      due ∈ times ∨ limit ≤ due) :
    ∃ looks, Ensues allowed p looks ((times.foldl Page.settleAt p).setClock limit) := by
  induction times generalizing p with
  | nil =>
    exact ⟨[], .occurs .refl (.clock limit hqueue hlimit fun t ht wait hwait due hdue =>
      (htimers t ht wait hwait due hdue).elim nofun id)⟩
  | cons time times ih =>
    obtain ⟨hfirst, hrest⟩ := List.pairwise_cons.mp hsorted
    obtain ⟨hnow, hlast⟩ := hlater time List.mem_cons_self
    -- No timer is passed over: every one is listed or due later.
    have hguard : ∀ t ∈ p.tasks, ∀ wait ∈ t.waits, ∀ due, wait.due? = some due → time ≤ due := by
      intro t ht wait hwait due hdue
      rcases htimers t ht wait hwait due hdue with hmem | hle
      · rcases List.mem_cons.mp hmem with rfl | hmem
        · exact Nat.le_refl _
        · exact hfirst due hmem
      · exact Nat.le_trans hlast hle
    obtain ⟨hsettled, hempty, hclock, hwaits⟩ := h.settleAt hguard
    have hleft : ∀ u ∈ (p.settleAt time).tasks, ∀ wait ∈ u.waits, ∀ due,
        wait.due? = some due → due ∈ times ∨ limit ≤ due := by
      intro u hu wait hwait due hdue
      obtain ⟨hlt, t, ht, hbefore⟩ := hwaits u hu wait hwait due hdue
      refine (htimers t ht wait hbefore due hdue).imp_left fun hmem => ?_
      exact (List.mem_cons.mp hmem).resolve_left (Nat.ne_of_gt hlt)
    obtain ⟨looks, hlooks⟩ := ih (p := p.settleAt time) hsettled hempty hrest
      (fun x hx => ⟨Nat.le_trans (Nat.le_of_eq hclock) (hfirst x hx),
        (hlater x (List.mem_cons_of_mem _ hx)).2⟩)
      (Nat.le_trans (Nat.le_of_eq hclock) hlast) hleft
    exact ⟨_, (Ensues.occurs .refl (.clock time hqueue hnow hguard)).settle.trans hlooks⟩

/-- **Letting time pass** is settling and moving the clock on. -/
theorem Orderly.ensues_advance (h : Orderly (· ∈ p.queue) p) (duration : Nat) :
    ∃ looks, Ensues allowed p looks (p.advance duration) := by
  rw [advance]
  split
  · exact ⟨[], .refl⟩
  · obtain ⟨hsettled, hempty⟩ := h.settle
    have hlimit : p.settle.surroundings.now ≤ p.surroundings.now + duration := by
      rw [h.now_settle]
      exact Nat.le_add_right _ _
    have hsorted : (p.settle.dueBefore (p.surroundings.now + duration)).Pairwise (· ≤ ·) :=
      (List.pairwise_mergeSort (fun _ _ _ => by simpa using Nat.le_trans)
        (fun a b => by simpa using Nat.le_total a b) _).imp of_decide_eq_true
    have hlater : ∀ time ∈ p.settle.dueBefore (p.surroundings.now + duration),
        p.settle.surroundings.now ≤ time ∧ time ≤ p.surroundings.now + duration := by
      intro time htime
      obtain ⟨hlt, t, ht, wait, hwait, hdue⟩ := mem_dueBefore.mp htime
      obtain ⟨i, hi⟩ := List.getElem?_of_mem ht
      have hidle := (hsettled.idle i t hi).resolve_right id
      exact ⟨Nat.le_of_lt (Idle.lt_due hidle hwait hdue), Nat.le_of_lt hlt⟩
    obtain ⟨looks, hlooks⟩ := hsettled.ensues_settleAll hempty hsorted hlater hlimit
      fun t ht wait hwait due hdue => by
        by_cases hlt : due < p.surroundings.now + duration
        · exact .inl (mem_dueBefore.mpr ⟨hlt, t, ht, wait, hwait, hdue⟩)
        · exact .inr (Nat.not_lt.mp hlt)
    exact ⟨_, (Ensues.settle .refl).trans hlooks⟩

/-- **Whatever a step does** may happen on a page. -/
theorem Orderly.ensues_step (h : Orderly (· ∈ p.queue) p) (settles : Bool)
    (hallowed : (∀ duration, command ≠ .wait duration) → allowed p command) :
    ∃ looks, Ensues allowed p looks (p.step command settles).2.2 := by
  obtain ⟨looks, hperformed⟩ : ∃ looks, Ensues allowed p looks (p.perform command).2 := by
    by_cases hwait : ∃ duration, command = .wait duration
    · obtain ⟨duration, rfl⟩ := hwait
      exact h.ensues_advance duration
    · have hnot : ∀ duration, command ≠ .wait duration := fun d hd => hwait ⟨d, hd⟩
      exact ⟨[], .occurs .refl (.perform command (hallowed hnot) hnot)⟩
  rw [step]
  dsimp only
  split
  · exact ⟨_, hperformed.settle.occurs .report⟩
  · exact ⟨_, hperformed.occurs .report⟩

end Hydration.Page
