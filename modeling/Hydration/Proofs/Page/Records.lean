import Hydration.Page.Schedule

/-!
# The records of a page

What says how far a page has come are its **records**: the elements with their
flags, the journal, the components and the tasks.  Most of what happens to a page
leaves them as they are: made-up names and ids, registered modules, downloads, the
clock, the platform and the bus.  One lemma for each of these operations says so;
`component?` has one lemma for each operation that does change a component.
-/

namespace Hydration.Page

variable {p q : Page} {el x : ElementRef}

/-! ## Components -/

theorem find?_insertComponent {c : Component} {cs : List Component}
    (h : cs.find? (·.element == c.element) = none) :
    (insertComponent c cs).find? (·.element == x) =
      if x = c.element then some c else cs.find? (·.element == x) := by
  induction cs with
  | nil =>
    rw [insertComponent, List.find?_singleton]
    by_cases hx : x = c.element
    · simp [hx]
    · simp [hx, Ne.symm hx]
  | cons d cs ih =>
    rw [List.find?_cons] at h
    have hd : (d.element == c.element) = false := by
      cases hdc : d.element == c.element with
      | false => rfl
      | true => simp [hdc] at h
    rw [hd] at h
    rw [insertComponent]
    split
    · rw [List.find?_cons]
      by_cases hx : x = c.element
      · simp [hx]
      · have hne : (c.element == x) = false := by simpa using Ne.symm hx
        rw [hne, if_neg hx]
    · rw [List.find?_cons, List.find?_cons, ih h]
      by_cases hx : x = c.element
      · subst hx
        simp [hd]
      · simp [hx]

theorem component?_element {c : Component} (h : p.component? x = some c) : c.element = x := by
  simpa using List.find?_some h

/-- A change that keeps the element of a record affects the record of one element only. -/
theorem component?_modifyComponent {f : Component → Component}
    (hf : ∀ c, (f c).element = c.element) :
    (p.modifyComponent el f).component? x =
      if x = el then (p.component? x).map f else p.component? x := by
  have hkeep : ∀ c : Component, (if c.element = el then f c else c).element = c.element := by
    intro c
    split
    · exact hf c
    · rfl
  rw [component?, modifyComponent, List.find?_map]
  simp only [Function.comp_def, hkeep]
  show Option.map _ (p.component? x) = _
  cases hc : p.component? x with
  | none => simp
  | some c =>
    rw [Option.map_some, component?_element hc]
    split
    · rfl
    · rfl

theorem state?_modifyComponent {f : Component → Component} {state : ActivationState}
    (hf : ∀ c, (f c).element = c.element) (hstate : ∀ c, (f c).state = state) :
    (p.modifyComponent el f).state? x =
      if x = el then (p.component? x).map fun _ => state else p.state? x := by
  rw [state?, component?_modifyComponent hf]
  split
  · rw [Option.map_map]
    exact congrArg (Option.map · _) (funext hstate)
  · rfl

theorem modifyComponent_modifyComponent {f g : Component → Component}
    (hf : ∀ c, (f c).element = c.element) :
    (p.modifyComponent el f).modifyComponent el g = p.modifyComponent el (g ∘ f) := by
  have hmap : ∀ c : Component, (if (if c.element = el then f c else c).element = el then
      g (if c.element = el then f c else c) else if c.element = el then f c else c) =
      if c.element = el then (g ∘ f) c else c := by
    intro c
    by_cases hc : c.element = el
    · rw [if_pos hc, if_pos ((hf c).trans hc), if_pos hc]
      rfl
    · rw [if_neg hc, if_neg hc, if_neg hc]
  simp only [modifyComponent, List.map_map, Function.comp_def] at hmap ⊢
  simp only [hmap]

theorem component?_discover (el x : ElementRef) (hcloning : p.document.cloning = false) :
    (p.discover el).2.component? x =
      if x = el ∧ p.component? el = none then some { element := el } else p.component? x := by
  rw [discover]
  cases hel : p.component? el with
  | some c => simp [hcloning]
  | none =>
    rw [if_neg (by simp [hcloning])]
    show (insertComponent { element := el } p.components).find? (·.element == x) = _
    rw [find?_insertComponent (c := { element := el }) hel]
    by_cases hx : x = el
    · simp [hx]
    · simp [hx, component?]

theorem discover_of_known (h : (p.component? el).isSome) : (p.discover el).2 = p := by
  simp [discover, h]

/-! ## What leaves the records alone -/

/-- The parts of a page that say how far it has come. -/
structure Records where
  elements : List Element
  journal : List TreeChange
  cloning : Bool
  components : List Component
  tasks : List Task

/-- The records of a page. -/
def records (p : Page) : Records :=
  ⟨p.document.elements, p.document.journal, p.document.cloning, p.components, p.tasks⟩

theorem component?_congr (h : q.records = p.records) : q.component? x = p.component? x :=
  congrArg (fun r : Records => r.components.find? fun c : Component => c.element == x) h

theorem state?_congr (h : q.records = p.records) : q.state? x = p.state? x := by
  rw [state?, component?_congr h, state?]

theorem tasks_congr (h : q.records = p.records) : q.tasks = p.tasks :=
  congrArg Records.tasks h

theorem modifyComponent_congr (h : q.records = p.records) (f : Component → Component) :
    (q.modifyComponent el f).records = (p.modifyComponent el f).records := by
  obtain ⟨he, hj, hc, hcs, ht⟩ := Records.mk.inj h
  simp only [records, modifyComponent, he, hj, hc, hcs, ht]

@[simp] theorem records_receiveModule (name : String)
    (answer : Except ModuleError ComponentModule) :
    (p.receiveModule name answer).2.records = p.records := by
  simp only [receiveModule, records]
  split
  · rfl
  · rfl

@[simp] theorem records_beginDownload (name : String) :
    (p.beginDownload name).2.records = p.records := by
  simp only [beginDownload]
  split
  · rfl
  · rw [records_receiveModule]
    rfl
  · rfl

@[simp] theorem records_resumeDownload (name : String) (download : Download) :
    (p.resumeDownload name download).2.records = p.records := by
  cases download with
  | settled result => rfl
  | arriving ticket due answer =>
    rw [resumeDownload]
    split
    · rw [records_receiveModule]
    · rfl

@[simp] theorem records_releaseRequirement (requirement : Evaluation NamedWait) :
    (p.releaseRequirement requirement).records = p.records :=
  rfl

/-- When a task is queued only the queue changes. -/
theorem enqueue_eq (p : Page) (task : Nat) : ∃ queue, p.enqueue task = { p with queue } := by
  rw [enqueue]
  split
  · exact ⟨p.queue, rfl⟩
  · exact ⟨_, rfl⟩

@[simp] theorem records_enqueue (task : Nat) : (p.enqueue task).records = p.records := by
  obtain ⟨queue, h⟩ := enqueue_eq p task
  rw [h]
  rfl

@[simp] theorem records_wake (key : Wait → Option Nat) : (p.wake key).records = p.records := by
  rw [wake]
  generalize ((p.tasks.zipIdx.flatMap _).mergeSort _) = keyed
  induction keyed generalizing p with
  | nil => rfl
  | cons k keyed ih => rw [List.foldl_cons, ih, records_enqueue]

@[simp] theorem records_publish (e : Event) : (p.publish e).2.records = p.records := by
  simp only [publish, records_wake]
  rfl

@[simp] theorem records_setVisible (el : ElementRef) (on : Bool) :
    (p.setVisible el on).records = p.records := by
  rw [setVisible, records_wake]
  rfl

@[simp] theorem records_setMedia (query : String) (on : Bool) :
    (p.setMedia query on).records = p.records := by
  rw [setMedia, records_wake]
  rfl

@[simp] theorem records_triggerIdle : p.triggerIdle.records = p.records := by
  rw [triggerIdle, records_wake]
  rfl

@[simp] theorem records_setClock (time : Nat) : (p.setClock time).records = p.records := by
  rw [setClock, records_wake]
  rfl

/-! ## Calls -/

/-- The states of the elements stay, and so do the elements and the statuses of the tasks, except
that tasks among `started` may be added. -/
structure Recalls (started : List Task) (p q : Page) : Prop where
  state : ∀ x, q.state? x = p.state? x
  old : ∀ (i : Nat) (t : Task), p.tasks[i]? = some t →
    ∃ u, q.tasks[i]? = some u ∧ u.element = t.element ∧ u.status = t.status
  new : ∀ (i : Nat) (u : Task), q.tasks[i]? = some u →
    (∃ t, p.tasks[i]? = some t ∧ u.element = t.element ∧ u.status = t.status) ∨ u ∈ started

theorem Recalls.enqueue {started : List Task} (h : Recalls started p q) (task : Nat) :
    Recalls started p (q.enqueue task) where
  state x := (state?_congr (records_enqueue task)).trans (h.state x)
  old := by
    rw [tasks_congr (records_enqueue task)]
    exact h.old
  new := by
    rw [tasks_congr (records_enqueue task)]
    exact h.new

theorem recalls_startTask (p : Page) (el : ElementRef) (discovers : Bool) :
    Recalls [{ element := el, status := .fresh discovers }] p (p.startTask el discovers).2 := by
  have hstarted : Recalls [{ element := el, status := .fresh discovers }] p { p with
      tasks := p.tasks ++ [{ element := el, status := .fresh discovers }] } := by
    refine ⟨fun x => rfl, fun i t ht => ⟨t, ?_, rfl, rfl⟩, fun i u hu => ?_⟩
    · exact (List.getElem?_append_left (List.getElem?_eq_some_iff.mp ht).1).trans ht
    · rw [List.getElem?_append] at hu
      split at hu
      · exact .inl ⟨u, hu, rfl, rfl⟩
      · exact .inr (List.mem_of_getElem? hu)
  exact hstarted.enqueue p.tasks.length

theorem recalls_abort (p : Page) (i : Nat) : Recalls [] p (p.abort i).2 := by
  have hsame : Recalls [] p p :=
    ⟨fun x => rfl, fun i t ht => ⟨t, ht, rfl, rfl⟩, fun i u hu => .inl ⟨u, hu, rfl, rfl⟩⟩
  rw [abort]
  split
  · exact hsame
  · split
    · exact hsame
    · have hmarked : Recalls [] p { p with
          tasks := p.tasks.modify i fun t => { t with cancelled := true, reported := true } } := by
        refine ⟨fun x => rfl, fun j t ht => ?_, fun j u hu => .inl ?_⟩
        · refine ⟨_, (List.getElem?_modify _ _ _ _).trans (by rw [ht]; rfl), ?_⟩
          dsimp only
          split
          · exact ⟨rfl, rfl⟩
          · exact ⟨rfl, rfl⟩
        · rw [List.getElem?_modify] at hu
          obtain ⟨t, ht, rfl⟩ := Option.map_eq_some_iff.mp hu
          refine ⟨t, ht, ?_⟩
          split
          · exact ⟨rfl, rfl⟩
          · exact ⟨rfl, rfl⟩
      exact hmarked.enqueue i

theorem document_enqueue (task : Nat) : (p.enqueue task).document = p.document := by
  obtain ⟨queue, h⟩ := enqueue_eq p task
  rw [h]

theorem components_enqueue (task : Nat) : (p.enqueue task).components = p.components :=
  congrArg Records.components (records_enqueue task)

/-- When a call is given up only the calls and the queue change. -/
theorem abort_eq (p : Page) (i : Nat) : ∃ tasks queue, (p.abort i).2 = { p with tasks, queue } := by
  rw [abort]
  split
  · exact ⟨p.tasks, p.queue, rfl⟩
  · split
    · exact ⟨p.tasks, p.queue, rfl⟩
    · obtain ⟨queue, h⟩ := enqueue_eq { p with
        tasks := p.tasks.modify i fun t => { t with cancelled := true, reported := true } } i
      exact ⟨_, queue, h⟩

theorem document_abort {i : Nat} : (p.abort i).2.document = p.document := by
  obtain ⟨tasks, queue, h⟩ := abort_eq p i
  rw [h]

/-! ## What leaves the settings alone -/

/-- The parts of a page that a turn does not change once its element is claimed. -/
structure Settings where
  options : Options
  strategies : StrategyTable
  counter : Nat
  queue : List Nat

/-- The settings of a page. -/
def settings (p : Page) : Settings :=
  ⟨p.options, p.strategies, p.counter, p.queue⟩

theorem settings_discover : (p.discover el).2.settings = p.settings := by
  rw [discover]
  split
  · rfl
  · rfl

theorem settings_handBack : (p.handBack el).2.settings = p.settings := by
  rw [handBack]
  split
  · rfl
  · rfl

section Turns

variable {component : ComponentHandle} {name : String} {requirement : Evaluation NamedWait}
  {download : Download}

theorem settings_beginDownload : (p.beginDownload name).2.settings = p.settings := by
  rw [beginDownload]
  dsimp only
  split
  · rfl
  · rfl
  · rfl

theorem settings_resumeDownload : (p.resumeDownload name download).2.settings = p.settings := by
  cases download with
  | settled result => rfl
  | arriving ticket due answer =>
    rw [resumeDownload]
    split
    · rfl
    · rfl

theorem settings_proceed :
    (p.proceed component name requirement download).2.settings = p.settings := by
  rw [proceed.eq_def]
  split
  · rfl
  · exact settings_handBack
  · rfl

theorem settings_await {tree : Requirement} :
    (p.await component name tree).2.settings = p.settings := by
  rw [await]
  dsimp only
  split
  · rfl
  · exact settings_proceed.trans settings_beginDownload

theorem settings_resumeActivation :
    (p.resumeActivation component name requirement download).2.settings = p.settings := by
  rw [resumeActivation]
  dsimp only
  split
  · rfl
  · exact settings_proceed.trans settings_resumeDownload

/-! ## What leaves the bus alone -/

theorem surroundings_handBack : (p.handBack el).2.surroundings = p.surroundings := by
  rw [handBack]
  split
  · rfl
  · rfl

theorem bus_beginDownload : (p.beginDownload name).2.surroundings.bus = p.surroundings.bus := by
  rw [beginDownload]
  dsimp only
  split
  · rfl
  · rfl
  · rfl

theorem bus_resumeDownload :
    (p.resumeDownload name download).2.surroundings.bus = p.surroundings.bus := by
  cases download with
  | settled result => rfl
  | arriving ticket due answer =>
    rw [resumeDownload]
    split
    · rfl
    · rfl

/-! ## What leaves the clock alone -/

theorem now_beginDownload : (p.beginDownload name).2.surroundings.now = p.surroundings.now := by
  rw [beginDownload]
  dsimp only
  split
  · rfl
  · rfl
  · rfl

theorem now_resumeDownload :
    (p.resumeDownload name download).2.surroundings.now = p.surroundings.now := by
  cases download with
  | settled result => rfl
  | arriving ticket due answer =>
    rw [resumeDownload]
    split
    · rfl
    · rfl

end Turns

end Hydration.Page
