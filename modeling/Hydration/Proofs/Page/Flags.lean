import Hydration.Proofs.Document.Initialization
import Hydration.Proofs.Page.Run

/-!
# The flags of a page along its runs

`Marked deferred p` says that the flags of the elements fit the components: the inert
elements are the deferred ones that are not activated, and what is initialized is
what is not kept back by an inert element.  `Exclusive deferred p` says that no two
tasks wait with the same element and that its component is waiting as well.

Both hold along every run (`Sound.run`).  The heart is `Marked.handBack`: an element
that is handed back was inert until then, so nothing below it was initialized and
destroying its tree takes nothing back.
-/

namespace Hydration.Page

variable {p q r : Page} {deferred : List ElementRef} {el x : ElementRef}

/-! ## Handing an element back -/

/-- The page on which an element has been released and counts as activated. -/
def released (p : Page) (el : ElementRef) : Page :=
  modifyComponent { p with document := p.document.release el } el
    fun c => { c with state := .activated }

theorem handBack_cases (p : Page) (el : ElementRef) : (p.handBack el).2 = p.released el ∧
      (p.document.release el).hasInertAncestor el = true ∨
    (p.handBack el).2 = { p.released el with document := (p.document.release el).initTree el } ∧
      (p.document.release el).hasInertAncestor el = false := by
  rw [handBack]
  split
  · next h => exact .inl ⟨rfl, h⟩
  · next h => exact .inr ⟨rfl, (Bool.not_eq_true _).mp h⟩

theorem tasks_handBack : (p.handBack el).2.tasks = p.tasks := by
  rcases handBack_cases p el with ⟨h, -⟩ | ⟨h, -⟩
  · rw [h]
    rfl
  · rw [h]
    rfl

theorem component?_handBack : (p.handBack el).2.component? x =
    if x = el then (p.component? x).map fun c => { c with state := .activated }
    else p.component? x := by
  have hreleased : (p.released el).component? x =
      if x = el then (p.component? x).map fun c => { c with state := .activated }
      else p.component? x :=
    component?_modifyComponent fun _ => rfl
  rcases handBack_cases p el with ⟨h, -⟩ | ⟨h, -⟩
  · rw [h, hreleased]
  · rw [h]
    exact hreleased

theorem state?_handBack : (p.handBack el).2.state? x =
    if x = el then (p.component? x).map fun _ => .activated else p.state? x := by
  rw [state?, component?_handBack]
  split
  · rw [Option.map_map]
    rfl
  · rfl

/-- What handing an element back adds to the journal. -/
theorem journal_handBack (p : Page) (el : ElementRef) : (p.handBack el).2.document.journal =
      p.document.journal ++ [.destroyed el] ∨
    (p.handBack el).2.document.journal =
      p.document.journal ++ [.destroyed el] ++ [.initialized el] := by
  have hrelease : (p.document.release el).journal = p.document.journal ++ [.destroyed el] :=
    Document.journal_destroyTree
  rcases handBack_cases p el with ⟨h, -⟩ | ⟨h, -⟩
  · rw [h]
    exact .inl hrelease
  · rw [h, ← hrelease]
    exact Document.journal_initTree

/-! ## Flags and components -/

/-- **The flags fit the components.** -/
structure Marked (deferred : List ElementRef) (p : Page) : Prop where
  ordered : p.document.Ordered
  cloning : p.document.cloning = false
  consistent : p.document.Consistent
  inert : ∀ x, p.document.isInert x = true ↔ x ∈ deferred ∧ p.state? x ≠ some .activated
  known : ∀ x, (p.component? x).isSome ↔ x ∈ deferred

theorem Marked.of_document (h : Marked deferred p) (he : q.document.elements = p.document.elements)
    (hc : q.document.cloning = p.document.cloning)
    (hcomponents : ∀ x, (q.component? x).isSome = (p.component? x).isSome)
    (hstate : ∀ x, q.state? x = some .activated ↔ p.state? x = some .activated) :
    Marked deferred q := by
  have helement : ∀ x, q.document.element? x = p.document.element? x := fun x => by
    rw [Document.element?, Document.element?, he]
  have hs : q.document.skeleton = p.document.skeleton := by
    rw [Document.skeleton, Document.skeleton, he]
  refine ⟨(Document.ordered_congr hs).mpr h.ordered, hc.trans h.cloning, ?_, ?_, ?_⟩
  · intro x
    rw [Document.exists_congr hs, Document.above_congr hs]
    simp only [Document.isInitialized, Document.isInert, helement]
    exact h.consistent x
  · intro x
    rw [Document.isInert, helement, ne_eq, hstate]
    exact h.inert x
  · intro x
    rw [hcomponents]
    exact h.known x

theorem Marked.congr (h : Marked deferred p) (hq : q.records = p.records) :
    Marked deferred q :=
  h.of_document (congrArg Records.elements hq) (congrArg Records.cloning hq)
    (fun _ => by rw [component?_congr hq]) fun _ => by rw [state?_congr hq]

/-- A component that waits belongs to a deferred element, which is inert. -/
theorem Marked.isInert (h : Marked deferred p) (hel : p.state? el = some .awaitingRequirements) :
    p.document.isInert el = true := by
  rw [h.inert, ← h.known, hel]
  refine ⟨?_, by simp⟩
  rw [state?] at hel
  obtain ⟨c, hc, -⟩ := Option.map_eq_some_iff.mp hel
  simp [hc]

theorem Marked.claim {f : Component → Component} (h : Marked deferred p)
    (hf : Claimed p el f q) : Marked deferred (p.modifyComponent el f) := by
  refine h.of_document rfl rfl (fun x => ?_) fun x => ?_
  · rw [component?_modifyComponent hf.element]
    split
    · rw [Option.isSome_map]
    · rfl
  · rw [state?_modifyComponent hf.element hf.state]
    split
    · next hx =>
      subst hx
      rw [hf.discovered]
      simp
    · rfl

theorem Claimed.state?_self {f : Component → Component} (hf : Claimed p el f q) :
    (p.modifyComponent el f).state? el = some .awaitingRequirements := by
  have hd := hf.discovered
  rw [state?] at hd
  obtain ⟨c, hc, -⟩ := Option.map_eq_some_iff.mp hd
  rw [state?_modifyComponent hf.element hf.state, if_pos rfl, hc]
  rfl

theorem skeleton_handBack :
    (p.handBack el).2.document.skeleton = p.document.skeleton := by
  rcases handBack_cases p el with ⟨h, -⟩ | ⟨h, -⟩
  · rw [h]
    exact Document.skeleton_release
  · rw [h]
    exact Document.skeleton_initTree.trans Document.skeleton_release

theorem isInert_handBack :
    (p.handBack el).2.document.isInert x = true ↔ p.document.isInert x = true ∧ x ≠ el := by
  rcases handBack_cases p el with ⟨h, -⟩ | ⟨h, -⟩
  · rw [h]
    exact Document.isInert_release
  · rw [h]
    show ((p.document.release el).initTree el).isInert x = true ↔ _
    rw [Document.isInert_initTree, Document.isInert_release]

theorem cloning_handBack : (p.handBack el).2.document.cloning = p.document.cloning := by
  rcases handBack_cases p el with ⟨h, -⟩ | ⟨h, -⟩
  · rw [h]
    exact Document.cloning_destroyTree
  · rw [h]
    exact Document.cloning_initTree.trans Document.cloning_destroyTree

/-- **Handing an element back** leaves the flags fitting the components, whether an inert
ancestor keeps the element back or not. -/
theorem Marked.handBack (h : Marked deferred p)
    (hel : p.state? el = some .awaitingRequirements) : Marked deferred (p.handBack el).2 := by
  have hinert := h.isInert hel
  have hdeferred := ((h.inert el).mp hinert).1
  have hknown := (h.known el).mpr hdeferred
  refine ⟨(Document.ordered_congr skeleton_handBack).mpr h.ordered,
    cloning_handBack.trans h.cloning, ?_, ?_, ?_⟩
  · rcases handBack_cases p el with ⟨hp, hancestor⟩ | ⟨hp, hancestor⟩
    · rw [hp]
      exact h.consistent.release h.ordered hinert hancestor
    · rw [hp]
      exact h.consistent.initialize h.ordered hinert hancestor
  · intro x
    rw [isInert_handBack, h.inert, state?_handBack]
    by_cases hx : x = el
    · subst hx
      obtain ⟨c, hc⟩ := Option.isSome_iff_exists.mp hknown
      simp [hc]
    · simp [hx]
  · intro x
    rw [component?_handBack, ← h.known x]
    split
    · rw [Option.isSome_map]
    · rfl

/-! ## Tasks and components -/

/-- The element that a waiting task has claimed. -/
def claimed? : TaskStatus → Option ElementRef
  | .awaiting component _ _ _ => some component.element
  | _ => none

/-- **The tasks fit the components**: no two tasks wait with one element, and its component
waits as well. -/
structure Exclusive (deferred : List ElementRef) (p : Page) : Prop where
  fresh : ∀ t ∈ p.tasks, t.status = .fresh true → t.element ∈ deferred
  waiting : ∀ (i : Nat) (t : Task), p.tasks[i]? = some t → ∀ el, claimed? t.status = some el →
    p.state? el = some .awaitingRequirements
  alone : ∀ (i j : Nat) (t u : Task), p.tasks[i]? = some t → p.tasks[j]? = some u →
    ∀ el, claimed? t.status = some el → claimed? u.status = some el → i = j

/-- The element `el` waits, but with no other task than `i`. -/
def WaitsWith (p : Page) (i : Nat) (el : ElementRef) : Prop :=
  p.state? el = some .awaitingRequirements ∧
    ∀ j u, p.tasks[j]? = some u → claimed? u.status = some el → j = i

theorem getElem?_setStatus {i j : Nat} {status : TaskStatus} :
    (p.setStatus i status).tasks[j]? =
      if i = j then p.tasks[j]?.map fun t => { t with status } else p.tasks[j]? := by
  rw [setStatus, List.getElem?_modify]
  split
  · rfl
  · simp

theorem elements_setStatus {i : Nat} {status : TaskStatus} :
    (p.setStatus i status).tasks.map (·.element) = p.tasks.map (·.element) := by
  refine List.ext_getElem? fun j => ?_
  rw [List.getElem?_map, getElem?_setStatus, List.getElem?_map]
  split
  · rw [Option.map_map]
    rfl
  · rfl

/-- Tasks with different elements are told apart by them. -/
theorem task_distinct {i j : Nat} {t u : Task} (hnodup : (p.tasks.map (·.element)).Nodup)
    (ht : p.tasks[i]? = some t) (hu : p.tasks[j]? = some u) (helement : t.element = u.element) :
    i = j := by
  have hlength : i < (p.tasks.map (·.element)).length := by
    rw [List.length_map]
    exact (List.getElem?_eq_some_iff.mp ht).1
  refine (List.getElem?_inj hlength hnodup).mp ?_
  rw [List.getElem?_map, List.getElem?_map, ht, hu]
  exact congrArg some helement

theorem Exclusive.congr (h : Exclusive deferred p) (htasks : q.tasks = p.tasks)
    (hstate : ∀ (i : Nat) (t : Task) (el : ElementRef), p.tasks[i]? = some t →
      claimed? t.status = some el →
      p.state? el = some .awaitingRequirements → q.state? el = some .awaitingRequirements) :
    Exclusive deferred q where
  fresh t ht := h.fresh t (htasks ▸ ht)
  waiting i t ht el hel :=
    hstate i t el (htasks ▸ ht) hel (h.waiting i t (htasks ▸ ht) el hel)
  alone i j t u ht hu := h.alone i j t u (htasks ▸ ht) (htasks ▸ hu)

/-- A task gets a status with which it waits for nothing or for an element of its own. -/
theorem Exclusive.setStatus {i : Nat} {status : TaskStatus} (h : Exclusive deferred p)
    (hfresh : status ≠ .fresh true)
    (hstatus : ∀ el, claimed? status = some el → WaitsWith p i el) :
    Exclusive deferred (p.setStatus i status) := by
  have hget : ∀ j u, (p.setStatus i status).tasks[j]? = some u →
      i = j ∧ u.status = status ∨ p.tasks[j]? = some u := by
    intro j u hu
    rw [getElem?_setStatus] at hu
    split at hu
    · next hij =>
      obtain ⟨t, -, rfl⟩ := Option.map_eq_some_iff.mp hu
      exact .inl ⟨hij, rfl⟩
    · exact .inr hu
  refine ⟨?_, ?_, ?_⟩
  · intro u hu husa
    obtain ⟨j, hj⟩ := List.getElem?_of_mem hu
    rcases hget j u hj with ⟨-, hstat⟩ | hold
    · exact absurd (hstat.symm.trans husa) hfresh
    · exact h.fresh u (List.mem_of_getElem? hold) husa
  · intro j u hu el hel
    rcases hget j u hu with ⟨-, hstat⟩ | hold
    · exact (hstatus el (hstat ▸ hel)).1
    · exact h.waiting j u hold el hel
  · -- Of two tasks that wait with one element, either may be the one with the new status.
    intro j k t u ht hu el hel hel'
    rcases hget j t ht with ⟨hij, hstat⟩ | hold
    · rcases hget k u hu with ⟨hik, -⟩ | hold'
      · exact hij.symm.trans hik
      · exact hij.symm.trans ((hstatus el (hstat ▸ hel)).2 k u hold' hel').symm
    · rcases hget k u hu with ⟨hik, hstat⟩ | hold'
      · exact ((hstatus el (hstat ▸ hel')).2 j t hold hel).trans hik
      · exact h.alone j k t u hold hold' el hel hel'

/-! ## Turns -/

/-- **The flags fit the components and the components the tasks.** -/
structure Sound (deferred : List ElementRef) (p : Page) : Prop where
  marked : Marked deferred p
  exclusive : Exclusive deferred p

/-- What is never taken back: the tree stays as it is, and what is activated stays so. -/
structure Keeps (p q : Page) : Prop where
  skeleton : q.document.skeleton = p.document.skeleton
  activated : ∀ x, p.state? x = some .activated → q.state? x = some .activated

/-- What is noted as destroyed was inert. -/
def DestroysInert (p q : Page) : Prop :=
  q.document.journal = p.document.journal ∨ ∃ el, p.document.isInert el = true ∧
    (q.document.journal = p.document.journal ++ [.destroyed el] ∨
      q.document.journal = p.document.journal ++ [.destroyed el] ++ [.initialized el])

theorem Keeps.of_records (h : q.records = p.records) : Keeps p q where
  skeleton := by
    have he : q.document.elements = p.document.elements := congrArg Records.elements h
    rw [Document.skeleton, Document.skeleton, he]
  activated x hx := by rw [state?_congr h, hx]

theorem Keeps.handBack (p : Page) (el : ElementRef) : Keeps p (p.handBack el).2 where
  skeleton := skeleton_handBack
  activated x hx := by
    rw [state?_handBack]
    split
    · rw [state?] at hx
      obtain ⟨c, hc, -⟩ := Option.map_eq_some_iff.mp hx
      rw [hc]
      rfl
    · exact hx

theorem Keeps.trans (hpq : Keeps p q) (hqr : Keeps q r) : Keeps p r where
  skeleton := hqr.skeleton.trans hpq.skeleton
  activated x hx := hqr.activated x (hpq.activated x hx)

theorem Sound.congr (h : Sound deferred p) (hq : q.records = p.records) : Sound deferred q :=
  ⟨h.marked.congr hq, h.exclusive.congr (tasks_congr hq) fun _ _ _ _ _ hs =>
    (state?_congr hq).trans hs⟩

theorem Marked.setStatus {i : Nat} {status : TaskStatus} (h : Marked deferred p) :
    Marked deferred (p.setStatus i status) :=
  h.of_document rfl rfl (fun _ => rfl) fun _ => Iff.rfl

theorem WaitsWith.congr {i : Nat} (h : WaitsWith p i el) (hq : q.records = p.records) :
    WaitsWith q i el :=
  ⟨(state?_congr hq).trans h.1, fun j u hu => h.2 j u (tasks_congr hq ▸ hu)⟩

/-- The turn of a task that waits with an element of its own, or has just claimed it. -/
theorem Sound.progress {i : Nat} {component : ComponentHandle} {turn : TaskStatus × Page}
    (h : Sound deferred p) (hwaits : WaitsWith p i component.element)
    (ht : Progress p component turn) :
    Sound deferred (turn.2.setStatus i turn.1) ∧ Keeps p (turn.2.setStatus i turn.1) ∧
      DestroysInert p (turn.2.setStatus i turn.1) := by
  cases ht with
  | failed hq =>
    have hs := h.congr hq
    exact ⟨⟨hs.marked.setStatus, hs.exclusive.setStatus (by simp) (by simp [claimed?])⟩,
      ⟨(Keeps.of_records hq).skeleton, (Keeps.of_records hq).activated⟩,
      .inl (congrArg Records.journal hq)⟩
  | waiting hq =>
    have hs := h.congr hq
    refine ⟨⟨hs.marked.setStatus, hs.exclusive.setStatus (by simp) ?_⟩,
      ⟨(Keeps.of_records hq).skeleton, (Keeps.of_records hq).activated⟩,
      .inl (congrArg Records.journal hq)⟩
    rintro el hel
    obtain rfl : component.element = el := by simpa [claimed?] using hel
    exact hwaits.congr hq
  | @done q hq =>
    have hs := h.congr hq
    have hwaits := hwaits.congr hq
    have hkeeps := (Keeps.of_records hq).trans (Keeps.handBack q component.element)
    refine ⟨⟨(hs.marked.handBack hwaits.1).setStatus, ?_⟩, ⟨hkeeps.skeleton, hkeeps.activated⟩,
      .inr ⟨component.element, ?_, ?_⟩⟩
    · -- The task ends first, so that nobody waits with the element when its state changes.
      have hended : Exclusive deferred
          (q.setStatus i (.ended (.ok (q.handBack component.element).1))) :=
        hs.exclusive.setStatus (by simp) (by simp [claimed?])
      refine hended.congr ?_ ?_
      · simp only [setStatus, tasks_handBack]
      · intro j t x ht hx hstate
        show (q.handBack component.element).2.state? x = _
        rw [state?_handBack, if_neg ?_]
        · exact hstate
        · rintro rfl
          rw [getElem?_setStatus] at ht
          split at ht
          · obtain ⟨u, -, rfl⟩ := Option.map_eq_some_iff.mp ht
            simp [claimed?] at hx
          · next hij => exact hij (hwaits.2 j t ht hx).symm
    · have hinert := hs.marked.isInert hwaits.1
      have he : q.document.elements = p.document.elements := congrArg Records.elements hq
      rw [Document.isInert, Document.element?, he] at hinert
      exact hinert
    · have hj : q.document.journal = p.document.journal := congrArg Records.journal hq
      have := journal_handBack q component.element
      rw [hj] at this
      exact this

/-- The first turn of the task `i` for the element `el`. -/
theorem Sound.beginActivation {i : Nat} (h : Sound deferred p) :
    Sound deferred ((p.beginActivation el).2.setStatus i (p.beginActivation el).1) ∧
      Keeps p ((p.beginActivation el).2.setStatus i (p.beginActivation el).1) ∧
      DestroysInert p ((p.beginActivation el).2.setStatus i (p.beginActivation el).1) := by
  rcases (beginActivation_cases p el).progress with hskip | ⟨f, q, id, hf, ht⟩
  · rw [hskip]
    exact ⟨⟨h.marked.setStatus, h.exclusive.setStatus (by simp) (by simp [claimed?])⟩,
      ⟨rfl, fun _ => id⟩, .inl rfl⟩
  · -- The element was merely discovered, so no task can have been waiting with it.
    have hnone : ∀ (j : Nat) (u : Task), p.tasks[j]? = some u → claimed? u.status ≠ some el := by
      intro j u hu hel
      have := h.exclusive.waiting j u hu el hel
      rw [hf.discovered] at this
      cases this
    have hstate : ∀ x, x ≠ el → (p.modifyComponent el f).state? x = p.state? x := by
      intro x hx
      rw [state?_modifyComponent hf.element hf.state, if_neg hx]
    have hclaimed : Sound deferred (p.modifyComponent el f) := by
      refine ⟨h.marked.claim hf, h.exclusive.congr rfl ?_⟩
      intro j u x hu hx hwaits
      rw [hstate x, hwaits]
      rintro rfl
      exact hnone j u hu hx
    obtain ⟨hsound, hkeeps, hjournal⟩ := hclaimed.progress (i := i)
      ⟨hf.state?_self, fun j u hu hel => absurd hel (hnone j u hu)⟩ ht
    refine ⟨hsound, ⟨hkeeps.skeleton, fun x hx => hkeeps.activated x ?_⟩, hjournal⟩
    rw [hstate x, hx]
    rintro rfl
    rw [hf.discovered] at hx
    cases hx

/-- Tasks are added that have not run. -/
theorem Exclusive.recalls {started : List Task} (h : Exclusive deferred p)
    (hq : Recalls started p q) (hstarted : ∀ u ∈ started, ∃ discovers,
      u.status = .fresh discovers ∧ (discovers = true → u.element ∈ deferred)) :
    Exclusive deferred q := by
  have hget : ∀ (i : Nat) (u : Task), q.tasks[i]? = some u → ∀ x, claimed? u.status = some x →
      ∃ t, p.tasks[i]? = some t ∧ claimed? t.status = some x := by
    intro i u hu x hx
    rcases hq.new i u hu with ⟨t, ht, -, hstatus⟩ | hnew
    · exact ⟨t, ht, hstatus ▸ hx⟩
    · obtain ⟨discovers, hfresh, -⟩ := hstarted u hnew
      rw [hfresh] at hx
      cases hx
  refine ⟨?_, ?_, ?_⟩
  · intro u hu hfresh
    obtain ⟨i, hi⟩ := List.getElem?_of_mem hu
    rcases hq.new i u hi with ⟨t, ht, helement, hstatus⟩ | hnew
    · exact helement ▸ h.fresh t (List.mem_of_getElem? ht) (hstatus.symm.trans hfresh)
    · obtain ⟨discovers, hfresh', hel⟩ := hstarted u hnew
      exact hel (TaskStatus.fresh.inj (hfresh'.symm.trans hfresh))
  · intro i u hu x hx
    obtain ⟨t, ht, hx⟩ := hget i u hu x hx
    rw [hq.state]
    exact h.waiting i t ht x hx
  · intro i j t u ht hu x hx hx'
    obtain ⟨t, ht, hx⟩ := hget i t ht x hx
    obtain ⟨u, hu, hx'⟩ := hget j u hu x hx'
    exact h.alone i j t u ht hu x hx hx'

theorem Exclusive.startTask {discovers : Bool} (h : Exclusive deferred p)
    (hel : discovers = true → el ∈ deferred) :
    Exclusive deferred (p.startTask el discovers).2 := by
  refine h.recalls (recalls_startTask p el discovers) fun u hu => ?_
  rw [List.mem_singleton.mp hu]
  exact ⟨discovers, rfl, hel⟩

theorem Exclusive.abort {i : Nat} (h : Exclusive deferred p) :
    Exclusive deferred (p.abort i).2 :=
  h.recalls (recalls_abort p i) nofun

/-- A turn keeps the flags fitting. -/
theorem Sound.runTask {i : Nat} (h : Sound deferred p) :
    Sound deferred (p.runTask i) ∧ Keeps p (p.runTask i) ∧ DestroysInert p (p.runTask i) := by
  have hsame : ∀ {q : Page}, q.records = p.records → Sound deferred (q.setStatus i .dropped) ∧
      Keeps p (q.setStatus i .dropped) ∧ DestroysInert p (q.setStatus i .dropped) := by
    intro q hq
    have hs := h.congr hq
    exact ⟨⟨hs.marked.setStatus, hs.exclusive.setStatus (by simp) (by simp [claimed?])⟩,
      ⟨(Keeps.of_records hq).skeleton, (Keeps.of_records hq).activated⟩,
      .inl (congrArg Records.journal hq)⟩
  have hidle : Sound deferred p ∧ Keeps p p ∧ DestroysInert p p :=
    ⟨h, ⟨rfl, fun _ => id⟩, .inl rfl⟩
  rw [Page.runTask]
  split
  · exact hidle
  · next t ht =>
    split
    · exact hidle
    · exact hidle
    · next discovers hfresh =>
      split
      · exact hsame rfl
      · -- A task that would discover its element finds it discovered.
        have hknown : (if discovers = true then (p.discover t.element).2 else p) = p := by
          split
          · next hd =>
            rw [hd] at hfresh
            exact discover_of_known ((h.marked.known _).mpr
              (h.exclusive.fresh t (List.mem_of_getElem? ht) hfresh))
          · rfl
        dsimp only
        rw [hknown]
        exact h.beginActivation
    · next component name requirement download hstatus =>
      split
      · exact hsame (records_releaseRequirement requirement)
      · have hclaims : claimed? t.status = some component.element := by
          rw [hstatus, claimed?]
        refine h.progress ⟨h.exclusive.waiting i t ht _ hclaims, ?_⟩ resumeActivation_progress
        intro j u hu hel
        exact h.exclusive.alone j i u t hu ht _ hel hclaims

/-- **A move** keeps the flags fitting, takes nothing back, and destroys only what is inert. -/
theorem Sound.move (h : Sound deferred p) (hm : Move deferred p q) :
    Sound deferred q ∧ Keeps p q ∧ DestroysInert p q := by
  have hrest : ∀ {q : Page}, q.document = p.document → q.components = p.components →
      Exclusive deferred q → Sound deferred q ∧ Keeps p q ∧ DestroysInert p q := by
    intro q hd hc he
    have hcomponent : ∀ x, q.component? x = p.component? x := fun x => by
      rw [component?, component?, hc]
    have hstate : ∀ x, q.state? x = p.state? x := fun x => by
      rw [state?, state?, hcomponent]
    refine ⟨⟨h.marked.of_document (by rw [hd]) (by rw [hd]) (fun x => by rw [hcomponent])
      fun x => by rw [hstate], he⟩, ⟨by rw [hd], fun x hx => by rw [hstate, hx]⟩, .inl (by rw [hd])⟩
  cases hm with
  | turn i => exact h.runTask
  | handle hel =>
    exact hrest (document_enqueue _) (components_enqueue _) (h.exclusive.startTask fun _ => hel)
  | activate el =>
    exact hrest (document_enqueue _) (components_enqueue _)
      (h.exclusive.startTask fun hd => by cases hd)
  | abort i =>
    refine hrest document_abort ?_ h.exclusive.abort
    obtain ⟨tasks, queue, h⟩ := abort_eq p i
    rw [h]
  | outside hq =>
    exact ⟨h.congr hq, .of_records hq, .inl (congrArg Records.journal hq)⟩

/-- **Along a run** the flags fit the components, and nothing is taken back. -/
theorem Sound.run (h : Sound deferred p) (hr : Run deferred p q) :
    Sound deferred q ∧ Keeps p q := by
  induction hr with
  | refl => exact ⟨h, ⟨rfl, fun _ => id⟩⟩
  | tail _ hm ih =>
    obtain ⟨hs, hk, -⟩ := ih.1.move hm
    exact ⟨hs, ih.2.trans hk⟩

/-! ## What the flags say -/

/-- An element is initialized if it exists and no deferred element above it still waits. -/
theorem Marked.isInitialized_iff (h : Marked deferred p) :
    p.document.isInitialized x = true ↔ p.document.Exists x ∧
      ∀ a, p.document.Above a x → a ∈ deferred → p.state? a = some .activated := by
  rw [h.consistent x]
  refine and_congr_right fun _ => forall_congr' fun a => imp_congr_right fun _ => ?_
  rw [← Bool.not_eq_true, h.inert a, not_and, not_not]

/-- What is initialized stays initialized while activated elements stay activated. -/
theorem Keeps.isInitialized (h : Keeps p q) (hp : Marked deferred p) (hq : Marked deferred q)
    (hx : p.document.isInitialized x = true) : q.document.isInitialized x = true := by
  rw [hq.isInitialized_iff, Document.exists_congr h.skeleton, Document.above_congr h.skeleton]
  obtain ⟨hexists, hactivated⟩ := hp.isInitialized_iff.mp hx
  exact ⟨hexists, fun a ha hd => h.activated a (hactivated a ha hd)⟩

/-- Nothing below an element that is noted as destroyed was initialized. -/
theorem DestroysInert.not_initialized (h : DestroysInert p q) (hp : Marked deferred p)
    (hel : .destroyed el ∈ q.document.journal.drop p.document.journal.length)
    (hx : p.document.Above el x) : p.document.isInitialized x = false := by
  rcases h with hj | ⟨b, hb, hj | hj⟩
  · rw [hj, List.drop_length] at hel
    cases hel
  · rw [hj, List.drop_left] at hel
    obtain rfl : el = b := by simpa using hel
    exact hp.consistent.not_initialized hb hx
  · rw [hj, List.append_assoc, List.drop_left] at hel
    obtain rfl : el = b := by simpa using hel
    exact hp.consistent.not_initialized hb hx

end Hydration.Page
