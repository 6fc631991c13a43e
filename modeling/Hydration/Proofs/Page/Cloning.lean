import Hydration.Proofs.Page.Guise
import Hydration.Proofs.Page.Identity
import Hydration.Url.Parse

/-!
# While the framework is cloning

While the framework clones a tree nothing is to be done to its document.  A call looks at
this when it begins: nothing is discovered and nothing is claimed while the framework is
cloning.  It does not look again.  A call that has begun and waits goes on, when its turn
comes, as if the framework were not cloning (`runTask_withCloning`): it binds the data that
has arrived and hands its element back.

So the document is spared by everything but the turns of calls that waited already
(`spares_cloning`), and these do happen (`mutates_cloning`).
-/

namespace Hydration

/-! ## The flag and the document -/

namespace Document

variable {d : Document} {el : ElementRef} {on : Bool}

/-- The document of a framework that is cloning or not. -/
def withCloning (d : Document) (on : Bool) : Document :=
  { d with cloning := on }

theorem walk_withCloning {prune : Element → Bool} {steps : Nat} {stack : List ElementRef} :
    (d.withCloning on).walk prune steps stack = d.walk prune steps stack := by
  induction steps generalizing stack with
  | zero => cases stack <;> rfl
  | succ steps ih =>
    cases stack with
    | nil => rfl
    | cons x stack =>
      rw [walk, walk]
      simp only [ih]
      rfl

theorem subtree_withCloning {prune : Element → Bool} :
    (d.withCloning on).subtree prune el = d.subtree prune el := by
  have hdescent : (d.withCloning on).descent prune el = d.descent prune el :=
    funext fun _ => walk_withCloning
  rw [subtree, subtree, hdescent]
  rfl

theorem setInitialized_withCloning {value : Bool} {els : List ElementRef} :
    (d.withCloning on).setInitialized value els = (d.setInitialized value els).withCloning on := by
  induction els generalizing d with
  | nil => rfl
  | cons x els ih => exact ih (d := d.modify x _)

theorem destroyTree_withCloning :
    (d.withCloning on).destroyTree el = (d.destroyTree el).withCloning on := by
  rw [destroyTree, subtree_withCloning, setInitialized_withCloning]
  rfl

theorem initTree_withCloning :
    (d.withCloning on).initTree el = (d.initTree el).withCloning on := by
  by_cases h : d.isInert el = true
  · rw [initTree, initTree, if_pos h, if_pos (show (d.withCloning on).isInert el = true from h)]
  · rw [initTree, initTree, if_neg h, if_neg (show ¬(d.withCloning on).isInert el = true from h),
      subtree_withCloning, setInitialized_withCloning]
    rfl

theorem hasInertAncestor_withCloning :
    (d.withCloning on).hasInertAncestor el = d.hasInertAncestor el :=
  hasInertAncestor_congr rfl fun _ => rfl

end Document

namespace Page

variable {p q : Page} {el : ElementRef} {on : Bool} {component : ComponentHandle} {name : String}
  {call : Nat}

/-! ## A call that waits does not look at the flag -/

/-- The page of a framework that is cloning or not. -/
def withCloning (p : Page) (on : Bool) : Page :=
  { p with document := p.document.withCloning on }

/-- A framework that is cloning is a guise of the page. -/
def cloningGuise (on : Bool) : Guise where
  options := id
  document := (·.withCloning on)
  request _ _ _ := rfl
  bind _ _ _ := rfl
  destroyTree _ _ := Document.destroyTree_withCloning
  clearInert _ _ := rfl
  initTree _ _ := Document.initTree_withCloning
  hasInertAncestor _ _ := Document.hasInertAncestor_withCloning

/-- **The turn of a call that waits** is the same whether the framework is cloning or not. -/
theorem runTask_withCloning (h : p.waitsFor? call = some component) :
    (p.withCloning on).runTask call = (p.runTask call).withCloning on := by
  obtain ⟨t, ht, hwaits⟩ := waitsFor?_iff.mp h
  obtain ⟨name, requirement, download, hstatus⟩ := waiting?_iff.mp hwaits
  rw [runTask, runTask, show (p.withCloning on).tasks[call]? = some t from ht, ht]
  dsimp only
  rw [hstatus]
  dsimp only
  split
  · rfl
  · rw [show p.withCloning on = p.inGuise (cloningGuise on) from rfl, resumeActivation_inGuise]
    rfl

/-! ## What is spared -/

/-- An action that does nothing to the document and makes no component: no element is made inert
or ceases to be, no tree is destroyed or initialized, and no data is bound. -/
def Spares (p : Page) (a : Action) : Prop :=
  (p.act a).document = p.document ∧ (p.act a).components = p.components

/-- Nothing is discovered while the framework is cloning. -/
theorem discover_of_cloning (h : p.document.cloning = true) : (p.discover el).2 = p := by
  rw [discover, if_pos (.inl h)]

theorem prepared_of_cloning (h : p.document.cloning = true) (t : Task) (discovers : Bool) :
    p.prepared t discovers = p := by
  rw [prepared, discover_of_cloning h, ite_self]

/-- **A turn** of a call that does not wait spares the document while the framework is cloning. -/
theorem spares_turn (hcloning : p.document.cloning = true) (hnone : p.waitsFor? call = none) :
    p.Spares (.turn call) := by
  have hturn := turn_cases p call
  show (p.runTask call).document = _ ∧ (p.runTask call).components = _
  generalize p.worksOn? call = worked at hturn
  generalize p.runTask call = q at hturn ⊢
  cases hturn with
  | idle => exact ⟨rfl, rfl⟩
  | dropped => exact ⟨rfl, rfl⟩
  | skipped =>
    rw [prepared_of_cloning hcloning]
    exact ⟨rfl, rfl⟩
  | begins _ _ hclaim =>
    -- Nothing is claimed while the framework is cloning.
    rw [prepared_of_cloning hcloning] at hclaim
    have hfree := (claim?_eq_some.mp hclaim).1
    rw [hcloning] at hfree
    cases hfree
  | resumes ht hawaits =>
    have hwaits := waitsFor?_iff.mpr ⟨_, ht, waiting?_iff.mpr ⟨_, _, _, hawaits⟩⟩
    rw [hnone] at hwaits
    cases hwaits

theorem spares_of_cloning {a : Action} (hcloning : p.document.cloning = true)
    (hinside : ∀ change, a ≠ .outside change)
    (hnone : ∀ call, a = .turn call → p.waitsFor? call = none) : p.Spares a := by
  cases a with
  | discover el =>
    rw [Spares, act, discover_of_cloning hcloning]
    exact ⟨rfl, rfl⟩
  | handle el => exact ⟨document_enqueue _, components_enqueue _⟩
  | activate el => exact ⟨document_enqueue _, components_enqueue _⟩
  | turn call => exact spares_turn hcloning (hnone call rfl)
  | abort call => exact ⟨document_abort, (numbered_abort p call).1⟩
  | outside change => exact absurd rfl (hinside change)

/-! ## How a call has come to wait -/

/-- A call that waits after its turn waited before, or it has begun just now, and then the framework
was not cloning. -/
theorem Turn.waitsFor? {worked : Option ElementRef} (h : Turn p call worked q)
    (hwaits : q.waitsFor? call = some component) : p.waitsFor? call = some component ∨
      p.document.cloning = false ∧ worked = some component.element := by
  have hstatus : ∀ {r : Page} {status : TaskStatus},
      (r.setStatus call status).waitsFor? call = some component →
      waiting? status = some component := by
    intro r status h
    rw [waitsFor?_setStatus, if_pos rfl] at h
    obtain ⟨-, -, h⟩ := Option.bind_eq_some_iff.mp h
    exact h
  cases h with
  | idle => exact .inl hwaits
  | dropped => cases hstatus hwaits
  | skipped => cases hstatus hwaits
  | @begins t discovers claimed _ _ _ _ _ _ hclaim _ hcomponent hprogress =>
    rw [hprogress.waiting_eq (hstatus hwaits)]
    refine .inr ⟨(Bool.not_eq_true _).mp fun hcloning => ?_, congrArg some hcomponent.symm⟩
    rw [prepared_of_cloning hcloning] at hclaim
    rw [(claim?_eq_some.mp hclaim).1] at hcloning
    cases hcloning
  | resumes ht hawaits hprogress =>
    rw [hprogress.waiting_eq (hstatus hwaits)]
    exact .inl (waitsFor?_iff.mpr ⟨_, ht, waiting?_iff.mpr ⟨_, _, _, hawaits⟩⟩)

theorem waitsFor?_turn_of_ne {other : Nat} (hother : other ≠ call) :
    (p.runTask other).waitsFor? call = p.waitsFor? call := by
  have hturn := turn_cases p other
  generalize p.worksOn? other = worked at hturn
  generalize p.runTask other = q at hturn ⊢
  have hset : ∀ {r : Page} {status : TaskStatus}, r.tasks = p.tasks →
      (r.setStatus other status).waitsFor? call = p.waitsFor? call := by
    intro r status htasks
    rw [waitsFor?_setStatus, if_neg hother, waitsFor?_congr htasks]
  cases hturn with
  | idle => rfl
  | dropped => exact hset rfl
  | skipped => exact hset (tasks_prepared _)
  | begins _ _ _ _ _ hprogress => exact hset (hprogress.tasks.trans (tasks_prepared _))
  | resumes _ _ hprogress => exact hset hprogress.tasks

/-- No call begins to wait but in its turn. -/
theorem waitsFor?_of_recalls {started : List Task} (h : Recalls started p q)
    (hstarted : ∀ u ∈ started, waiting? u.status = none)
    (hwaits : q.waitsFor? call = some component) : p.waitsFor? call = some component := by
  obtain ⟨u, hu, hstatus⟩ := waitsFor?_iff.mp hwaits
  rcases h.new call u hu with ⟨t, ht, -, hsame⟩ | hnew
  · exact waitsFor?_iff.mpr ⟨t, ht, hsame ▸ hstatus⟩
  · rw [hstarted u hnew] at hstatus
    cases hstatus

theorem waitsFor?_act {a : Action} (hwaits : (p.act a).waitsFor? call = some component) :
    p.waitsFor? call = some component ∨ a = .turn call ∧ p.document.cloning = false ∧
      p.worksOn? call = some component.element := by
  have hstarted : ∀ {el discovers}, ∀ u ∈ [({ element := el, status := .fresh discovers } : Task)],
      waiting? u.status = none := by
    intro el discovers u hu
    rw [List.mem_singleton.mp hu]
    rfl
  cases a with
  | discover el => exact .inl ((waitsFor?_congr tasks_discover).symm.trans hwaits)
  | handle el => exact .inl (waitsFor?_of_recalls (recalls_startTask p el true) hstarted hwaits)
  | activate el => exact .inl (waitsFor?_of_recalls (recalls_startTask p el false) hstarted hwaits)
  | turn other =>
    by_cases hother : other = call
    · subst hother
      exact ((turn_cases p other).waitsFor? hwaits).imp_right fun h => ⟨rfl, h⟩
    · exact .inl ((waitsFor?_turn_of_ne hother).symm.trans hwaits)
  | abort other => exact .inl (waitsFor?_of_recalls (recalls_abort p other) nofun hwaits)
  | outside change => exact .inl hwaits

/-- **A call that waits** has begun at an earlier moment, at which the framework was not cloning. -/
theorem exists_begun_of_waitsFor {actions : List Action}
    (h : (p.course actions).waitsFor? call = some component) :
    ∃ before after, actions = before ++ .turn call :: after ∧
      (p.course before).document.cloning = false ∧
      (p.course before).worksOn? call = some component.element := by
  induction actions using List.reverseRecOn with
  | nil => cases h
  | append_singleton actions a ih =>
    rw [course_concat] at h
    rcases waitsFor?_act h with hwaited | ⟨rfl, hcloning, hworks⟩
    · obtain ⟨before, after, rfl, hbegun⟩ := ih hwaited
      exact ⟨before, after ++ [a], by rw [List.append_assoc, List.cons_append], hbegun⟩
    · exact ⟨actions, [], rfl, hcloning, hworks⟩

/-- **While the framework is cloning**, at any moment of any course:

* An action spares the document unless it is the turn of a call that waits.
* Such a call has begun at an earlier moment, when the framework was not cloning.
* Its turn does what it would do if the framework were not cloning. -/
theorem spares_cloning (p : Page) (actions : List Action)
    (hcloning : (p.course actions).document.cloning = true) :
    let now := p.course actions
    (∀ a, (∀ change, a ≠ .outside change) → (∀ call, a = .turn call → now.waitsFor? call = none) →
      now.Spares a) ∧
    ∀ call component, now.waitsFor? call = some component →
      (∃ before after, actions = before ++ .turn call :: after ∧
        (p.course before).document.cloning = false ∧
        (p.course before).worksOn? call = some component.element) ∧
      now.runTask call = ((now.withCloning false).runTask call).withCloning true := by
  intro now
  refine ⟨fun a hinside hnone => spares_of_cloning hcloning hinside hnone,
    fun call component hwaits => ⟨exists_begun_of_waitsFor hwaits, ?_⟩⟩
  have hsame : (now.withCloning false).withCloning true = now := by
    show { now with document := { now.document with cloning := true } } = now
    rw [← hcloning]
  rw [← runTask_withCloning (p := now.withCloning false) hwaits, hsame]

/-- A page with one element, whose module arrives after ten milliseconds. -/
def slowPage : Page :=
  { document := { elements := [{ parent := none, attributes := [("x-data", "box")] }] }
    modules :=
      ModuleTable.register { join := Url.joinTexts } "box" ⟨some 10, .ok (.component (.int 1))⟩ }

/-- The call for the element waits for the module, the framework begins to clone, and the module
arrives. -/
def cloningMeanwhile : List Action :=
  [.handle ⟨0⟩, .turn 0, .outside (·.withCloning true), .outside (·.setClock 10)]

/-- **The document is changed while the framework is cloning.** -/
theorem mutates_cloning :
    let now := slowPage.course cloningMeanwhile
    now.document.cloning = true ∧ now.document.journal = [] ∧ now.document.bindings = [] ∧
      (now.act (.turn 0)).document.cloning = true ∧
      (now.act (.turn 0)).document.journal = [.destroyed ⟨0⟩, .initialized ⟨0⟩] ∧
      (now.act (.turn 0)).document.bindings.map (·.1) = ["box"] := by
  decide +kernel

/-- Another call for the element spares the document, and so does a call that is given up. -/
theorem spares_cloning_slowPage :
    let now := slowPage.course cloningMeanwhile
    now.document.cloning = true ∧ now.Spares (.handle ⟨0⟩) ∧ now.Spares (.abort 0) := by
  intro now
  have hcloning : now.document.cloning = true := by decide +kernel
  have hspares := (spares_cloning slowPage cloningMeanwhile hcloning).1
  exact ⟨hcloning, hspares (.handle ⟨0⟩) nofun nofun, hspares (.abort 0) nofun nofun⟩

end Page

end Hydration
