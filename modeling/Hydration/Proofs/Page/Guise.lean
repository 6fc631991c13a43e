import Hydration.Proofs.Page.Clock

/-!
# Pages in another guise

A call looks at some things only when it begins: whether the framework is cloning, how the
attributes of its element are named, and what they say.  A **guise** gives a page other options and
another document, which differ in nothing else.  In any guise of its page a call that has begun goes
on in the same way (`resumeActivation_inGuise`), and the clock, the queue and what happens to the
platform are the same.
-/

namespace Hydration

/-- **A guise**: other options and another document, which make no difference to a download and to
the operations on a tree. -/
structure Guise where
  options : Options → Options
  document : Document → Document
  request : ∀ (modules : ModuleTable) name o,
    modules.request name (options o) = modules.request name o
  bind : ∀ d name data, (document d).bind name data = document (d.bind name data)
  destroyTree : ∀ d el, (document d).destroyTree el = document (d.destroyTree el)
  clearInert : ∀ d el, (document d).clearInert el = document (d.clearInert el)
  initTree : ∀ d el, (document d).initTree el = document (d.initTree el)
  hasInertAncestor : ∀ d el, (document d).hasInertAncestor el = d.hasInertAncestor el

namespace Page

variable {p : Page} {el : ElementRef} {g : Guise} {component : ComponentHandle} {name : String}
  {requirement : Evaluation NamedWait}

/-- A page in a guise. -/
def inGuise (p : Page) (g : Guise) : Page :=
  { p with options := g.options p.options, document := g.document p.document }

/-! ## Calls that have begun -/

theorem handBack_inGuise :
    (p.inGuise g).handBack el = Prod.map id (inGuise · g) (p.handBack el) := by
  have hreleased : ((p.inGuise g).document.destroyTree el).clearInert el =
      g.document ((p.document.destroyTree el).clearInert el) := by
    rw [inGuise, g.destroyTree, g.clearInert]
  simp only [handBack, modifyComponent, hreleased, g.hasInertAncestor, g.initTree]
  split
  · rfl
  · rfl

theorem receiveModule_inGuise {answer : Except ModuleError ComponentModule} :
    (p.inGuise g).receiveModule name answer =
      Prod.map id (inGuise · g) (p.receiveModule name answer) := by
  cases answer with
  | error error => rfl
  | ok m =>
    simp only [receiveModule, ModuleTable.receive]
    cases m.select name with
    | none => rfl
    | some data =>
      simp only [inGuise, g.bind]
      rfl

theorem beginDownload_inGuise : (p.inGuise g).beginDownload name =
    Prod.map id (inGuise · g) (p.beginDownload name) := by
  rw [beginDownload, beginDownload, inGuise, g.request]
  generalize p.modules.request name p.options = requested
  obtain ⟨request, modules⟩ := requested
  dsimp only
  split
  · rfl
  · exact receiveModule_inGuise (p := { p with modules })
  · rfl

theorem resumeDownload_inGuise {download : Download} :
    (p.inGuise g).resumeDownload name download =
      Prod.map id (inGuise · g) (p.resumeDownload name download) := by
  cases download with
  | settled result => rfl
  | arriving ticket due answer =>
    rw [resumeDownload, resumeDownload]
    by_cases h : due.any (· ≤ p.surroundings.now) = true
    · rw [if_pos h, if_pos (show due.any (· ≤ (p.inGuise g).surroundings.now) = true from h),
        receiveModule_inGuise]
    · rw [if_neg h, if_neg (show ¬due.any (· ≤ (p.inGuise g).surroundings.now) = true from h)]
      rfl

theorem proceed_inGuise {download : Download} :
    (p.inGuise g).proceed component name requirement download =
      Prod.map id (inGuise · g) (p.proceed component name requirement download) := by
  rw [proceed.eq_def, proceed.eq_def]
  split
  · rfl
  · rw [handBack_inGuise]
    rfl
  · rfl

theorem await_inGuise {tree : Requirement} : (p.inGuise g).await component name tree =
    Prod.map id (inGuise · g) (p.await component name tree) := by
  rw [await, await]
  generalize hstarted : tree.start (Requirement.rules p.strategies component)
    p.surroundings = started
  rw [show tree.start (Requirement.rules (p.inGuise g).strategies component)
    (p.inGuise g).surroundings = started from hstarted]
  obtain ⟨evaluation, surroundings⟩ := started
  dsimp only
  split
  · rfl
  · rw [show ({ p.inGuise g with surroundings } : Page) =
      ({ p with surroundings } : Page).inGuise g from rfl, beginDownload_inGuise]
    exact proceed_inGuise

/-- **A call that has begun** goes on in the same way in any guise of its page. -/
theorem resumeActivation_inGuise {download : Download} :
    (p.inGuise g).resumeActivation component name requirement download =
      Prod.map id (inGuise · g) (p.resumeActivation component name requirement download) := by
  rw [resumeActivation, resumeActivation]
  generalize hresumed : requirement.resume (Requirement.rules p.strategies component)
    p.surroundings = resumed
  rw [show requirement.resume (Requirement.rules (p.inGuise g).strategies component)
    (p.inGuise g).surroundings = resumed from hresumed]
  obtain ⟨evaluation, surroundings⟩ := resumed
  dsimp only
  split
  · rfl
  · rw [show ({ p.inGuise g with surroundings } : Page) =
      ({ p with surroundings } : Page).inGuise g from rfl, resumeDownload_inGuise]
    exact proceed_inGuise

/-! ## The queue, the platform and the clock -/

theorem enqueue_inGuise (task : Nat) :
    (p.inGuise g).enqueue task = (p.enqueue task).inGuise g := by
  rw [enqueue, enqueue]
  by_cases h : task ∈ p.queue
  · rw [if_pos h, if_pos (show task ∈ (p.inGuise g).queue from h)]
  · rw [if_neg h, if_neg (show task ∉ (p.inGuise g).queue from h)]
    rfl

theorem startTask_inGuise (discovers : Bool) : ((p.inGuise g).startTask el discovers).2 =
    (p.startTask el discovers).2.inGuise g :=
  enqueue_inGuise (p := { p with
    tasks := p.tasks ++ [{ element := el, status := .fresh discovers }] }) _

theorem wake_inGuise (key : Wait → Option Nat) :
    (p.inGuise g).wake key = (p.wake key).inGuise g := by
  rw [wake, wake, show (p.inGuise g).tasks = p.tasks from rfl]
  generalize ((p.tasks.zipIdx.flatMap _).mergeSort _) = keyed
  induction keyed generalizing p with
  | nil => rfl
  | cons k keyed ih =>
    obtain ⟨-, task⟩ := k
    show keyed.foldl _ ((p.inGuise g).enqueue task) = (keyed.foldl _ (p.enqueue task)).inGuise g
    rw [enqueue_inGuise]
    exact ih

theorem change_inGuise (c : Change) : (p.inGuise g).change c = (p.change c).inGuise g :=
  wake_inGuise (p := { p with surroundings := p.surroundings.after c }) _

theorem setClock_inGuise (time : Nat) :
    (p.inGuise g).setClock time = (p.setClock time).inGuise g :=
  wake_inGuise (p := { p with surroundings := { p.surroundings with now := time } }) _

end Page

end Hydration
