import Hydration.Proofs.Document.Wording
import Hydration.Proofs.Options.Default
import Hydration.Proofs.Page.Guise

/-!
# The wording of a page

An author declares four things at an element: its id, the data that names its component, the
requirement, and the source of the module (`Declaration`).  A `Wording` says how this is written:
what the names of attributes begin with, and the attributes of each element.  A wording **suits** a
page if the page declares the same in this wording.

What happens to a page is a matter of what is declared and not of the wording.  A call reads the
attributes when it begins, and under a wording that suits its page it reads the same
(`beginActivation_reworded`).  Otherwise a wording is a guise, which calls do not look at.  So a turn,
the clock and everything that happens to the platform are indifferent to the wording
(`Indifferent`), and the wording still suits afterwards.
-/

namespace Hydration

/-- What an author has declared at an element. -/
structure Declaration where
  id : Option String := none
  data : Option String := none
  load : Option String := none
  source : Option String := none
deriving DecidableEq

/-- **How declarations are written.** -/
structure Wording where
  attributePrefix : String
  /-- The attributes of each element. -/
  attributes : ElementRef → List (String × String)

/-- A wording as a guise. -/
def Wording.guise (w : Wording) : Guise where
  options o := { o with attributePrefix := w.attributePrefix }
  document := (·.reworded w.attributes)
  request _ _ _ := rfl
  bind _ _ _ := rfl
  destroyTree _ _ := Document.destroyTree_reworded
  clearInert _ _ := Document.modify_reworded fun _ _ => rfl
  initTree _ _ := Document.initTree_reworded
  hasInertAncestor _ _ := Document.hasInertAncestor_reworded

namespace Page

variable {p q : Page} {el : ElementRef} {w : Wording} {name : String}

/-! ## What is declared -/

/-- What is declared at an element. -/
def declaration (p : Page) (el : ElementRef) : Declaration where
  id := p.document.attribute? el "id"
  data := p.document.attribute? el (p.options.attributeName "data")
  load := p.document.attribute? el (p.options.attributeName "load")
  source := p.document.attribute? el (p.options.attributeName "load-src")

/-- **The page in another wording.** -/
def reworded (p : Page) (w : Wording) : Page :=
  p.inGuise w.guise

/-- A wording in which a page declares the same. -/
def Suits (p : Page) (w : Wording) : Prop :=
  ∀ el, (p.reworded w).declaration el = p.declaration el

/-- What is declared is a matter of the attributes and the options. -/
theorem declaration_congr (hskeleton : q.document.skeleton = p.document.skeleton)
    (hoptions : q.options = p.options) : q.declaration el = p.declaration el := by
  simp only [declaration, hoptions, Document.attribute?_congr hskeleton]

theorem Suits.congr (h : p.Suits w) (hskeleton : q.document.skeleton = p.document.skeleton)
    (hoptions : q.options = p.options) : q.Suits w := by
  intro el
  have hreworded : (q.reworded w).declaration el = (p.reworded w).declaration el := by
    simp only [declaration, reworded, inGuise, hoptions, Wording.guise,
      Document.attribute?_reworded, hskeleton]
  rw [hreworded, h el, declaration_congr hskeleton hoptions]

/-! ## The beginning of a call -/

theorem discover_reworded : (p.reworded w).discover el =
    Prod.map id (reworded · w) (p.discover el) := by
  rw [discover, discover]
  by_cases h : p.document.cloning ∨ (p.component? el).isSome
  · rw [if_pos h, if_pos (show (p.reworded w).document.cloning ∨
      ((p.reworded w).component? el).isSome from h)]
    rfl
  · rw [if_neg h, if_neg (show ¬((p.reworded w).document.cloning ∨
      ((p.reworded w).component? el).isSome) from h)]
    have hmarked : (p.document.reworded w.attributes).markInert el =
        (p.document.markInert el).reworded w.attributes :=
      Document.modify_reworded fun _ _ => rfl
    simp only [reworded, inGuise, Wording.guise, hmarked]
    rfl

theorem claim?_reworded : (p.reworded w).claim? el = (p.claim? el).map (·.reworded w) := by
  rw [claim?, claim?]
  by_cases h : p.document.cloning ∨ p.state? el ≠ some .discovered
  · rw [if_pos h, if_pos (show (p.reworded w).document.cloning ∨
      (p.reworded w).state? el ≠ some .discovered from h)]
    rfl
  · rw [if_neg h, if_neg (show ¬((p.reworded w).document.cloning ∨
      (p.reworded w).state? el ≠ some .discovered) from h)]
    rfl

theorem nameFor_reworded (h : p.Suits w) : (p.reworded w).nameFor el =
    Prod.map id (reworded · w) (p.nameFor el) := by
  have hdata : (p.reworded w).document.attribute? el ((p.reworded w).options.attributeName "data") =
      p.document.attribute? el (p.options.attributeName "data") :=
    congrArg Declaration.data (h el)
  rw [nameFor, nameFor, hdata]
  dsimp only
  split
  · rfl
  · rfl

theorem requirementFor_reworded (h : p.Suits w) :
    (p.reworded w).requirementFor el = p.requirementFor el := by
  have hload : (p.reworded w).document.attribute? el ((p.reworded w).options.attributeName "load") =
      p.document.attribute? el (p.options.attributeName "load") :=
    congrArg Declaration.load (h el)
  rw [requirementFor, requirementFor, hload]
  rfl

theorem registerSource_reworded (h : p.Suits w) : (p.reworded w).registerSource el name =
    (p.registerSource el name).map (·.reworded w) := by
  have hsource : (p.reworded w).document.attribute? el
      ((p.reworded w).options.attributeName "load-src") =
      p.document.attribute? el (p.options.attributeName "load-src") :=
    congrArg Declaration.source (h el)
  rw [registerSource, registerSource, hsource]
  split
  · rfl
  · next url _ =>
    rw [show (p.reworded w).modules.registerUrl name url (p.reworded w).options =
      p.modules.registerUrl name url p.options from rfl]
    cases p.modules.registerUrl name url p.options with
    | error error => rfl
    | ok registered => rfl

theorem idFor_reworded (h : p.Suits w) : (p.reworded w).idFor el =
    Prod.map id (reworded · w) (p.idFor el) := by
  have hid : (p.reworded w).document.attribute? el "id" = p.document.attribute? el "id" :=
    congrArg Declaration.id (h el)
  rw [idFor, idFor, Document.elementId?, hid, ← Document.elementId?]
  split
  · rfl
  · rfl

/-- Nothing is declared otherwise once an element is claimed. -/
theorem Suits.claimed {f : Component → Component} (h : p.Suits w) (hq : Claimed p el f q) :
    q.Suits w :=
  h.congr hq.leaves.skeleton hq.options

/-- **A call begins** in the same way in a wording that suits its page. -/
theorem beginActivation_reworded (h : p.Suits w) : (p.reworded w).beginActivation el =
    Prod.map id (reworded · w) (p.beginActivation el) := by
  rw [beginActivation, beginActivation, claim?_reworded]
  cases hclaim : p.claim? el with
  | none => rfl
  | some claimed =>
    obtain ⟨-, hdiscovered, rfl⟩ := claim?_eq_some.mp hclaim
    have hclaimed := claimed_of_discovered hdiscovered
    generalize hmodified : p.modifyComponent el _ = claimed at hclaimed ⊢
    have hnamed := hclaimed.nameFor
    have hmodules : (claimed.nameFor el).2.modules = p.modules := by
      rw [modules_nameFor, ← hmodified]
      rfl
    dsimp only [Option.map_some]
    rw [nameFor_reworded (h.claimed hclaimed)]
    generalize claimed.nameFor el = turn at hnamed hmodules ⊢
    obtain ⟨name, named⟩ := turn
    dsimp only [Prod.map, id_eq] at hnamed hmodules ⊢
    rw [requirementFor_reworded (h.claimed hnamed), registerSource_reworded (h.claimed hnamed)]
    cases hsource : named.registerSource el name with
    | error error => rfl
    | ok sourced =>
      have hsourced := hnamed.registerSource hmodules hsource
      dsimp only [Except.map]
      rw [idFor_reworded (h.claimed hsourced)]
      generalize sourced.idFor el = turn
      obtain ⟨own, identified⟩ := turn
      dsimp only [Prod.map, id_eq]
      split
      · rfl
      · exact await_inGuise (p := identified.modifyComponent el _) (g := w.guise)

/-! ## Operations that are indifferent to the wording -/

/-- **An operation is indifferent to a wording** that suits its page: it does the same, and the
wording still suits. -/
def Indifferent (w : Wording) (f : Page → Page) : Prop :=
  ∀ p : Page, p.Suits w → f (p.reworded w) = (f p).reworded w ∧ (f p).Suits w

theorem Indifferent.comp {f f' : Page → Page} (h : Indifferent w f) (h' : Indifferent w f') :
    Indifferent w fun p => f' (f p) := by
  intro p hp
  obtain ⟨hsame, hsuits⟩ := h p hp
  dsimp only
  rw [hsame]
  exact h' (f p) hsuits

theorem Indifferent.foldl {α : Type} {f : Page → α → Page} (h : ∀ a, Indifferent w (f · a))
    (as : List α) : Indifferent w (as.foldl f) := by
  induction as with
  | nil => exact fun p hp => ⟨rfl, hp⟩
  | cons a as ih => exact (h a).comp ih

theorem indifferent_discover (el : ElementRef) : Indifferent w fun p => (p.discover el).2 := by
  intro p hp
  exact ⟨congrArg Prod.snd discover_reworded, hp.congr skeleton_discover gives_discover.options⟩

theorem indifferent_startTask (el : ElementRef) (discovers : Bool) :
    Indifferent w fun p => (p.startTask el discovers).2 := by
  intro p hp
  refine ⟨startTask_inGuise discovers, hp.congr ?_ ?_⟩
  · exact congrArg Document.skeleton (document_enqueue _)
  · exact (sameTasks_enqueue _).options

/-- What happens to the platform. -/
theorem indifferent_change (c : Change) : Indifferent w (change · c) := by
  intro p hp
  obtain ⟨hsame, -, -⟩ := change_cases (p := p) c
  exact ⟨change_inGuise c, hp.congr (Keeps.of_records hsame.records).skeleton hsame.options⟩

theorem indifferent_setClock (time : Nat) : Indifferent w (setClock · time) := by
  intro p hp
  obtain ⟨hsame, -, -⟩ := setClock_cases (p := p) time
  exact ⟨setClock_inGuise time, hp.congr (Keeps.of_records hsame.records).skeleton hsame.options⟩

/-- **A turn** is the same in any wording that suits the page. -/
theorem indifferent_runTask (task : Nat) : Indifferent w (runTask · task) := by
  intro p hp
  refine ⟨?_, hp.congr (skeleton_act (a := .turn task) nofun) (gives_runTask p task).options⟩
  dsimp only
  rw [runTask, runTask, show (p.reworded w).tasks = p.tasks from rfl]
  cases ht : p.tasks[task]? with
  | none => rfl
  | some t =>
    dsimp only
    cases hstatus : t.status with
    | ended result => rfl
    | dropped => rfl
    | fresh discovers =>
      dsimp only
      by_cases hcancelled : t.cancelled = true
      · rw [if_pos hcancelled, if_pos hcancelled]
        rfl
      · rw [if_neg hcancelled, if_neg hcancelled]
        have hprepared : Indifferent w (prepared · t discovers) := by
          cases discovers with
          | true => exact indifferent_discover t.element
          | false => exact fun p hp => ⟨rfl, hp⟩
        obtain ⟨hsame, hsuits⟩ := hprepared p hp
        have hbegun : ((p.prepared t discovers).reworded w).beginActivation t.element = _ :=
          beginActivation_reworded hsuits
        rw [← hsame] at hbegun
        exact congrArg (fun turn : TaskStatus × Page => turn.2.setStatus task turn.1) hbegun
    | awaiting component name requirement download =>
      dsimp only
      by_cases hcancelled : t.cancelled = true
      · rw [if_pos hcancelled, if_pos hcancelled]
        rfl
      · rw [if_neg hcancelled, if_neg hcancelled, reworded, resumeActivation_inGuise]
        rfl

theorem indifferent_settle : Indifferent w settle := by
  intro p hp
  have hemptied : Suits { p with queue := [] } w := hp.congr rfl rfl
  exact Indifferent.foldl indifferent_runTask p.queue _ hemptied

theorem indifferent_settleAt (time : Nat) : Indifferent w (settleAt · time) :=
  (indifferent_setClock time).comp indifferent_settle

theorem indifferent_advance (duration : Nat) : Indifferent w (advance · duration) := by
  intro p hp
  dsimp only
  rw [advance, advance]
  by_cases hduration : duration = 0
  · rw [if_pos hduration, if_pos hduration]
    exact ⟨rfl, hp⟩
  · rw [if_neg hduration, if_neg hduration]
    obtain ⟨hsame, hsuits⟩ := indifferent_settle p hp
    rw [hsame]
    exact (Indifferent.foldl indifferent_settleAt (p.settle.dueBefore _)).comp
      (indifferent_setClock _) p.settle hsuits

end Page

end Hydration
