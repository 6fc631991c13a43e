import Hydration.Proofs.Page.Records

/-!
# The progress of an activation

`Page.Progress` lists what a turn of an activation can come to once its element is
claimed: a failure, further waiting, or the element handed back.  In the first two
cases the records of the page stay as they are, and in the third they do so up to the
moment at which the element is handed back.

`resumeActivation_progress` says that every turn of a waiting activation is of this kind.
The first turn does more: `beginActivation_cases` lists what becomes of the element before
its activation begins to wait, and `Beginning.progress` what follows.
-/

namespace Hydration.Page

variable {p q : Page} {el : ElementRef} {component : ComponentHandle}

/-- **What a turn comes to** when the activation of `component` has its turn on `p`. -/
inductive Progress (p : Page) (component : ComponentHandle) : TaskStatus × Page → Prop where
  | failed {q : Page} {error : Failure} (h : q.records = p.records) :
      Progress p component (.ended (.error error), q)
  | waiting {q : Page} {name : String} {requirement : Evaluation NamedWait}
      {download : Download} (h : q.records = p.records) :
      Progress p component (.awaiting component name requirement download, q)
  | done {q : Page} (h : q.records = p.records) :
      Progress p component
        (.ended (.ok (q.handBack component.element).1), (q.handBack component.element).2)

theorem proceed_progress {name : String} {requirement : Evaluation NamedWait}
    {download : Download} (h : q.records = p.records) :
    Progress p component (q.proceed component name requirement download) := by
  rw [proceed.eq_def]
  split
  · exact .failed ((records_releaseRequirement _).trans h)
  · exact .done h
  · exact .waiting h

theorem await_progress {name : String} {requirement : Requirement} :
    Progress p component (p.await component name requirement) := by
  rw [await]
  dsimp only
  split
  · exact .failed rfl
  · refine proceed_progress ?_
    rw [records_beginDownload]
    rfl

/-- A turn of an activation that waits. -/
theorem resumeActivation_progress {name : String} {requirement : Evaluation NamedWait}
    {download : Download} :
    Progress p component (p.resumeActivation component name requirement download) := by
  rw [resumeActivation]
  dsimp only
  split
  · exact .failed rfl
  · refine proceed_progress ?_
    rw [records_resumeDownload]
    rfl

theorem Progress.congr {turn : TaskStatus × Page} (h : Progress q component turn)
    (hq : q.records = p.records) : Progress p component turn := by
  cases h with
  | failed h => exact .failed (h.trans hq)
  | waiting h => exact .waiting (h.trans hq)
  | done h => exact .done (h.trans hq)

/-! ## The first turn -/

/-- **The element is claimed** and its component is changed by `f`: what is left of the page `p`
before its activation begins to wait. -/
structure Claimed (p : Page) (el : ElementRef) (f : Component → Component) (q : Page) : Prop where
  discovered : p.state? el = some .discovered
  element : ∀ c, (f c).element = c.element
  state : ∀ c, (f c).state = .awaitingRequirements
  requirement : ∀ c, (f c).requirement = c.requirement ∨
    (f c).requirement = some (p.requirementFor el)
  records : q.records = (p.modifyComponent el f).records
  surroundings : q.surroundings = p.surroundings
  strategies : q.strategies = p.strategies
  options : q.options = p.options
  queue : q.queue = p.queue
  modules : q.modules = p.modules ∨
    ∃ name url taken, p.modules.registerUrl name url p.options = .ok (taken, q.modules)

/-- An element that is discovered can be claimed. -/
theorem claimed_of_discovered (h : p.state? el = some .discovered) :
    Claimed p el (fun c => { c with state := .awaitingRequirements })
      (p.modifyComponent el fun c => { c with state := .awaitingRequirements }) :=
  ⟨h, fun _ => rfl, fun _ => rfl, fun _ => .inl rfl, rfl, rfl, rfl, rfl, rfl, .inl rfl⟩

theorem modules_nameFor (p : Page) (el : ElementRef) : (p.nameFor el).2.modules = p.modules := by
  rw [nameFor]
  dsimp only
  split
  · rfl
  · rfl

theorem Claimed.change {f g : Component → Component} (h : Claimed p el f q)
    (helement : ∀ c, (g c).element = c.element) (hstate : ∀ c, (g c).state = c.state)
    (hrequirement : ∀ c, (g c).requirement = some (p.requirementFor el)) :
    Claimed p el (g ∘ f) (q.modifyComponent el g) where
  discovered := h.discovered
  element c := (helement (f c)).trans (h.element c)
  state c := (hstate (f c)).trans (h.state c)
  requirement c := .inr (hrequirement (f c))
  records := by rw [modifyComponent_congr h.records, modifyComponent_modifyComponent h.element]
  surroundings := h.surroundings
  strategies := h.strategies
  options := h.options
  queue := h.queue
  modules := h.modules

theorem Claimed.nameFor {f : Component → Component} (h : Claimed p el f q) :
    Claimed p el f (q.nameFor el).2 := by
  rw [Page.nameFor]
  dsimp only
  split
  · exact ⟨h.1, h.2, h.3, h.4, h.5, h.6, h.7, h.8, h.9, h.10⟩
  · exact h

theorem Claimed.idFor {f : Component → Component} (h : Claimed p el f q) :
    Claimed p el f (q.idFor el).2 := by
  rw [Page.idFor]
  split
  · exact h
  · exact ⟨h.1, h.2, h.3, h.4, h.5, h.6, h.7, h.8, h.9, h.10⟩

theorem Claimed.registerSource {f : Component → Component} {r : Page} {name : String}
    (h : Claimed p el f q) (hmodules : q.modules = p.modules)
    (hr : q.registerSource el name = .ok r) : Claimed p el f r := by
  rw [Page.registerSource] at hr
  split at hr
  · cases hr
    exact h
  · next url _ =>
    cases hregister : q.modules.registerUrl name url q.options with
    | error error =>
      rw [hregister] at hr
      cases hr
    | ok registered =>
      rw [hregister] at hr
      cases hr
      refine ⟨h.1, h.2, h.3, h.4, h.5, h.6, h.7, h.8, h.9, .inr ⟨name, url, registered.1, ?_⟩⟩
      rw [← hmodules, ← h.options, hregister]

/-- **The first turn of an activation**: it is skipped, or the element is claimed and then its
URL, its requirement or nothing is at fault. -/
inductive Beginning (p : Page) (el : ElementRef) : TaskStatus × Page → Prop where
  | skipped (h : p.document.cloning = true ∨ p.state? el ≠ some .discovered) :
      Beginning p el (.ended (.ok .skipped), p)
  | unregistered {f : Component → Component} {q : Page} {error : ModuleError}
      (h : Claimed p el f q) : Beginning p el (.ended (.error (.module error)), q)
  | unread {f : Component → Component} {q : Page} {error : ParseError} (h : Claimed p el f q)
      (hparse : Requirement.parse (p.requirementFor el) = .error error) :
      Beginning p el (.ended (.error (.parse error)), q)
  | begun {f : Component → Component} {q : Page} {id name : String} {tree : Requirement}
      (h : Claimed p el f q) (hid : ∀ c, (f c).id = some id)
      (hparse : Requirement.parse (p.requirementFor el) = .ok tree) :
      Beginning p el (q.await ⟨el, id⟩ name tree)

theorem beginActivation_cases (p : Page) (el : ElementRef) :
    Beginning p el (p.beginActivation el) := by
  rw [beginActivation, claim?]
  split
  · next h =>
    split at h
    · next hbusy => exact .skipped hbusy
    · cases h
  · next h =>
    split at h
    · cases h
    · next hfree =>
      obtain rfl := Option.some.inj h
      have hdiscovered : p.state? el = some .discovered := by simpa using (not_or.mp hfree).2
      have hclaimed := claimed_of_discovered hdiscovered
      generalize hp' : p.modifyComponent el _ = p' at hclaimed ⊢
      have hnamed := hclaimed.nameFor
      have hrequirement : (p'.nameFor el).2.requirementFor el = p.requirementFor el := by
        subst hp'
        rw [nameFor]
        dsimp only
        split
        · rfl
        · rfl
      have hmodules : (p'.nameFor el).2.modules = p.modules := by
        subst hp'
        exact modules_nameFor _ el
      dsimp only
      rw [hrequirement]
      split
      · exact .unregistered hnamed
      · next registered hregistered =>
        have hidentified := (hnamed.registerSource hmodules hregistered).idFor
        have hfilled := hidentified.change (g := fun c => { c with
          id := some (registered.idFor el).1, name := some (p'.nameFor el).1
          requirement := some (p.requirementFor el) }) (fun _ => rfl) (fun _ => rfl) fun _ => rfl
        split
        · next hparse => exact .unread hfilled hparse
        · next hparse => exact .begun hfilled (fun _ => rfl) hparse

/-- The first turn is skipped, or it is a turn of the activation of a claimed element. -/
theorem Beginning.progress {turn : TaskStatus × Page} (h : Beginning p el turn) :
    turn = (.ended (.ok .skipped), p) ∨
      ∃ f q id, Claimed p el f q ∧ Progress (p.modifyComponent el f) ⟨el, id⟩ turn := by
  cases h with
  | skipped _ => exact .inl rfl
  | unregistered h => exact .inr ⟨_, _, "", h, .failed h.records⟩
  | unread h _ => exact .inr ⟨_, _, "", h, .failed h.records⟩
  | begun h _ _ => exact .inr ⟨_, _, _, h, await_progress.congr h.records⟩

end Hydration.Page
