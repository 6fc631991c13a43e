import Hydration.Proofs.Page.Flags

/-!
# Operations and turns

An **operation** is one thing that activation does to a page as far as the states of the
elements are concerned: an element is discovered, claimed or handed back, or the states
stay as they are.  An operation takes one element one stage further at most
(`Operation.advances`), on any page and whatever the document and the modules are like.

A turn of a task is a few operations, and `Turn` lists what it can come to: nothing, the
end of a task that is given up or skipped, or **work** on the element of the task.  Only
work has to do with requirements and modules (`Turn.untouched`).
-/

namespace Hydration.Page

variable {p q r : Page} {el x : ElementRef} {i : Nat}

/-! ## Operations -/

/-- One state of an element comes right after another; at first an element is unknown. -/
inductive Follows : Option ActivationState → Option ActivationState → Prop where
  | discovered : Follows none (some .discovered)
  | claimed : Follows (some .discovered) (some .awaitingRequirements)
  | activated : Follows (some .awaitingRequirements) (some .activated)

/-- At most one element has got one stage further. -/
inductive Advances (p q : Page) : Prop where
  | same (h : ∀ x, q.state? x = p.state? x)
  | one (el : ElementRef) (hothers : ∀ x, x ≠ el → q.state? x = p.state? x)
      (hown : Follows (p.state? el) (q.state? el))

/-- What activation does to the states of the elements. -/
inductive Operation (p : Page) : Page → Prop where
  | discover (el : ElementRef) : Operation p (p.discover el).2
  | claim {el : ElementRef} {q : Page} (h : p.claim? el = some q) : Operation p q
  | handBack {el : ElementRef} (h : p.state? el = some .awaitingRequirements) :
      Operation p (p.handBack el).2
  | rest {q : Page} (h : ∀ x, q.state? x = p.state? x) : Operation p q

theorem state?_eq_none : p.state? el = none ↔ p.component? el = none :=
  Option.map_eq_none_iff

/-- An element is discovered if it is unknown, and otherwise nothing happens. -/
theorem discover_cases (p : Page) (el : ElementRef) : (p.discover el).2 = p ∨
    p.state? el = none ∧
      ∀ x, (p.discover el).2.state? x = if x = el then some .discovered else p.state? x := by
  rw [discover]
  split
  · exact .inl rfl
  · next h =>
    have hnone : p.component? el = none := by
      simpa using (not_or.mp h).2
    refine .inr ⟨state?_eq_none.mpr hnone, fun x => ?_⟩
    show ((insertComponent { element := el } p.components).find? (·.element == x)).map _ = _
    rw [find?_insertComponent (c := { element := el }) hnone]
    split
    · rfl
    · rfl

/-- A known element is not discovered again. -/
theorem discover_of_state {s : ActivationState} (h : p.state? el = some s) :
    p.discover el = (false, p) := by
  obtain ⟨c, hc, -⟩ := Option.map_eq_some_iff.mp h
  rw [discover, if_pos (.inr (by rw [hc]; rfl))]

theorem tasks_discover : (p.discover el).2.tasks = p.tasks := by
  rw [discover]
  split <;> rfl

theorem journal_discover : (p.discover el).2.document.journal = p.document.journal := by
  rw [discover]
  split <;> rfl

theorem claim?_eq_some : p.claim? el = some q ↔
    p.document.cloning = false ∧ p.state? el = some .discovered ∧
      q = p.modifyComponent el fun c => { c with state := .awaitingRequirements } := by
  rw [claim?]
  constructor
  · intro h
    split at h
    · cases h
    · next hfree =>
      obtain ⟨hcloning, hstate⟩ := not_or.mp hfree
      exact ⟨(Bool.not_eq_true _).mp hcloning, not_not.mp hstate, (Option.some.inj h).symm⟩
  · rintro ⟨hcloning, hstate, rfl⟩
    rw [if_neg (by simp [hcloning, hstate])]

/-- The state of a known element is replaced. -/
theorem state?_modifyComponent_of_some {f : Component → Component} {s s' : ActivationState}
    (hf : ∀ c, (f c).element = c.element) (hstate : ∀ c, (f c).state = s')
    (h : p.state? el = some s) :
    (p.modifyComponent el f).state? x = if x = el then some s' else p.state? x := by
  rw [state?_modifyComponent hf hstate]
  split
  · next hx =>
    obtain ⟨c, hc, -⟩ := Option.map_eq_some_iff.mp h
    rw [hx, hc]
    rfl
  · rfl

theorem state?_claim (h : p.claim? el = some q) :
    q.state? x = if x = el then some .awaitingRequirements else p.state? x := by
  obtain ⟨-, hdiscovered, rfl⟩ := claim?_eq_some.mp h
  exact state?_modifyComponent_of_some (fun _ => rfl)
    (fun _ => show _ = ActivationState.awaitingRequirements from rfl) hdiscovered

theorem state?_handBack_of_some {s : ActivationState} (h : p.state? el = some s) :
    (p.handBack el).2.state? x = if x = el then some .activated else p.state? x := by
  rw [state?_handBack]
  split
  · next hx =>
    obtain ⟨c, hc, -⟩ := Option.map_eq_some_iff.mp h
    rw [hx, hc]
    rfl
  · rfl

/-- **An operation** takes one element one stage further at most. -/
theorem Operation.advances (h : Operation p q) : Advances p q := by
  cases h with
  | discover el =>
    rcases discover_cases p el with hsame | ⟨hnone, hstate⟩
    · exact .same fun x => by rw [hsame]
    · refine .one el (fun x hx => by rw [hstate, if_neg hx]) ?_
      rw [hnone, hstate, if_pos rfl]
      exact .discovered
  | @claim el _ h =>
    refine .one el (fun x hx => by rw [state?_claim h, if_neg hx]) ?_
    rw [(claim?_eq_some.mp h).2.1, state?_claim h, if_pos rfl]
    exact .claimed
  | @handBack el h =>
    refine .one el (fun x hx => by rw [state?_handBack_of_some h, if_neg hx]) ?_
    rw [h, state?_handBack_of_some h, if_pos rfl]
    exact .activated
  | rest h => exact .same h

/-! ## Handing back -/

/-- What is noted in the journal when an element is handed back. -/
def block (el : ElementRef) : Outcome → List TreeChange
  | .activated => [.destroyed el, .initialized el]
  | .nested => [.destroyed el]
  | .skipped => []

/-- **An element that is handed back** is destroyed and, unless an ancestor is inert, initialized
at once, and the outcome says which. -/
theorem handBack_spec (p : Page) (el : ElementRef) :
    (p.handBack el).2.document.journal = p.document.journal ++ block el (p.handBack el).1 ∧
      (p.handBack el).1 ≠ .skipped ∧
      ((p.handBack el).1 = .activated ↔ (p.handBack el).2.document.hasInertAncestor el = false) := by
  have hjournal : (p.document.release el).journal = p.document.journal ++ [.destroyed el] :=
    Document.journal_destroyTree
  have hfree : (p.document.release el).isInert el = false := by
    rw [← Bool.not_eq_true, Document.isInert_release]
    simp
  have hoc : Outcome.nested ≠ .skipped ∧ Outcome.nested ≠ .activated ∧
      Outcome.activated ≠ .skipped := by decide
  rw [handBack]
  split
  · next h => exact ⟨hjournal, hoc.1, iff_of_false hoc.2.1 (ne_false_of_eq_true h)⟩
  · next h =>
    refine ⟨?_, hoc.2.2, iff_of_true rfl ?_⟩
    · show ((p.document.release el).initTree el).journal = _
      rw [Document.journal_initTree_of_free hfree, hjournal, List.append_assoc]
      rfl
    · show ((p.document.release el).initTree el).hasInertAncestor el = false
      rw [Document.hasInertAncestor_congr Document.skeleton_initTree
        fun x => Document.isInert_initTree]
      exact (Bool.not_eq_true _).mp h

/-! ## Turns -/

/-- The page on which a task claims its element. -/
def prepared (p : Page) (t : Task) (discovers : Bool) : Page :=
  if discovers then (p.discover t.element).2 else p

/-- The element that the turn of a task works on: one that it claims, or one that it has claimed
before. -/
def worksOn? (p : Page) (i : Nat) : Option ElementRef :=
  match p.tasks[i]? with
  | none => none
  | some t =>
    if t.cancelled then none
    else
      match t.status with
      | .fresh discovers =>
        if ((p.prepared t discovers).claim? t.element).isSome then some t.element else none
      | .awaiting component _ _ _ => some component.element
      | _ => none

/-- Whether a task may still do something. -/
def isOpen : TaskStatus → Bool
  | .fresh _ => true
  | .awaiting .. => true
  | _ => false

/-- **What the turn of a task comes to**: the element that it works on and the page afterwards. -/
inductive Turn (p : Page) (i : Nat) : Option ElementRef → Page → Prop where
  | idle : Turn p i none p
  | dropped {t : Task} (requirement : Evaluation NamedWait) (ht : p.tasks[i]? = some t)
      (hopen : isOpen t.status = true) :
      Turn p i none ((p.releaseRequirement requirement).setStatus i .dropped)
  | skipped {t : Task} {discovers : Bool} (ht : p.tasks[i]? = some t)
      (hfresh : t.status = .fresh discovers) :
      Turn p i none ((p.prepared t discovers).setStatus i (.ended (.ok .skipped)))
  | begins {t : Task} {discovers : Bool} {claimed q : Page} {f : Component → Component}
      {component : ComponentHandle} {turn : TaskStatus × Page} (ht : p.tasks[i]? = some t)
      (hfresh : t.status = .fresh discovers)
      (hclaim : (p.prepared t discovers).claim? t.element = some claimed)
      (hf : Claimed (p.prepared t discovers) t.element f q)
      (hcomponent : component.element = t.element)
      (hprogress : Progress ((p.prepared t discovers).modifyComponent t.element f) component turn) :
      Turn p i (some t.element) (turn.2.setStatus i turn.1)
  | resumes {t : Task} {component : ComponentHandle} {name : String}
      {requirement : Evaluation NamedWait} {download : Download} {turn : TaskStatus × Page}
      (ht : p.tasks[i]? = some t) (hawaits : t.status = .awaiting component name requirement download)
      (hprogress : Progress p component turn) :
      Turn p i (some component.element) (turn.2.setStatus i turn.1)

/-- An activation that cannot claim its element is skipped. -/
theorem beginActivation_of_none (h : p.claim? el = none) :
    p.beginActivation el = (.ended (.ok .skipped), p) := by
  rw [beginActivation, h]

/-- An activation that claims its element goes on with it. -/
theorem beginActivation_of_some (h : p.claim? el = some q) :
    ∃ f r id, Claimed p el f r ∧
      Progress (p.modifyComponent el f) ⟨el, id⟩ (p.beginActivation el) := by
  obtain ⟨hcloning, hdiscovered, -⟩ := claim?_eq_some.mp h
  have hbeginning := beginActivation_cases p el
  generalize p.beginActivation el = turn at hbeginning ⊢
  cases hbeginning with
  | skipped hbusy =>
    rcases hbusy with hbusy | hbusy
    · exact absurd (hbusy.symm.trans hcloning) (by decide)
    · exact absurd hdiscovered hbusy
  | unregistered hf => exact ⟨_, _, "", hf, .failed hf.records⟩
  | unread hf _ => exact ⟨_, _, "", hf, .failed hf.records⟩
  | begun hf _ _ => exact ⟨_, _, _, hf, await_progress.congr hf.records⟩

theorem turn_cases (p : Page) (i : Nat) : Turn p i (p.worksOn? i) (p.runTask i) := by
  rw [runTask, worksOn?]
  cases ht : p.tasks[i]? with
  | none => exact .idle
  | some t =>
    dsimp only
    cases hstatus : t.status with
    | ended result =>
      rw [ite_self]
      exact .idle
    | dropped =>
      rw [ite_self]
      exact .idle
    | fresh discovers =>
      dsimp only
      by_cases hcancelled : t.cancelled = true
      · rw [if_pos hcancelled, if_pos hcancelled]
        exact .dropped .succeeded ht (by rw [hstatus]; rfl)
      · rw [if_neg hcancelled, if_neg hcancelled]
        show Turn p i _ (((p.prepared t discovers).beginActivation t.element).2.setStatus i
          ((p.prepared t discovers).beginActivation t.element).1)
        cases hclaim : (p.prepared t discovers).claim? t.element with
        | none =>
          rw [beginActivation_of_none hclaim]
          exact .skipped ht hstatus
        | some claimed =>
          obtain ⟨f, q, id, hf, hprogress⟩ := beginActivation_of_some hclaim
          exact .begins ht hstatus hclaim hf rfl hprogress
    | awaiting component name requirement download =>
      dsimp only
      by_cases hcancelled : t.cancelled = true
      · rw [if_pos hcancelled, if_pos hcancelled]
        exact .dropped requirement ht (by rw [hstatus]; rfl)
      · rw [if_neg hcancelled, if_neg hcancelled]
        exact .resumes ht hstatus resumeActivation_progress

/-- What an activation with a claimed element does is a sequence of operations. -/
theorem Progress.operations {component : ComponentHandle} {turn : TaskStatus × Page}
    (h : Progress p component turn) (hstate : p.state? component.element = some .awaitingRequirements) :
    Relation.ReflTransGen Operation p (turn.2.setStatus i turn.1) := by
  cases h with
  | @failed q error hq =>
    have hsame : ∀ x, q.state? x = p.state? x := fun x => state?_congr hq
    exact .single (.rest hsame)
  | @waiting q name requirement download hq =>
    have hsame : ∀ x, q.state? x = p.state? x := fun x => state?_congr hq
    exact .single (.rest hsame)
  | @done q hq =>
    have hrest : Relation.ReflTransGen Operation p q := .single (.rest fun x => state?_congr hq)
    have hhanded : Operation q (q.handBack component.element).2 :=
      .handBack ((state?_congr hq).trans hstate)
    exact (hrest.tail hhanded).tail (.rest fun x => rfl)

/-- **Without work** a turn leaves the modules, the bindings and the journal as they are, and of
the surroundings at most some waits are given up. -/
theorem Turn.untouched (h : Turn p i none q) :
    q.modules = p.modules ∧ q.document.bindings = p.document.bindings ∧
      q.document.journal = p.document.journal ∧
      ∃ requirement, q.surroundings = (p.releaseRequirement requirement).surroundings := by
  generalize hnone : (none : Option ElementRef) = worked at h
  cases h with
  | idle => exact ⟨rfl, rfl, rfl, .succeeded, rfl⟩
  | dropped requirement => exact ⟨rfl, rfl, rfl, requirement, rfl⟩
  | @skipped t discovers =>
    have hprepared : ∀ b, (p.prepared t b).modules = p.modules ∧
        (p.prepared t b).document.bindings = p.document.bindings ∧
        (p.prepared t b).document.journal = p.document.journal ∧
        (p.prepared t b).surroundings = p.surroundings := by
      intro b
      cases b with
      | false => exact ⟨rfl, rfl, rfl, rfl⟩
      | true =>
        rw [prepared, if_pos rfl, discover]
        split <;> exact ⟨rfl, rfl, rfl, rfl⟩
    obtain ⟨hmodules, hbindings, hjournal, hsurroundings⟩ := hprepared discovers
    exact ⟨hmodules, hbindings, hjournal, .succeeded, hsurroundings⟩
  | begins => cases hnone
  | resumes => cases hnone

end Hydration.Page
