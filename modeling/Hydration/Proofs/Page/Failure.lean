import Hydration.Proofs.Page.Cloning
import Hydration.Proofs.Page.Withheld
import Hydration.Url.Parse

/-!
# Failures are final

A call that has failed has worked on its element, so no other call ever does, and it has not
handed the element back.  Calls that have ended stay as they are (`Returned.ended`), so
this never changes: whatever happens afterwards, the element goes on waiting
(`Returned.state?_of_error`), and while nobody else takes its mark away it is inert.  All
other calls for it are skipped (`failure_is_final`).

The turns of a call that has not handed its element back, those of the failure among them, change
no other record, no mark of another element and no initialization (`Within`).
-/

namespace Hydration.Page

variable {p q r : Page} {el x : ElementRef} {i j : Nat} {t : Task} {actions : List Action}
  {failure : Failure}

/-! ## Calls that have ended -/

theorem tasks_startTask {discovers : Bool} : (p.startTask el discovers).2.tasks =
    p.tasks ++ [{ element := el, status := .fresh discovers }] :=
  tasks_congr (records_enqueue _)

/-- What a task may become: it keeps its element, and its result if it has one. -/
structure Becomes (t u : Task) : Prop where
  element : u.element = t.element
  ended : ∀ result, t.status = .ended result → u.status = .ended result

theorem Becomes.refl (t : Task) : Becomes t t :=
  ⟨rfl, fun _ h => h⟩

/-- An open task gets a status. -/
theorem exists_becomes_setStatus {status : TaskStatus} {u : Task} (htasks : q.tasks = p.tasks)
    (hu : p.tasks[j]? = some u) (hopen : isOpen u.status = true) (ht : p.tasks[i]? = some t) :
    ∃ v, (q.setStatus j status).tasks[i]? = some v ∧ Becomes t v := by
  rw [getElem?_setStatus, htasks, ht]
  split
  · next hij =>
    obtain rfl : t = u := Option.some.inj (ht.symm.trans (hij ▸ hu))
    refine ⟨_, rfl, rfl, fun result hended => ?_⟩
    rw [hended] at hopen
    cases hopen
  · exact ⟨t, rfl, .refl t⟩

theorem Turn.exists_becomes {worked : Option ElementRef} (h : Turn p j worked q)
    (ht : p.tasks[i]? = some t) : ∃ u, q.tasks[i]? = some u ∧ Becomes t u := by
  cases h with
  | idle => exact ⟨t, ht, .refl t⟩
  | dropped requirement hu hopen =>
    exact exists_becomes_setStatus (tasks_congr (records_releaseRequirement requirement)) hu hopen ht
  | @skipped _ discovers hu hfresh =>
    exact exists_becomes_setStatus (tasks_prepared discovers) hu (by rw [hfresh]; rfl) ht
  | @begins _ discovers _ _ _ _ _ hu hfresh _ _ _ hprogress =>
    exact exists_becomes_setStatus (hprogress.tasks.trans (tasks_prepared discovers)) hu
      (by rw [hfresh]; rfl) ht
  | resumes hu hawaits hprogress =>
    exact exists_becomes_setStatus hprogress.tasks hu (by rw [hawaits]; rfl) ht

/-- **No action** takes a call away, nor the result of a call. -/
theorem exists_becomes_act (ht : p.tasks[i]? = some t) (a : Action) :
    ∃ u, (p.act a).tasks[i]? = some u ∧ Becomes t u := by
  have hrecalls : ∀ {started q}, Recalls started p q → ∃ u, q.tasks[i]? = some u ∧ Becomes t u := by
    intro started q hq
    obtain ⟨u, hu, helement, hstatus⟩ := hq.old i t ht
    exact ⟨u, hu, helement, fun _ => hstatus.trans⟩
  cases a with
  | discover x => exact ⟨t, (congrArg (·[i]?) tasks_discover).trans ht, .refl t⟩
  | handle x => exact hrecalls (recalls_startTask p x true)
  | activate x => exact hrecalls (recalls_startTask p x false)
  | turn call => exact (turn_cases p call).exists_becomes ht
  | abort call => exact hrecalls (recalls_abort p call)
  | outside change => exact ⟨t, ht, .refl t⟩

theorem exists_becomes_foldl (ht : p.tasks[i]? = some t) (actions : List Action) :
    ∃ u, (actions.foldl act p).tasks[i]? = some u ∧ Becomes t u := by
  induction actions generalizing p t with
  | nil => exact ⟨t, ht, .refl t⟩
  | cons a actions ih =>
    obtain ⟨u, hu, htu⟩ := exists_becomes_act ht a
    obtain ⟨v, hv, huv⟩ := ih hu
    exact ⟨v, hv, huv.element.trans htu.element, fun result h => huv.ended _ (htu.ended _ h)⟩

/-- Along a course calls stay what they are. -/
theorem exists_becomes_course {before : List Action} (hbefore : before <+: actions)
    (ht : (p.course before).tasks[i]? = some t) :
    ∃ u, (p.course actions).tasks[i]? = some u ∧ Becomes t u := by
  obtain ⟨rest, rfl⟩ := hbefore
  rw [course, List.foldl_append]
  exact exists_becomes_foldl ht rest

/-- **A call that has returned** has its result ever after. -/
theorem Returned.ended {result : Except Failure Outcome} (h : Returned p actions i el result) :
    ∃ t, (p.course actions).tasks[i]? = some t ∧ t.element = el ∧ t.status = .ended result := by
  obtain ⟨earlier, hearlier, t, ht, rfl, hended⟩ := h
  obtain ⟨u, hu, htu⟩ := exists_becomes_course hearlier ht
  exact ⟨u, hu, htu.element, htu.ended result hended⟩

/-- A call returns one result. -/
theorem Returned.unique {result result' : Except Failure Outcome}
    (h : Returned p actions i el result) (h' : Returned p actions i x result') :
    result = result' := by
  obtain ⟨t, ht, -, hended⟩ := h.ended
  obtain ⟨u, hu, -, hended'⟩ := h'.ended
  obtain rfl : t = u := Option.some.inj (ht.symm.trans hu)
  exact TaskStatus.ended.inj (hended.symm.trans hended')

/-- The failure that a status stands for. -/
def failureOf : TaskStatus → Option Failure
  | .ended (.error failure) => some failure
  | _ => none

theorem failureOf_eq_some {status : TaskStatus} :
    failureOf status = some failure ↔ status = .ended (.error failure) := by
  constructor
  · intro h
    rw [failureOf.eq_def] at h
    split at h
    · rw [Option.some.inj h]
    · cases h
  · rintro rfl
    rfl

/-! ## Calls that have failed -/

/-- No element is handed back for which a call has failed. -/
theorem Returned.not_delivered {outcome : Outcome}
    (h : Returned p actions i el (.error failure)) : (j, el, outcome) ∉ p.deliveries actions := by
  intro hdelivered
  obtain ⟨houtcome, hreturned⟩ := mem_deliveries.mp hdelivered
  obtain rfl : i = j := (kept_course p actions).once i j el (h.mem_work nofun)
    (hreturned.mem_work (by simpa using houtcome))
  cases h.unique hreturned

/-- **The element of a call that has failed** waits for ever. -/
theorem Returned.state?_of_error (h : Returned p actions i el (.error failure)) :
    (p.course actions).state? el = some .awaitingRequirements :=
  (kept_course p actions).state?_of_not_handed (h.mem_work nofun) fun _ _ => h.not_delivered

/-- Every other call for the element is skipped. -/
theorem Returned.eq_or_skipped {result : Except Failure Outcome}
    (h : Returned p actions i el (.error failure)) (hj : Returned p actions j el result) :
    j = i ∧ result = .error failure ∨ result = .ok .skipped := by
  by_cases hresult : result = .ok .skipped
  · exact .inr hresult
  · obtain rfl : j = i := (kept_course p actions).once j i el (hj.mem_work hresult)
      (h.mem_work nofun)
    exact .inl ⟨rfl, hj.unique h⟩

/-- Activation destroys and initializes the elements that it hands back. -/
theorem mem_written {change : TreeChange} (h : change ∈ p.written actions) :
    ∃ i el outcome, (i, el, outcome) ∈ p.deliveries actions ∧
      (change = .destroyed el ∨ change = .initialized el) := by
  rw [written_eq, blocks, List.mem_flatMap] at h
  obtain ⟨⟨i, el, outcome⟩, hdelivered, hchange⟩ := h
  refine ⟨i, el, outcome, hdelivered, ?_⟩
  cases outcome with
  | activated => simpa [block] using hchange
  | nested => exact .inl (by simpa [block] using hchange)
  | skipped => simp [block] at hchange

theorem Returned.not_mem_written (h : Returned p actions i el (.error failure)) :
    .destroyed el ∉ p.written actions ∧ .initialized el ∉ p.written actions := by
  constructor
  · intro hwritten
    obtain ⟨j, x, outcome, hdelivered, hx | hx⟩ := mem_written hwritten
    · cases hx
      exact h.not_delivered hdelivered
    · cases hx
  · intro hwritten
    obtain ⟨j, x, outcome, hdelivered, hx | hx⟩ := mem_written hwritten
    · cases hx
    · cases hx
      exact h.not_delivered hdelivered

/-- A call for an element that has been claimed is skipped in its first turn. -/
theorem runTask_of_claimed {discovers : Bool} {s : ActivationState} (ht : p.tasks[j]? = some t)
    (hfresh : t.status = .fresh discovers) (hopen : t.cancelled = false)
    (hstate : p.state? t.element = some s) (hpast : s ≠ .discovered) :
    p.runTask j = p.setStatus j (.ended (.ok .skipped)) := by
  have hprepared : p.prepared t discovers = p := by
    rw [prepared, discover_of_state hstate]
    exact ite_self p
  have hclaim : p.claim? t.element = none := by
    rw [claim?, if_pos]
    right
    rw [hstate]
    exact fun h => hpast (Option.some.inj h)
  rw [runTask, ht]
  dsimp only
  rw [hopen, hfresh]
  show ((p.prepared t discovers).beginActivation t.element).2.setStatus j
    ((p.prepared t discovers).beginActivation t.element).1 = _
  rw [hprepared, beginActivation_of_none hclaim]

/-! ## What a failure leaves alone -/

/-- **The pages differ in one element only**: no other has got another record or another mark, and
nothing has been initialized or destroyed. -/
structure Within (el : ElementRef) (p q : Page) : Prop where
  component : ∀ x, x ≠ el → q.component? x = p.component? x
  inert : ∀ x, x ≠ el → q.document.isInert x = p.document.isInert x
  initialized : ∀ x, q.document.isInitialized x = p.document.isInitialized x
  journal : q.document.journal = p.document.journal

theorem Within.trans (h : Within el p q) (h' : Within el q r) : Within el p r where
  component x hx := (h'.component x hx).trans (h.component x hx)
  inert x hx := (h'.inert x hx).trans (h.inert x hx)
  initialized x := (h'.initialized x).trans (h.initialized x)
  journal := h'.journal.trans h.journal

/-- The records of other elements and the document are the same. -/
theorem Within.of_document (hcomponent : ∀ x, x ≠ el → q.component? x = p.component? x)
    (helements : q.document.elements = p.document.elements)
    (hjournal : q.document.journal = p.document.journal) : Within el p q := by
  have helement : ∀ x, q.document.element? x = p.document.element? x := fun x => by
    rw [Document.element?, Document.element?, helements]
  refine ⟨hcomponent, fun x _ => ?_, fun x => ?_, hjournal⟩
  · rw [Document.isInert, Document.isInert, helement]
  · rw [Document.isInitialized, Document.isInitialized, helement]

theorem Within.of_records (h : q.records = p.records) : Within el p q :=
  .of_document (fun _ _ => component?_congr h) (congrArg Records.elements h)
    (congrArg Records.journal h)

theorem Within.startTask (p : Page) (discovers : Bool) :
    Within el p (p.startTask x discovers).2 := by
  have hcomponents : (p.startTask x discovers).2.components = p.components := components_enqueue _
  have hdocument : (p.startTask x discovers).2.document = p.document := document_enqueue _
  refine .of_document (fun y _ => ?_) (congrArg _ hdocument) (congrArg _ hdocument)
  rw [component?, component?, hcomponents]

theorem Within.discover (p : Page) (el : ElementRef) : Within el p (p.discover el).2 := by
  by_cases hcloning : p.document.cloning = true
  · rw [discover_of_cloning hcloning]
    exact .of_records rfl
  · refine ⟨fun x hx => ?_, fun x hx => ?_, fun x => ?_, journal_discover⟩
    · rw [component?_discover el x ((Bool.not_eq_true _).mp hcloning), if_neg (hx ·.1)]
    · rw [Page.discover]
      split
      · rfl
      · show (p.document.markInert el).isInert x = _
        rw [Bool.eq_iff_iff, Document.isInert_markInert]
        simp [hx]
    · rw [Page.discover]
      split
      · rfl
      · exact Document.isInitialized_markInert

theorem Within.prepared (p : Page) (t : Task) (discovers : Bool) :
    Within t.element p (p.prepared t discovers) := by
  rw [Page.prepared]
  split
  · exact .discover p t.element
  · exact .of_records rfl

theorem Within.claim {f : Component → Component} (hf : Claimed p el f q) :
    Within el p (p.modifyComponent el f) := by
  refine .of_document (fun x hx => ?_) rfl rfl
  rw [component?_modifyComponent hf.element, if_neg hx]

/-- An activation that does not hand its element back changes no record. -/
theorem Progress.within {component : ComponentHandle} {turn : TaskStatus × Page}
    (h : Progress p component turn) (hdone : outcomeOf turn.1 = none) :
    Within el p (turn.2.setStatus i turn.1) := by
  cases h with
  | failed hq => exact (Within.of_records hq).trans (.of_document (fun _ _ => rfl) rfl rfl)
  | waiting hq => exact (Within.of_records hq).trans (.of_document (fun _ _ => rfl) rfl rfl)
  | done hq => cases hdone

/-- **A turn** in which a call does not hand its element back changes nothing but that element. -/
theorem Turn.within {worked : Option ElementRef} (h : Turn p i worked q)
    (hel : ∀ t, p.tasks[i]? = some t → t.element = el)
    (hopen : worked ≠ none → q.outcome? i = none) : Within el p q := by
  cases h with
  | idle => exact .of_records rfl
  | dropped => exact .of_document (fun _ _ => rfl) rfl rfl
  | @skipped t discovers ht =>
    rw [← hel t ht]
    exact (Within.prepared p t discovers).trans (.of_document (fun _ _ => rfl) rfl rfl)
  | @begins t discovers _ _ _ _ turn ht _ _ hf _ hprogress =>
    have houtcome : outcomeOf turn.1 = none := by
      have := hopen nofun
      rwa [outcome?_setStatus ((hprogress.tasks.trans (tasks_prepared discovers)) ▸ ht)] at this
    rw [← hel t ht]
    exact ((Within.prepared p t discovers).trans (.claim hf)).trans (hprogress.within houtcome)
  | @resumes _ _ _ _ _ turn ht _ hprogress =>
    have houtcome : outcomeOf turn.1 = none := by
      have := hopen nofun
      rwa [outcome?_setStatus (hprogress.tasks ▸ ht)] at this
    exact hprogress.within houtcome

/-! ## Courses with a failure -/

/-- The element exists when its record is made. -/
def Present (p : Page) (actions : List Action) (el : ElementRef) : Prop :=
  ∀ before a, before ++ [a] <+: actions → (p.course before).component? el = none →
    ((p.course (before ++ [a])).component? el).isSome → (p.course before).document.Exists el

/-- Nothing takes the mark of an element away but what is done with its component. -/
theorem lasting_isInert : Lasting el fun d => d.isInert el = true where
  elements h := (Document.withholds_of_elements h).inert el
  markInert {d} x := (Document.withholds_markInert d x).inert el
  release _ hx hd := Document.isInert_release.mpr ⟨hd, Ne.symm hx⟩
  initTree {d} x := (Document.withholds_initTree d x).inert el

/-- An element that is known and not activated is inert. -/
theorem isInert_course (hpresent : Present p actions el)
    (houtside : ∀ before change, before ++ [.outside change] <+: actions →
      (p.course before).document.isInert el = true →
      (change (p.course before)).document.isInert el = true) :
    Guarded (fun d => d.isInert el = true) el (p.course actions) :=
  guarded_course lasting_isInert (fun before a h hnone hsome =>
    Document.isInert_markInert.mpr (.inr ⟨rfl, hpresent before a h hnone hsome⟩)) houtside

/-- A call that has failed has never handed anything back. -/
theorem Returned.outcome?_eq_none {before : List Action}
    (h : Returned p actions i el (.error failure)) (hbefore : before ++ [.turn i] <+: actions)
    (hworks : (p.course before).worksOn? i ≠ none) :
    ((p.course before).runTask i).outcome? i = none := by
  obtain ⟨x, hx⟩ := Option.ne_none_iff_exists'.mp hworks
  cases houtcome : ((p.course before).runTask i).outcome? i with
  | none => rfl
  | some outcome =>
    have hdelivered : (i, x, outcome) ∈ p.deliveries (before ++ [.turn i]) := by
      rw [deliveries_concat, deliveriesOf, hx, houtcome]
      exact List.mem_append_right _ (List.mem_singleton_self _)
    have hhanded : (i, x, outcome) ∈ p.deliveries actions :=
      mem_trace_of_prefix hbefore hdelivered
    cases h.unique (mem_deliveries.mp hhanded).2

/-- **What is done with the element of a call that has failed** concerns only that element. -/
theorem Returned.within {before : List Action} {a : Action}
    (h : Returned p actions i el (.error failure)) (hbefore : before ++ [a] <+: actions)
    (ha : a = .turn i ∨ a = .handle el ∨ a = .activate el) :
    Within el (p.course before) (p.course (before ++ [a])) := by
  rw [course_concat]
  rcases ha with rfl | rfl | rfl
  · refine (turn_cases (p.course before) i).within (fun t ht => ?_)
      (h.outcome?_eq_none hbefore)
    obtain ⟨u, hu, htu⟩ := exists_becomes_course ((List.prefix_append _ _).trans hbefore) ht
    obtain ⟨v, hv, rfl, -⟩ := h.ended
    obtain rfl : u = v := Option.some.inj (hu.symm.trans hv)
    exact htu.element.symm
  · exact .startTask (p.course before) true
  · exact .startTask (p.course before) false

/-- **Failures are final.**  When a call for an element has failed, for whatever reason, then after
any further actions:

* The element waits for its requirement.  It is inert, if it was there when it was discovered and
  nothing that happens outside takes inert marks away (`withholds_perform`).
* Activation has written nothing about the element into the journal.
* Discovering the element does nothing, and every call for it that has its first turn is skipped.
  Of all calls for it only the one that has failed has returned anything else.
* Making the calls for the element, and all the turns of the one that has failed, have changed no
  other record, no mark of another element and no initialization. -/
theorem failure_is_final (p : Page) (actions : List Action) (i : Nat) (el : ElementRef)
    (failure : Failure) (h : Returned p actions i el (.error failure)) :
    let now := p.course actions
    (now.state? el = some .awaitingRequirements ∧
      (Present p actions el →
        (∀ before change, before ++ [.outside change] <+: actions →
          (p.course before).document.isInert el = true →
          (change (p.course before)).document.isInert el = true) →
        now.document.isInert el = true)) ∧
    (.destroyed el ∉ p.written actions ∧ .initialized el ∉ p.written actions) ∧
    (now.discover el = (false, now) ∧
      (∀ j t discovers, now.tasks[j]? = some t → t.element = el → t.status = .fresh discovers →
        t.cancelled = false → now.runTask j = now.setStatus j (.ended (.ok .skipped))) ∧
      ∀ j result, Returned p actions j el result →
        j = i ∧ result = .error failure ∨ result = .ok .skipped) ∧
    ∀ before a, before ++ [a] <+: actions → a = .turn i ∨ a = .handle el ∨ a = .activate el →
      Within el (p.course before) (p.course (before ++ [a])) := by
  intro now
  have hstate : now.state? el = some .awaitingRequirements := h.state?_of_error
  refine ⟨⟨hstate, fun hpresent houtside => ?_⟩, h.not_mem_written,
    ⟨discover_of_state hstate, fun j t discovers ht hel hfresh hopen => ?_,
      fun j result => h.eq_or_skipped⟩, fun before a => h.within⟩
  · exact isInert_course hpresent houtside _ hstate nofun
  · have hclaimed : now.state? t.element = some .awaitingRequirements := hel ▸ hstate
    exact runTask_of_claimed ht hfresh hopen hclaimed nofun

/-- A page with an element in another one, whose requirement fails after thirty milliseconds and
whose module arrives after ten. -/
def offInTab : Page :=
  { strategies := StrategyTable.builtIn.register "off" (.custom ⟨some 30, .error (.platform "off")⟩)
    document := { elements := [{ parent := none, attributes := [("x-data", "tab")] },
      { parent := some ⟨0⟩, attributes := [("x-data", "box"), ("x-load", "off")] }] }
    modules :=
      ModuleTable.register { join := Url.joinTexts } "box" ⟨some 10, .ok (.component (.int 1))⟩ }

/-- The call for the inner element fails when its data has been bound.  Then the outer element is
activated, the framework destroys and initializes trees, and there is another call for the inner
element. -/
def offThenTab : List Action :=
  [.discover ⟨0⟩, .handle ⟨1⟩, .turn 0, .outside (·.setClock 10), .turn 0, .outside (·.setClock 30),
    .turn 0, .activate ⟨0⟩, .turn 1, .outside (commanded (.initTree ⟨1⟩)),
    .outside (commanded (.destroyTree ⟨0⟩)), .handle ⟨1⟩, .turn 2, .activate ⟨1⟩]

/-- What happens besides activation takes no inert mark away. -/
theorem withholds_offThenTab {change : Page → Page} (h : .outside change ∈ offThenTab) (p : Page) :
    p.document.Withholds (change p).document := by
  simp only [offThenTab, List.mem_cons, Action.outside.injEq, List.not_mem_nil, or_false,
    reduceCtorEq, false_or] at h
  rcases h with rfl | rfl | rfl | rfl
  · exact Document.withholds_of_elements (congrArg Records.elements (records_setClock 10))
  · exact Document.withholds_of_elements (congrArg Records.elements (records_setClock 30))
  · exact withholds_perform p _ nofun nofun
  · exact withholds_perform p _ nofun nofun

/-- The inner element stays inert when the outer one is activated, the next call for it has been
skipped, and the last one will be; its data is bound all the same. -/
theorem failure_is_final_offInTab :
    let now := offInTab.course offThenTab
    (∃ failure, Returned offInTab offThenTab 0 ⟨1⟩ (.error failure)) ∧
      now.state? ⟨0⟩ = some .activated ∧ now.document.bindings.map (·.1) = ["box"] ∧
      now.document.isInert ⟨1⟩ = true ∧ .initialized ⟨1⟩ ∉ offInTab.written offThenTab ∧
      now.discover ⟨1⟩ = (false, now) ∧ Returned offInTab offThenTab 2 ⟨1⟩ (.ok .skipped) ∧
      now.runTask 3 = now.setStatus 3 (.ended (.ok .skipped)) ∧
      Within ⟨1⟩ (offInTab.course (offThenTab.take 6)) (offInTab.course (offThenTab.take 7)) := by
  intro now
  have hpresent : Present offInTab offThenTab ⟨1⟩ := by
    have hmoments : ∀ before ∈ offThenTab.inits,
        ((offInTab.course before).document.element? ⟨1⟩).isSome := by decide +kernel
    exact fun before a h _ _ => hmoments before ((List.mem_inits _ _).mpr
      ((List.prefix_append _ _).trans h))
  -- What has become of the calls for the inner element.
  obtain ⟨failure, hfailed⟩ : ∃ failure, Returned offInTab offThenTab 0 ⟨1⟩ (.error failure) := by
    have hcall : (now.tasks[0]?.any fun t =>
        t.element == ⟨1⟩ && (failureOf t.status).isSome) = true := by decide +kernel
    simp only [Option.any_eq_true, Bool.and_eq_true, beq_iff_eq, Option.isSome_iff_exists,
      failureOf_eq_some] at hcall
    obtain ⟨t, ht, hel, failure, hfailed⟩ := hcall
    exact ⟨failure, offThenTab, List.prefix_rfl, t, ht, hel, hfailed⟩
  have hskipped : Returned offInTab offThenTab 2 ⟨1⟩ (.ok .skipped) := by
    have hcall : (now.tasks[2]?.any fun t =>
        t.element == ⟨1⟩ && outcomeOf t.status == some .skipped) = true := by decide +kernel
    simp only [Option.any_eq_true, Bool.and_eq_true, beq_iff_eq, outcomeOf_eq_some] at hcall
    obtain ⟨t, ht, hel, hskipped⟩ := hcall
    exact ⟨offThenTab, List.prefix_rfl, t, ht, hel, hskipped⟩
  have hlast : now.tasks[3]? = some { element := ⟨1⟩, status := .fresh false } := by
    have htasks : now.tasks = (offInTab.course offThenTab.dropLast).tasks ++
        [{ element := ⟨1⟩, status := .fresh false }] := tasks_startTask
    have hlength : (offInTab.course offThenTab.dropLast).tasks.length = 3 := by decide +kernel
    rw [htasks, ← hlength, List.getElem?_concat_length]
  obtain ⟨⟨-, hinert⟩, ⟨-, hwritten⟩, ⟨hdiscover, hturn, -⟩, hwithin⟩ :=
    failure_is_final offInTab offThenTab 0 ⟨1⟩ failure hfailed
  refine ⟨⟨failure, hfailed⟩, by decide +kernel, by decide +kernel,
    hinert hpresent fun before change h => ?_, hwritten, hdiscover, hskipped,
    hturn 3 _ false hlast rfl rfl rfl,
    hwithin (offThenTab.take 6) (.turn 0) ⟨offThenTab.drop 7, rfl⟩ (.inl rfl)⟩
  exact (withholds_offThenTab (h.subset (List.mem_append_right _ (List.mem_singleton_self _)))
    _).inert _

end Hydration.Page
