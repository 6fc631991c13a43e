import Hydration.Proofs.Page.Binding
import Hydration.Proofs.Page.Guarded
import Hydration.Url.Parse
import Mathlib.Data.List.Infix

/-!
# Elements are held back until their data is bound

An element that has been discovered in time is inert and not initialized until it is activated
(`HeldBack`): nothing but its own activation takes the mark away, and neither the framework
nor another activation initializes an inert element (`Document.Withholds`,
`withholds_perform`).  This needs nothing of the tree; where parents go in a circle a walk that
never ends initializes nothing.

When its own activation hands it back, the data of what has been looked up for it is bound
(`Promised.binds`).  So whoever initializes it, and whenever, its data is bound before
(`binds_before_initialization`).
-/

namespace Hydration

namespace Document

variable {d d' : Document} {prune : Element → Bool} {a x el : ElementRef}

/-! ## Inert elements -/

theorem reached_of_mem_subtree (h : x ∈ d.subtree prune el) : d.Reached prune el x := by
  rw [subtree] at h
  cases hwalk : d.descent prune el d.enoughSteps with
  | none =>
    rw [hwalk] at h
    cases h
  | some visited =>
    rw [hwalk, Option.getD_some, mem_walk hwalk] at h
    obtain ⟨r, hr, hx⟩ := h
    exact List.mem_singleton.mp hr ▸ hx

/-- **An inert element** is not initialized with the tree of another. -/
theorem isInitialized_initTree_of_inert (h : d.isInert x = true) :
    (d.initTree el).isInitialized x = d.isInitialized x := by
  rw [initTree]
  split
  · rfl
  · have hout : x ∉ d.subtree Element.inert el := by
      intro hx
      rw [(reached_of_mem_subtree hx).isInert] at h
      cases h
    have hset := isInitialized_setInitialized (d := d) (x := x) true (d.subtree Element.inert el)
    rw [Bool.eq_iff_iff]
    refine Iff.trans hset ?_
    simp [hout]

/-- What is initialized when a tree has been destroyed was so before. -/
theorem isInitialized_of_destroyTree (h : (d.destroyTree el).isInitialized x = true) :
    d.isInitialized x = true := by
  have hset := isInitialized_setInitialized (d := d) (x := x) false (d.subtree (fun _ => false) el)
  rcases hset.mp h with ⟨-, hvalue, -⟩ | ⟨-, hx⟩
  · cases hvalue
  · exact hx

/-- **Inert elements are withheld**: they stay inert, and they are initialized only if they are so
already. -/
structure Withholds (d d' : Document) : Prop where
  inert : ∀ x, d.isInert x = true → d'.isInert x = true
  initialized : ∀ x, d.isInert x = true → d'.isInitialized x = true → d.isInitialized x = true

theorem Withholds.refl (d : Document) : Withholds d d :=
  ⟨fun _ h => h, fun _ _ h => h⟩

theorem Withholds.not_initialized (h : Withholds d d') (hinert : d.isInert x = true)
    (hx : d.isInitialized x = false) : d'.isInitialized x = false := by
  rw [← Bool.not_eq_true]
  intro hnow
  rw [h.initialized x hinert hnow] at hx
  cases hx

theorem withholds_of_elements (h : d'.elements = d.elements) : Withholds d d' := by
  have helement : ∀ x, d'.element? x = d.element? x := fun x => by
    rw [element?, element?, h]
  refine ⟨fun x hx => ?_, fun x _ hx => ?_⟩
  · rwa [isInert, helement, ← isInert]
  · rwa [isInitialized, helement, ← isInitialized] at hx

theorem withholds_initTree (d : Document) (el : ElementRef) : Withholds d (d.initTree el) where
  inert _ hx := isInert_initTree.trans hx
  initialized _ hx hinit := (isInitialized_initTree_of_inert hx).symm.trans hinit

theorem withholds_destroyTree (d : Document) (el : ElementRef) :
    Withholds d (d.destroyTree el) where
  inert _ hx := isInert_destroyTree.trans hx
  initialized _ _ hinit := isInitialized_of_destroyTree hinit

theorem withholds_markInert (d : Document) (el : ElementRef) : Withholds d (d.markInert el) where
  inert _ hx := isInert_markInert.mpr (.inl hx)
  initialized _ _ hinit := isInitialized_markInert.symm.trans hinit

theorem withholds_add (d : Document) (parent : Option ElementRef)
    (attributes : List (String × String)) : Withholds d (d.add parent attributes).2 := by
  have hkept : ∀ x, d.isInert x = true →
      (d.add parent attributes).2.element? x = d.element? x := fun x hx =>
    List.getElem?_append_left (exists_iff.mp (isInert_exists hx))
  refine ⟨fun x hx => ?_, fun x hx hinit => ?_⟩
  · rw [Document.isInert, hkept x hx]
    exact hx
  · rw [Document.isInitialized, hkept x hx] at hinit
    exact hinit

end Document

namespace Page

variable {p q r : Page} {el x : ElementRef} {component : ComponentHandle} {i call : Nat} {t : Task}
  {outcome : Outcome} {actions : List Action} {l : Lookup}

/-- **Every command** withholds inert elements, unless it takes a mark away; waiting lets the calls
have turns. -/
theorem withholds_perform (p : Page) (command : Command)
    (hwait : ∀ duration, command ≠ .wait duration) (hclear : ∀ el, command ≠ .clearInert el) :
    p.document.Withholds (p.perform command).2.document := by
  have hrecords : ∀ {q : Page}, q.records = p.records → p.document.Withholds q.document := fun hq =>
    Document.withholds_of_elements (congrArg Records.elements hq)
  have hdocument : ∀ {q : Page}, q.document = p.document → p.document.Withholds q.document :=
    fun hq => hq ▸ .refl _
  cases command with
  | addElement parent attributes => exact Document.withholds_add p.document parent attributes
  | discover el =>
    show p.document.Withholds (p.discover el).2.document
    rw [discover]
    split
    · exact .refl _
    · exact Document.withholds_markInert p.document el
  | handle el => exact hdocument (document_enqueue _)
  | activate el => exact hdocument (document_enqueue _)
  | abort task => exact hdocument document_abort
  | mergeOptions update =>
    rw [perform]
    split
    · exact hdocument rfl
    · exact hdocument rfl
  | registerUrl name url =>
    rw [perform]
    split
    · exact hdocument rfl
    · exact hdocument rfl
  | publish e => exact hrecords (records_publish e)
  | setVisible el on => exact hrecords (records_setVisible el on)
  | setMedia query on => exact hrecords (records_setMedia query on)
  | triggerIdle => exact hrecords records_triggerIdle
  | setCloning on => exact Document.withholds_of_elements rfl
  | initTree el => exact Document.withholds_initTree p.document el
  | destroyTree el => exact Document.withholds_destroyTree p.document el
  | markInert el => exact Document.withholds_markInert p.document el
  | clearInert el => exact absurd rfl (hclear el)
  | wait duration => exact absurd rfl (hwait duration)
  | _ => exact hdocument rfl

/-! ## Elements that are held back -/

/-- **An element is held back**: if it is known and not activated it is inert and not
initialized. -/
def HeldBack (p : Page) (el : ElementRef) : Prop :=
  ∀ s, p.state? el = some s → s ≠ .activated →
    p.document.isInert el = true ∧ p.document.isInitialized el = false

/-- Nothing that activation does to a document initializes an inert element or takes its mark away,
short of handing it back. -/
theorem lasting_heldBack : Lasting el fun d => d.isInert el = true ∧ d.isInitialized el = false := by
  have hkeeps : ∀ {d d' : Document}, d.Withholds d' →
      d.isInert el = true ∧ d.isInitialized el = false →
      d'.isInert el = true ∧ d'.isInitialized el = false := fun h hd =>
    ⟨h.inert el hd.1, h.not_initialized hd.1 hd.2⟩
  refine ⟨fun h => hkeeps (Document.withholds_of_elements h),
    fun {d} x => hkeeps (Document.withholds_markInert d x), fun {d} x hx hd => ⟨?_, ?_⟩,
    fun {d} x => hkeeps (Document.withholds_initTree d x)⟩
  · exact Document.isInert_release.mpr ⟨hd.1, Ne.symm hx⟩
  · rw [Document.release, Document.isInitialized_clearInert]
    exact (Document.withholds_destroyTree d x).not_initialized hd.1 hd.2

/-! ## Courses -/

/-- **An element is discovered in time**: it exists when its record is made, and until then it is
not initialized. -/
structure InTime (p : Page) (actions : List Action) (el : ElementRef) : Prop where
  free : ∀ before, before <+: actions → (p.course before).component? el = none →
    (p.course before).document.isInitialized el = false
  present : ∀ before a, before ++ [a] <+: actions → (p.course before).component? el = none →
    ((p.course (before ++ [a])).component? el).isSome → (p.course before).document.Exists el

theorem InTime.earlier {before : List Action} (h : p.InTime actions el)
    (hbefore : before <+: actions) : p.InTime before el where
  free before' hearlier := h.free before' (hearlier.trans hbefore)
  present before' a hearlier := h.present before' a (hearlier.trans hbefore)

/-- **An element that is discovered in time** is held back along a course. -/
theorem heldBack_course (hintime : p.InTime actions el)
    (houtside : ∀ before change, before ++ [.outside change] <+: actions →
      (p.course before).document.Withholds (change (p.course before)).document) :
    HeldBack (p.course actions) el := by
  refine guarded_course lasting_heldBack (fun before a h hnone hsome => ⟨?_, ?_⟩)
    fun before change h hd => ⟨?_, ?_⟩
  · exact Document.isInert_markInert.mpr (.inr ⟨rfl, hintime.present before a h hnone hsome⟩)
  · rw [Document.isInitialized_markInert]
    exact hintime.free before ((List.prefix_append _ _).trans h) hnone
  · exact (houtside before change h).inert el hd.1
  · exact (houtside before change h).not_initialized hd.1 hd.2

/-! ## Calls that have looked something up -/

/-- What is looked up is looked up in the first turn of a call that works on the element. -/
theorem first_turn_of_mem_lookupsOf {a : Action} (h : l ∈ p.lookupsOf a) :
    (l.call, l.element) ∈ p.workOf a ∧
      ∃ t discovers, p.tasks[l.call]? = some t ∧ t.status = .fresh discovers := by
  cases a with
  | turn call =>
    rw [lookupsOf] at h
    rw [workOf, worksOn?]
    cases ht : p.tasks[call]? with
    | none =>
      rw [ht] at h
      cases h
    | some t =>
      rw [ht] at h
      dsimp only at h ⊢
      by_cases hcancelled : t.cancelled = true
      · rw [if_pos hcancelled] at h
        cases h
      · rw [if_neg hcancelled] at h ⊢
        cases hstatus : t.status with
        | fresh discovers =>
          rw [hstatus] at h
          obtain ⟨rfl, helement, hclaim⟩ := lookUp?_eq_some (Option.mem_toList.mp h)
          dsimp only
          rw [if_pos hclaim, helement]
          exact ⟨List.mem_singleton_self _, t, discovers, ht, hstatus⟩
        | _ =>
          rw [hstatus] at h
          cases h
  | _ => cases h

/-- A call that has handed its element back does not look up anything any more. -/
theorem mem_lookups_of_delivered {before : List Action} (hbefore : before <+: actions)
    (hdelivered : (l.call, el, outcome) ∈ p.deliveries before) (hl : l ∈ p.lookups actions) :
    l ∈ p.lookups before := by
  obtain ⟨earlier, a, after, rfl, hmem⟩ := exists_of_mem_trace hl
  have hnow : l ∈ p.lookups (earlier ++ [a]) := by
    rw [lookups_concat]
    exact List.mem_append_right _ hmem
  have hearlier : earlier ++ [a] <+: earlier ++ a :: after := ⟨after, List.append_assoc ..⟩
  have hlate : earlier ++ [a] <+: before := by
    rcases List.prefix_or_prefix_of_prefix hbefore hearlier with h | h
    · rcases List.prefix_concat_iff.mp h with rfl | h
      · exact List.prefix_rfl
      · -- The call would have ended before its first turn.
        obtain ⟨-, t, discovers, ht, hfresh⟩ := first_turn_of_mem_lookupsOf hmem
        have hdone : (l.call, el, outcome) ∈ p.deliveries earlier :=
          mem_trace_of_prefix h hdelivered
        obtain ⟨-, u, hu, -, hended⟩ := ((kept_course p earlier).delivered _ _ _).mp hdone
        obtain rfl : t = u := Option.some.inj (ht.symm.trans hu)
        rw [hfresh] at hended
        cases hended
    · exact h
  exact mem_trace_of_prefix hlate hnow

variable {found : List Lookup} {log : List (Nat × ElementRef)}
  {handed : List (Nat × ElementRef × Outcome)}

/-- **A call that has handed its element back** has brought what it has looked up. -/
theorem Promised.binds (h : Promised found p) (hkept : Kept log handed p) (hl : l ∈ found)
    (hdelivered : (l.call, el, outcome) ∈ handed) : Binds l.module l.name p.document.bindings := by
  obtain ⟨t, ht, -, hbrings⟩ := h.brings l hl
  obtain ⟨-, u, hu, -, hended⟩ := (hkept.delivered _ _ _).mp hdelivered
  obtain rfl : t = u := Option.some.inj (ht.symm.trans hu)
  rw [hended] at hbrings
  exact hbrings

/-- What has been looked up for an element is bound once the element has been handed back. -/
theorem binds_of_delivered {before : List Action} (hstart : p.stock.Sound)
    (houtside : ∀ before change, before ++ [.outside change] <+: actions →
      Undisturbed (p.course before) (change (p.course before)))
    (hbefore : before <+: actions) (hdelivered : (call, el, outcome) ∈ p.deliveries before)
    (hl : l ∈ p.lookups actions) (hel : l.element = el) :
    Binds l.module l.name (p.course before).document.bindings := by
  have hlooked : (l.call, el) ∈ p.work actions := by
    obtain ⟨earlier, a, after, rfl, hmem⟩ := exists_of_mem_trace hl
    have hwork := (first_turn_of_mem_lookupsOf hmem).1
    rw [work, trace_append, trace]
    exact hel ▸ List.mem_append_right _ (List.mem_append_left _ hwork)
  have hworked : (call, el) ∈ p.work actions := by
    obtain ⟨houtcome, hreturned⟩ := mem_deliveries.mp hdelivered
    exact mem_trace_of_prefix hbefore (hreturned.mem_work (by simpa using houtcome))
  obtain rfl : l.call = call := (kept_course p actions).once _ _ el hlooked hworked
  have hpromised : Promised (p.lookups before) (p.course before) := promised_course hstart
    fun before' change h => houtside before' change (h.trans hbefore)
  exact hpromised.binds (kept_course p before) (mem_lookups_of_delivered hbefore hdelivered hl)
    hdelivered

/-! ## Handing back -/

theorem Progress.exists_handBack {turn : TaskStatus × Page} (h : Progress p component turn)
    (ht : p.tasks[i]? = some t) (houtcome : (turn.2.setStatus i turn.1).outcome? i = some outcome) :
    ∃ q : Page, q.document.journal = p.document.journal ∧
      q.document.bindings = (turn.2.setStatus i turn.1).document.bindings ∧
      turn.2.setStatus i turn.1 =
        (q.handBack component.element).2.setStatus i (.ended (.ok outcome)) := by
  rw [outcome?_setStatus (h.tasks ▸ ht)] at houtcome
  cases h with
  | failed hq => cases houtcome
  | waiting hq => cases houtcome
  | @done q hq =>
    cases houtcome
    exact ⟨q, congrArg Records.journal hq, (congrArg Stock.bindings stock_handBack).symm, rfl⟩

/-- **An element is handed back** at the end of a turn: until then nothing is destroyed or
initialized, and from then on nothing is bound. -/
theorem exists_handBack (h : (call, el, outcome) ∈ p.deliveriesOf (.turn call)) :
    ∃ q : Page, q.document.journal = p.document.journal ∧
      q.document.bindings = (p.runTask call).document.bindings ∧
      p.runTask call = (q.handBack el).2.setStatus call (.ended (.ok outcome)) := by
  have hturn := turn_cases p call
  rw [deliveriesOf, delivery.eq_def] at h
  split at h
  · next el' outcome' hworked houtcome =>
    cases List.mem_singleton.mp h
    rw [hworked] at hturn
    generalize p.runTask call = after at hturn houtcome ⊢
    cases hturn with
    | @begins t discovers _ _ _ _ _ ht _ _ _ hcomponent hprogress =>
      obtain ⟨q, hjournal, hbindings, hhanded⟩ :=
        hprogress.exists_handBack ((tasks_prepared discovers).symm ▸ ht) houtcome
      exact ⟨q, hjournal.trans (journal_prepared discovers), hbindings, hcomponent ▸ hhanded⟩
    | resumes ht _ hprogress => exact hprogress.exists_handBack ht houtcome
  · cases h

theorem deliveries_concat (p : Page) (actions : List Action) (a : Action) :
    p.deliveries (actions ++ [a]) = p.deliveries actions ++ (p.course actions).deliveriesOf a :=
  trace_concat ..

/-- **Data is bound before initialization.**  On a page whose loaded modules are bound, whatever the
calls do and whatever else happens that leaves downloads undisturbed, consider what a call has
looked up for its element, unless it is a module without exports.

* Before the element is destroyed, loses its inert mark and is possibly initialized, in the turn in
  which the call hands it back, the data of the module is bound under the name.
* If nothing that happens initializes inert elements or takes their marks away, and the element is
  discovered in time, then the data is bound at every moment at which the element is
  initialized, be it by its own activation or with the tree of an ancestor. -/
theorem binds_before_initialization (p : Page) (actions : List Action) (hstart : p.stock.Sound)
    (houtside : ∀ before change, before ++ [.outside change] <+: actions →
      Undisturbed (p.course before) (change (p.course before))) :
    (∀ before call el outcome, before ++ [.turn call] <+: actions →
      (call, el, outcome) ∈ (p.course before).deliveriesOf (.turn call) →
      ∃ q : Page, q.document.journal = (p.course before).document.journal ∧
        (p.course before).runTask call = (q.handBack el).2.setStatus call (.ended (.ok outcome)) ∧
        ∀ l ∈ p.lookups actions, l.element = el → l.module ≠ .exports [] →
          ∃ data, l.module.select l.name = some data ∧ (l.name, data) ∈ q.document.bindings) ∧
    ((∀ before change, before ++ [.outside change] <+: actions →
        (p.course before).document.Withholds (change (p.course before)).document) →
      ∀ l ∈ p.lookups actions, l.module ≠ .exports [] → p.InTime actions l.element →
        ∀ before, before <+: actions →
          (p.course before).document.isInitialized l.element = true →
          ∃ data, l.module.select l.name = some data ∧
            (l.name, data) ∈ (p.course before).document.bindings) := by
  refine ⟨fun before call el outcome hbefore hdelivered => ?_,
    fun hwithholds l hl hmodule hintime before hbefore hinitialized => ?_⟩
  · obtain ⟨q, hjournal, hbindings, hrun⟩ := exists_handBack hdelivered
    refine ⟨q, hjournal, hrun, fun l hl hel hmodule => ?_⟩
    have hhanded : (call, el, outcome) ∈ p.deliveries (before ++ [.turn call]) := by
      rw [deliveries_concat]
      exact List.mem_append_right _ hdelivered
    have hbinds := binds_of_delivered hstart houtside hbefore hhanded hl hel
    rw [course_concat] at hbinds
    rw [hbindings]
    exact hbinds.exists_data hmodule
  · have hheld : HeldBack (p.course before) l.element :=
      heldBack_course (hintime.earlier hbefore) fun before' change h =>
        hwithholds before' change (h.trans hbefore)
    cases hstate : (p.course before).state? l.element with
    | none =>
      rw [hintime.free before hbefore (state?_eq_none.mp hstate)] at hinitialized
      cases hinitialized
    | some s =>
      by_cases hactivated : s = .activated
      · obtain ⟨call, outcome, hdelivered⟩ :=
          ((kept_course p before).activated l.element).mp (hactivated ▸ hstate)
        exact (binds_of_delivered hstart houtside hbefore hdelivered hl rfl).exists_data hmodule
      · rw [(hheld s hstate hactivated).2] at hinitialized
        cases hinitialized

/-- A page with an element in another one, for which a module has been registered. -/
def boxInTab : Page :=
  { document := { elements := [{ parent := none, attributes := [("x-data", "tab")] },
      { parent := some ⟨0⟩, attributes := [("x-data", "box")] }] }
    modules :=
      ModuleTable.register { join := Url.joinTexts } "tab" ⟨some 20, .ok (.component (.int 2))⟩ }

/-- A command is carried out. -/
def commanded (command : Command) (p : Page) : Page :=
  (p.perform command).2

/-- The source of the inner element's module is set late.  The inner element is handed back first,
and the outer one initializes both. -/
def boxBeforeTab : List Action :=
  [.discover ⟨0⟩, .discover ⟨1⟩, .outside (commanded (.initTree ⟨0⟩)), .activate ⟨0⟩, .activate ⟨1⟩,
    .turn 0, .outside (commanded (.setAlias (.source ⟨some 10, .ok (.component (.int 1))⟩))), .turn 1,
    .outside (·.setClock 10), .turn 1, .outside (·.setClock 20), .turn 0]

/-- What happens on the page besides activation leaves downloads undisturbed and withholds inert
elements. -/
theorem undisturbed_boxBeforeTab {change : Page → Page} (h : .outside change ∈ boxBeforeTab)
    (p : Page) : Undisturbed p (change p) ∧ p.document.Withholds (change p).document := by
  have hclock : ∀ time, Undisturbed p (p.setClock time) ∧
      p.document.Withholds (p.setClock time).document := fun time =>
    ⟨undisturbed_of_stock (stock_wake _),
      Document.withholds_of_elements (congrArg Records.elements (records_setClock time))⟩
  simp only [boxBeforeTab, List.mem_cons, Action.outside.injEq, List.not_mem_nil, or_false,
    reduceCtorEq, false_or] at h
  rcases h with rfl | rfl | rfl | rfl
  · exact ⟨undisturbed_perform p _ nofun nofun, withholds_perform p _ nofun nofun⟩
  · exact ⟨undisturbed_perform p _ nofun nofun, withholds_perform p _ nofun nofun⟩
  · exact hclock 10
  · exact hclock 20

/-- The inner element is handed back when its data is bound, and it is initialized with the outer
element. -/
theorem binds_before_initialization_boxInTab :
    let p := boxInTab
    p.stock.Sound ∧
    (∀ before change, before ++ [.outside change] <+: boxBeforeTab →
      Undisturbed (p.course before) (change (p.course before))) ∧
    (∀ before change, before ++ [.outside change] <+: boxBeforeTab →
      (p.course before).document.Withholds (change (p.course before)).document) ∧
    (p.course boxBeforeTab).document.isInitialized ⟨1⟩ = true ∧
    ∃ l ∈ p.lookups boxBeforeTab, l.element = ⟨1⟩ ∧ l.module ≠ .exports [] ∧
      p.InTime boxBeforeTab l.element ∧
      (∃ before, before ++ [.turn 1] <+: boxBeforeTab ∧
        (1, ⟨1⟩, .nested) ∈ (p.course before).deliveriesOf (.turn 1) ∧
        ∃ (q : Page) (data : Data), q.document.journal = (p.course before).document.journal ∧
          (p.course before).runTask 1 = (q.handBack ⟨1⟩).2.setStatus 1 (.ended (.ok .nested)) ∧
          (l.name, data) ∈ q.document.bindings) ∧
      ∀ before, before <+: boxBeforeTab → (p.course before).document.isInitialized ⟨1⟩ = true →
        ∃ data, (l.name, data) ∈ (p.course before).document.bindings := by
  intro p
  have hstart : p.stock.Sound := Stock.sound_of_unloaded fun name origin he => by
    have hentry : ModuleTable.entry? (ModuleTable.register { join := Url.joinTexts } "tab" _) name =
        some ⟨origin, true⟩ :=
      he
    rw [ModuleTable.entry?_register] at hentry
    split at hentry
    · cases hentry
    · cases hentry
  have hchanges : ∀ before change, before ++ [.outside change] <+: boxBeforeTab →
      Undisturbed (p.course before) (change (p.course before)) ∧
        (p.course before).document.Withholds (change (p.course before)).document :=
    fun before change h => undisturbed_boxBeforeTab
      (h.subset (List.mem_append_right _ (List.mem_singleton_self _))) (p.course before)
  have hintime : p.InTime boxBeforeTab ⟨1⟩ := by
    have hmoments : ∀ before ∈ boxBeforeTab.inits,
        ((p.course before).component? ⟨1⟩ = none →
          (p.course before).document.isInitialized ⟨1⟩ = false) ∧
        ((p.course before).document.element? ⟨1⟩).isSome := by decide +kernel
    exact ⟨fun before h => (hmoments before ((List.mem_inits _ _).mpr h)).1,
      fun before a h _ _ => (hmoments before ((List.mem_inits _ _).mpr
        ((List.prefix_append _ _).trans h))).2⟩
  obtain ⟨l, hl, hel, hsome⟩ : ∃ l ∈ p.lookups boxBeforeTab, l.element = ⟨1⟩ ∧
      (l.module.select l.name).isSome := by decide +kernel
  have hmodule : l.module ≠ .exports [] := by
    intro hnone
    rw [hnone] at hsome
    cases hsome
  have hturn : boxBeforeTab.take 9 ++ [.turn 1] <+: boxBeforeTab := ⟨boxBeforeTab.drop 10, rfl⟩
  have hdelivered : (1, ⟨1⟩, .nested) ∈
      (p.course (boxBeforeTab.take 9)).deliveriesOf (.turn 1) := by decide +kernel
  obtain ⟨hhanded, hinitialized⟩ := binds_before_initialization p boxBeforeTab hstart
    fun before change h => (hchanges before change h).1
  obtain ⟨q, hjournal, hrun, hbinds⟩ := hhanded _ 1 ⟨1⟩ .nested hturn hdelivered
  obtain ⟨data, -, hdata⟩ := hbinds l hl hel hmodule
  refine ⟨hstart, fun before change h => (hchanges before change h).1,
    fun before change h => (hchanges before change h).2, by decide +kernel, l, hl, hel, hmodule,
    hel ▸ hintime, ⟨_, hturn, hdelivered, q, data, hjournal, hrun, hdata⟩, fun before h hinit => ?_⟩
  obtain ⟨data', -, hdata'⟩ := hinitialized (fun before change h => (hchanges before change h).2)
    l hl hmodule (hel ▸ hintime) before h (hel ▸ hinit)
  exact ⟨data', hdata'⟩

end Page

end Hydration
