import Hydration.Proofs.Scenario.Ending
import Hydration.Url.Parse

/-!
# Coherent reports

A report is put together from five parts of a page: the tasks, the components, the marks of
the elements, the journal and the initialized flags.  A report is `Coherent` if what these parts say
of one element fits together, and every run that gives a report gives a coherent one
(`coherent_of_run`).

Each part is read off the page at the end of the run.  There the page is attended to, so a task
has an outcome exactly if its element is activated.  The flags follow the states of the elements,
and the journal consists of one block for each task with an outcome, behind the roots that were
initialized at the beginning (`followed_of_split`, `count_destroyed`).
-/

namespace Hydration

/-! ## The journal -/

namespace Page

variable {noted : List ElementRef} {handed : List (Nat × ElementRef × Outcome)} {el x : ElementRef}
  {before after : List TreeChange}

theorem head?_blocks (h : ∀ d ∈ handed, d.2.2 ≠ .skipped) :
    (blocks handed).head? ≠ some (.initialized x) := by
  cases handed with
  | nil => nofun
  | cons d rest =>
    obtain ⟨i, y, outcome⟩ := d
    cases outcome with
    | activated => nofun
    | nested => nofun
    | skipped => exact absurd rfl (h _ List.mem_cons_self)

/-- **What follows on a destroyed tree** among the blocks: the same tree is initialized exactly if
this is the outcome. -/
theorem followed_of_split_blocks (hnot : ∀ d ∈ handed, d.2.2 ≠ .skipped)
    (h : blocks handed = before ++ .destroyed el :: after) :
    ∃ i outcome, (i, el, outcome) ∈ handed ∧
      ∀ x, after.head? = some (.initialized x) ↔ x = el ∧ outcome = .activated := by
  induction handed generalizing before with
  | nil => cases before <;> cases h
  | cons d rest ih =>
    obtain ⟨i, y, outcome⟩ := d
    have hrest : ∀ d ∈ rest, d.2.2 ≠ .skipped := fun d hd => hnot d (List.mem_cons_of_mem _ hd)
    have hlater : ∀ {before' : List TreeChange},
        blocks rest = before' ++ .destroyed el :: after →
        ∃ i' outcome', (i', el, outcome') ∈ (i, y, outcome) :: rest ∧
          ∀ x, after.head? = some (.initialized x) ↔ x = el ∧ outcome' = .activated := by
      intro before' h
      obtain ⟨i', outcome', hmem, hafter⟩ := ih hrest h
      exact ⟨i', outcome', List.mem_cons_of_mem _ hmem, hafter⟩
    cases outcome with
    | skipped => exact absurd rfl (hnot _ List.mem_cons_self)
    | nested =>
      have h : .destroyed y :: blocks rest = before ++ .destroyed el :: after := h
      cases before with
      | nil =>
        obtain ⟨hy, rfl⟩ := List.cons.inj h
        obtain rfl := TreeChange.destroyed.inj hy
        exact ⟨i, .nested, List.mem_cons_self, fun x =>
          iff_of_false (head?_blocks hrest) fun hx => nomatch hx.2⟩
      | cons b before => exact hlater (List.cons.inj h).2
    | activated =>
      have h : .destroyed y :: .initialized y :: blocks rest = before ++ .destroyed el :: after := h
      cases before with
      | nil =>
        obtain ⟨hy, rfl⟩ := List.cons.inj h
        obtain rfl := TreeChange.destroyed.inj hy
        refine ⟨i, .activated, List.mem_cons_self, fun x => ?_⟩
        rw [List.head?_cons, Option.some.injEq, TreeChange.initialized.injEq, and_iff_left rfl,
          eq_comm]
      | cons b before =>
        cases before with
        | nil => cases (List.cons.inj (List.cons.inj h).2).1
        | cons b' before => exact hlater (List.cons.inj (List.cons.inj h).2).2

/-- What is noted before the first block does not matter. -/
theorem followed_of_split (hnot : ∀ d ∈ handed, d.2.2 ≠ .skipped)
    (h : noted.map .initialized ++ blocks handed = before ++ .destroyed el :: after) :
    ∃ i outcome, (i, el, outcome) ∈ handed ∧
      ∀ x, after.head? = some (.initialized x) ↔ x = el ∧ outcome = .activated := by
  induction noted generalizing before with
  | nil => exact followed_of_split_blocks hnot h
  | cons n noted ih =>
    cases before with
    | nil => cases (List.cons.inj h).1
    | cons b before => exact ih (List.cons.inj h).2

end Page

namespace Scenario

variable {s : Scenario} {join : Url.Joiner} {p q : Page} {el x : ElementRef} {change : TreeChange}
  {key : String}

theorem journalLine_destroyed : s.journalLine (.destroyed el) = s!"destroy {key}" ↔
    s.keyOf el = key :=
  String.append_right_inj "destroy "

theorem journalLine_initialized : s.journalLine (.initialized el) = s!"init {key}" ↔
    s.keyOf el = key :=
  String.append_right_inj "init "

theorem initLine_ne_destroyLine (key other : String) : s!"init {key}" ≠ s!"destroy {other}" := by
  intro h
  have hhead := congrArg (fun line : String => line.toList.head?) h
  have hinit : ("init " ++ key).toList.head? = some 'i' := by rw [String.toList_append]; rfl
  have hdestroy : ("destroy " ++ other).toList.head? = some 'd' := by rw [String.toList_append]; rfl
  rw [show s!"init {key}" = "init " ++ key from rfl, hinit,
    show s!"destroy {other}" = "destroy " ++ other from rfl, hdestroy] at hhead
  cases hhead

/-- A line that tells of a destroyed tree. -/
theorem eq_destroyed_of_line (h : s.journalLine change = s!"destroy {key}") :
    ∃ el, change = .destroyed el ∧ s.keyOf el = key := by
  cases change with
  | destroyed el => exact ⟨el, rfl, journalLine_destroyed.mp h⟩
  | initialized el => exact absurd h (initLine_ne_destroyLine _ _)

/-- A line that tells of an initialized tree. -/
theorem eq_initialized_of_line (h : s.journalLine change = s!"init {key}") :
    ∃ el, change = .initialized el ∧ s.keyOf el = key := by
  cases change with
  | destroyed el => exact absurd h.symm (initLine_ne_destroyLine _ _)
  | initialized el => exact ⟨el, rfl, journalLine_initialized.mp h⟩

/-- **How often a tree is destroyed** is told by the blocks alone. -/
theorem count_destroyed (noted : List ElementRef) {handed : List (Nat × ElementRef × Outcome)}
    (hnot : ∀ d ∈ handed, d.2.2 ≠ .skipped) (key : String) :
    ((noted.map TreeChange.initialized ++ Page.blocks handed).map s.journalLine).count
        s!"destroy {key}" =
      (handed.map fun d => s.keyOf d.2.1).count key := by
  have hinit : ∀ y, s.journalLine (.initialized y) ≠ s!"destroy {key}" := fun y =>
    initLine_ne_destroyLine _ _
  have hroots :
      ((noted.map TreeChange.initialized).map s.journalLine).count s!"destroy {key}" = 0 := by
    rw [List.count_eq_zero, List.map_map, List.mem_map]
    rintro ⟨y, -, hy⟩
    exact hinit y hy
  rw [List.map_append, List.count_append, hroots, Nat.zero_add]
  induction handed with
  | nil => rfl
  | cons d rest ih =>
    obtain ⟨i, y, outcome⟩ := d
    have hstep : (s.journalLine (.destroyed y) == s!"destroy {key}") = (s.keyOf y == key) := by
      rw [Bool.eq_iff_iff, beq_iff_eq, beq_iff_eq]
      exact journalLine_destroyed
    have hrest := ih fun d hd => hnot d (List.mem_cons_of_mem _ hd)
    rw [List.map_cons, List.count_cons, ← hrest]
    cases outcome with
    | skipped => exact absurd rfl (hnot _ List.mem_cons_self)
    | nested =>
      show (s.journalLine (.destroyed y) :: (Page.blocks rest).map s.journalLine).count _ = _
      rw [List.count_cons, hstep]
    | activated =>
      show (s.journalLine (.destroyed y) :: s.journalLine (.initialized y) ::
        (Page.blocks rest).map s.journalLine).count _ = _
      rw [List.count_cons, List.count_cons_of_ne (hinit y), hstep]

/-! ## Reports -/

/-- **A report is coherent** if all that it says of an element fits together. -/
structure Coherent (s : Scenario) (r : Report) : Prop where
  /-- There is one entry for each deferred element, in document order. -/
  components : r.components.map (·.key) = (s.elements.filter (·.load.isSome)).map (·.key)
  distinct : (r.components.map (·.key)).Nodup
  /-- An outcome goes with an activated element, and with one that is not inert. -/
  activated : ∀ c ∈ r.components, c.outcome.isSome ↔ c.state = some .activated
  free : ∀ c ∈ r.components, c.outcome.isSome ↔ c.inert = false
  finished : ∀ c ∈ r.components, ∀ outcome, c.outcome = some outcome →
    c.error = none ∧ (outcome = .activated ∨ outcome = .nested)
  /-- What has failed waits for ever. -/
  failed : ∀ c ∈ r.components, c.error.isSome →
    c.outcome = none ∧ c.inert = true ∧ c.state = some .awaitingRequirements
  /-- Exactly the trees of the elements with an outcome are destroyed, and once each. -/
  destroyed : ∀ key, r.journal.count s!"destroy {key}" =
    if ∃ c ∈ r.components, c.key = key ∧ c.outcome.isSome then 1 else 0
  /-- What follows at once tells the outcome. -/
  followed : ∀ c ∈ r.components, ∀ before after,
    r.journal = before ++ s!"destroy {c.key}" :: after →
    (after.head? = some s!"init {c.key}" ↔ c.outcome = some .activated)
  /-- The initialized elements are listed in document order. -/
  ordered : r.initialized.Sublist (s.elements.map (·.key))
  initialized : ∀ e ∈ s.elements, e.key ∈ r.initialized ↔
    ∀ a, s.Within a e → a.load.isSome → ∃ c ∈ r.components, c.key = a.key ∧ c.outcome.isSome

theorem outcome_reportOn {status : TaskStatus} :
    (s.reportOn q el status).outcome = Page.outcomeOf status := by
  cases status with
  | ended result => cases result <;> rfl
  | fresh discovers => rfl
  | awaiting component name requirement download => rfl
  | dropped => rfl

theorem status_of_error {status : TaskStatus} (h : (s.reportOn q el status).error.isSome) :
    ∃ failure, status = .ended (.error failure) := by
  cases status with
  | ended result =>
    cases result with
    | ok outcome => cases h
    | error failure => exact ⟨failure, rfl⟩
  | fresh discovers => cases h
  | awaiting component name requirement download => cases h
  | dropped => cases h

theorem Ending.exists_element {i : ℕ} {t : Task} (h : Ending s join p q)
    (ht : q.tasks[i]? = some t) :
    ∃ e, s.elements[t.element.index]? = some e ∧ e.load.isSome := by
  have hmem : t.element ∈ q.tasks.map (·.element) := List.mem_map_of_mem (List.mem_of_getElem? ht)
  rw [h.attended.elements] at hmem
  exact mem_deferred.mp hmem

/-- An entry of a report is made of a task. -/
theorem exists_task {c : ComponentReport} (hc : c ∈ (s.report q).components) :
    ∃ (i : ℕ) (t : Task), q.tasks[i]? = some t ∧ c = s.reportOn q t.element t.status := by
  obtain ⟨t, ht, rfl⟩ := List.mem_map.mp hc
  obtain ⟨i, hi⟩ := List.getElem?_of_mem ht
  exact ⟨i, t, hi, rfl⟩

/-- Tasks are told apart by the keys of their elements. -/
theorem Ending.task_unique {i j : ℕ} {t u : Task} (h : Ending s join p q)
    (ht : q.tasks[i]? = some t) (hu : q.tasks[j]? = some u)
    (hkey : s.keyOf t.element = s.keyOf u.element) : t = u := by
  obtain ⟨e, he, -⟩ := h.exists_element ht
  obtain ⟨f, hf, -⟩ := h.exists_element hu
  obtain rfl := h.attended.distinct ht hu (eq_of_keyOf h.keys he hf hkey)
  exact Option.some.inj (ht.symm.trans hu)

/-- An element of a task is released exactly if it is activated. -/
theorem Ending.inert_iff {i : ℕ} {t : Task} (h : Ending s join p q) (ht : q.tasks[i]? = some t) :
    q.document.isInert t.element = false ↔ q.state? t.element = some .activated := by
  have hmem : t.element ∈ s.deferred :=
    h.attended.elements ▸ List.mem_map_of_mem (List.mem_of_getElem? ht)
  rw [← Bool.not_eq_true, h.attended.sound.marked.inert, not_and, not_not]
  exact ⟨fun hstate => hstate hmem, fun hstate _ => hstate⟩

/-- **An activated element** is one whose entry has an outcome. -/
theorem Ending.activated_iff {e : ElementSpec} (h : Ending s join p q)
    (he : s.elements[el.index]? = some e) (hload : e.load.isSome) :
    q.state? el = some .activated ↔
      ∃ c ∈ (s.report q).components, c.key = e.key ∧ c.outcome.isSome := by
  have hel : el ∈ q.tasks.map (·.element) := by
    rw [h.attended.elements]
    exact mem_deferred.mpr ⟨e, he, hload⟩
  obtain ⟨t, ht, rfl⟩ := List.mem_map.mp hel
  obtain ⟨i, hi⟩ := List.getElem?_of_mem ht
  rw [← h.attended.outcome_iff hi]
  constructor
  · intro hsome
    exact ⟨_, List.mem_map_of_mem ht, keyOf_eq he, outcome_reportOn ▸ hsome⟩
  · rintro ⟨c, hc, hkey, hsome⟩
    obtain ⟨j, u, hu, rfl⟩ := exists_task hc
    obtain rfl := h.task_unique hi hu ((keyOf_eq he).trans hkey.symm)
    exact outcome_reportOn ▸ hsome

/-- What has been handed back are the elements whose entries have an outcome. -/
theorem Ending.mem_handed_iff {log : List (ℕ × ElementRef)}
    {handed : List (ℕ × ElementRef × Outcome)} (h : Ending s join p q)
    (hkept : Page.Kept log handed q) :
    key ∈ handed.map (fun d => s.keyOf d.2.1) ↔
      ∃ c ∈ (s.report q).components, c.key = key ∧ c.outcome.isSome := by
  rw [List.mem_map]
  constructor
  · rintro ⟨⟨i, el, outcome⟩, hmem, rfl⟩
    obtain ⟨-, t, ht, rfl, hstatus⟩ := (hkept.delivered _ _ _).mp hmem
    refine ⟨_, List.mem_map_of_mem (List.mem_of_getElem? ht), rfl, ?_⟩
    rw [outcome_reportOn, hstatus]
    rfl
  · rintro ⟨c, hc, rfl, hsome⟩
    obtain ⟨i, t, ht, rfl⟩ := exists_task hc
    rw [outcome_reportOn, h.attended.outcome_iff ht, hkept.activated] at hsome
    obtain ⟨j, outcome, hmem⟩ := hsome
    exact ⟨_, hmem, rfl⟩

theorem Ending.nodup_handed {log : List (ℕ × ElementRef)}
    {handed : List (ℕ × ElementRef × Outcome)} (h : Ending s join p q)
    (hkept : Page.Kept log handed q) :
    (handed.map fun d => s.keyOf d.2.1).Nodup := by
  have hspec : ∀ x ∈ handed.map (·.2.1), ∃ e, s.elements[x.index]? = some e := by
    intro x hx
    obtain ⟨⟨i, el, outcome⟩, hmem, rfl⟩ := List.mem_map.mp hx
    obtain ⟨-, t, ht, rfl, -⟩ := (hkept.delivered _ _ _).mp hmem
    obtain ⟨e, he, -⟩ := h.exists_element ht
    exact ⟨e, he⟩
  have hmap : (handed.map fun d => s.keyOf d.2.1) = (handed.map (·.2.1)).map s.keyOf := by
    rw [List.map_map]
    rfl
  rw [hmap]
  refine List.Nodup.map_on (fun x hx y hy hkey => ?_) hkept.distinct
  obtain ⟨e, he⟩ := hspec x hx
  obtain ⟨f, hf⟩ := hspec y hy
  exact eq_of_keyOf h.keys he hf hkey

/-- **The journal of a report** notes each tree with an outcome once as destroyed. -/
theorem Ending.count_journal (h : Ending s join p q) (key : String) :
    (s.report q).journal.count s!"destroy {key}" =
      if ∃ c ∈ (s.report q).components, c.key = key ∧ c.outcome.isSome then 1 else 0 := by
  obtain ⟨log, handed, hkept, hjournal⟩ := h.attended.history
  obtain ⟨roots, hroots⟩ := journal_opened h.page
  have hnot : ∀ d ∈ handed, d.2.2 ≠ .skipped := fun ⟨i, el, outcome⟩ hmem =>
    ((hkept.delivered i el outcome).mp hmem).1
  rw [hroots] at hjournal
  rw [report, hjournal, count_destroyed roots hnot]
  split
  · next hsome =>
    exact List.count_eq_one_of_mem (h.nodup_handed hkept) ((h.mem_handed_iff hkept).mpr hsome)
  · next hnone =>
    exact List.count_eq_zero.mpr fun hmem => hnone ((h.mem_handed_iff hkept).mp hmem)

/-- What the journal of a report notes behind a destroyed tree. -/
theorem Ending.followed {c : ComponentReport} (h : Ending s join p q)
    (hc : c ∈ (s.report q).components) {before after : List String}
    (hsplit : (s.report q).journal = before ++ s!"destroy {c.key}" :: after) :
    after.head? = some s!"init {c.key}" ↔ c.outcome = some .activated := by
  obtain ⟨log, handed, hkept, hjournal⟩ := h.attended.history
  obtain ⟨roots, hroots⟩ := journal_opened h.page
  have hnot : ∀ d ∈ handed, d.2.2 ≠ .skipped := fun ⟨i, el, outcome⟩ hmem =>
    ((hkept.delivered i el outcome).mp hmem).1
  obtain ⟨i, t, ht, rfl⟩ := exists_task hc
  -- the line and what follows it come from the journal of the page
  have hlines : q.document.journal.map s.journalLine =
      before ++ s!"destroy {s.keyOf t.element}" :: after := hsplit
  obtain ⟨front, rest, hfront, rfl, hrest⟩ := List.map_eq_append_iff.mp hlines
  obtain ⟨change, back, rfl, hchange, rfl⟩ := List.map_eq_cons_iff.mp hrest
  obtain ⟨el, rfl, hel⟩ := eq_destroyed_of_line hchange
  rw [hjournal, hroots] at hfront
  obtain ⟨j, outcome, hmem, hafter⟩ := Page.followed_of_split hnot hfront
  obtain ⟨-, u, hu, rfl, hstatus⟩ := (hkept.delivered _ _ _).mp hmem
  obtain rfl := h.task_unique hu ht hel
  rw [outcome_reportOn, hstatus, List.head?_map, Option.map_eq_some_iff]
  constructor
  · rintro ⟨next, hnext, hline⟩
    obtain ⟨x, rfl, -⟩ := eq_initialized_of_line hline
    rw [((hafter x).mp hnext).2]
    rfl
  · intro houtcome
    obtain rfl := Option.some.inj houtcome
    exact ⟨_, (hafter u.element).mpr ⟨rfl, rfl⟩, rfl⟩

/-- The elements of a document are numbered like those of the scenario. -/
theorem Ending.exists_iff (h : Ending s join p q) :
    q.document.Exists x ↔ (s.elements[x.index]?).isSome := by
  rw [Document.exists_congr h.skeleton, (opened_of_page h.page).built.exists_iff]

/-- **The initialized elements** of a report, in terms of what it says of the deferred ones. -/
theorem Ending.isInitialized_iff {e : ElementSpec} (h : Ending s join p q)
    (he : s.elements[x.index]? = some e) : q.document.isInitialized x = true ↔
      ∀ a, s.Within a e → a.load.isSome →
        ∃ c ∈ (s.report q).components, c.key = a.key ∧ c.outcome.isSome := by
  obtain ⟨d, platform, modules, hd, -, -, hp⟩ := page_eq h.page
  have hdocument : p.document = d := by rw [hp]
  have habove := Document.above_congr (h.skeleton.trans (congrArg Document.skeleton hdocument))
  rw [h.attended.sound.marked.isInitialized_iff, h.exists_iff, he, habove,
    and_iff_right Option.isSome_some]
  constructor
  · intro hactivated a ha hload
    obtain ⟨i, hi⟩ := List.getElem?_of_mem (ha.mem (List.mem_of_getElem? he))
    refine (Ending.activated_iff h hi hload).mp (hactivated ⟨i⟩
      ((above_iff h.keys hd he).mpr ⟨a, hi, ha⟩) (mem_deferred.mpr ⟨a, hi, hload⟩))
  · intro houtcome el hel hdeferred
    obtain ⟨f, hf, hwithin⟩ := (above_iff h.keys hd he).mp hel
    obtain ⟨f', hf', hload⟩ := mem_deferred.mp hdeferred
    obtain rfl := Option.some.inj (hf.symm.trans hf')
    exact (h.activated_iff hf hload).mpr (houtcome f hwithin hload)

/-- The keys of all elements in document order. -/
theorem Ending.map_keyOf_refs (h : Ending s join p q) :
    q.document.refs.map s.keyOf = s.elements.map (·.key) := by
  have hlength : q.document.elements.length = s.elements.length := by
    have hskeleton := congrArg List.length h.skeleton
    rw [Document.skeleton, Document.skeleton, List.length_map, List.length_map,
      (opened_of_page h.page).built.length] at hskeleton
    exact hskeleton
  refine List.ext_getElem? fun i => ?_
  rw [Document.refs, hlength, List.map_map, List.getElem?_map, List.getElem?_map]
  rcases Nat.lt_or_ge i s.elements.length with hi | hi
  · rw [List.getElem?_range hi, List.getElem?_eq_getElem hi]
    have hkey : s.keyOf ⟨i⟩ = _ := keyOf_eq (List.getElem?_eq_getElem hi)
    exact congrArg some hkey
  · rw [List.getElem?_eq_none (by simpa using hi), List.getElem?_eq_none hi]
    rfl

theorem Ending.initialized_iff {e : ElementSpec} (h : Ending s join p q) (he : e ∈ s.elements) :
    e.key ∈ (s.report q).initialized ↔ ∀ a, s.Within a e → a.load.isSome →
      ∃ c ∈ (s.report q).components, c.key = a.key ∧ c.outcome.isSome := by
  obtain ⟨i, hi⟩ := List.getElem?_of_mem he
  have hown : s.keyOf ⟨i⟩ = e.key := keyOf_eq hi
  rw [← (h.isInitialized_iff hi : q.document.isInitialized ⟨i⟩ = true ↔ _), report, List.mem_map]
  constructor
  · rintro ⟨y, hy, hkey⟩
    obtain ⟨hmem, hinitialized⟩ := List.mem_filter.mp hy
    obtain ⟨f, hf⟩ := Option.isSome_iff_exists.mp (h.exists_iff.mp (Document.mem_refs.mp hmem))
    obtain rfl : y = ⟨i⟩ :=
      eq_of_keyOf h.keys hf hi (hkey.trans hown.symm)
    exact hinitialized
  · intro hinitialized
    have hexists : q.document.Exists ⟨i⟩ := h.exists_iff.mpr (by rw [hi]; rfl)
    exact ⟨⟨i⟩, List.mem_filter.mpr ⟨Document.mem_refs.mpr hexists, hinitialized⟩, hown⟩

/-- **Every run that gives a report gives a coherent one.** -/
theorem coherent_of_run {r : Report} (h : s.run join = .ok r) : Coherent s r := by
  obtain ⟨p, q, hending, rfl⟩ := ending h
  have hmarked := hending.attended.sound.marked
  refine {
    components := hending.map_key
    distinct := ?_
    activated := fun c hc => ?_
    free := fun c hc => ?_
    finished := fun c hc outcome houtcome => ?_
    failed := fun c hc herror => ?_
    destroyed := hending.count_journal
    followed := fun c hc before after hsplit => hending.followed hc hsplit
    ordered := ?_
    initialized := fun e he => hending.initialized_iff he }
  · rw [hending.map_key]
    exact hending.keys.sublist (List.filter_sublist.map _)
  · obtain ⟨i, t, ht, rfl⟩ := exists_task hc
    rw [outcome_reportOn]
    exact hending.attended.outcome_iff ht
  · obtain ⟨i, t, ht, rfl⟩ := exists_task hc
    rw [outcome_reportOn, hending.attended.outcome_iff ht]
    exact (hending.inert_iff ht).symm
  · obtain ⟨i, t, ht, rfl⟩ := exists_task hc
    have hstatus := Page.outcomeOf_eq_some.mp (outcome_reportOn.symm.trans houtcome)
    constructor
    · rw [hstatus]
      rfl
    · have hunskipped := (hending.attended.onward i t ht).unskipped
      rw [hstatus] at hunskipped
      cases outcome with
      | activated => exact .inl rfl
      | nested => exact .inr rfl
      | skipped => exact absurd rfl hunskipped
  · obtain ⟨i, t, ht, rfl⟩ := exists_task hc
    obtain ⟨failure, hstatus⟩ := status_of_error herror
    have hwaits := hending.attended.failed ht hstatus
    refine ⟨?_, hmarked.isInert hwaits, hwaits⟩
    rw [outcome_reportOn, hstatus]
    rfl
  · rw [← hending.map_keyOf_refs]
    exact List.filter_sublist.map _

/-- An element inside one that waits, and two beside them: one whose requirement cannot be read
and one that is activated. -/
def mixed : Scenario :=
  { elements := [{ key := "outer", load := some "idle" },
      { key := "inner", parent := some "outer", load := some "eager" },
      { key := "unread", load := some ")" }, { key := "free", load := some "eager" },
      { key := "plain", parent := some "free" }] }

/-- The element inside is handed back but not initialized, since the one around it still waits. -/
theorem coherent_of_run_mixed : ∃ r, mixed.run Url.joinTexts = .ok r ∧ Coherent mixed r ∧
    r.components.map (·.outcome) = [none, some .nested, none, some .activated] ∧
    r.components.map (·.error.isSome) = [false, false, true, false] ∧
    r.journal = ["destroy inner", "destroy free", "init free"] ∧
    r.initialized = ["free", "plain"] := by
  have hreport : ((mixed.run Url.joinTexts).toOption.map fun r => (r.components.map (·.outcome),
      r.components.map (·.error.isSome), r.journal, r.initialized)) =
      some ([none, some .nested, none, some .activated], [false, false, true, false],
        ["destroy inner", "destroy free", "init free"], ["free", "plain"]) := by
    decide +kernel
  cases hrun : mixed.run Url.joinTexts with
  | error error =>
    rw [hrun] at hreport
    cases hreport
  | ok r =>
    rw [hrun] at hreport
    simp only [Except.toOption, Option.map_some, Option.some.injEq, Prod.mk.injEq] at hreport
    exact ⟨r, rfl, coherent_of_run hrun, hreport⟩

end Scenario

end Hydration
