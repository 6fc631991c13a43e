import Hydration.Proofs.Page.Operation

/-!
# The course of a page

A **course** is any sequence of actions on a page without components: elements are discovered,
activations are called, take turns and are given up, and in between anything but the
components and the tasks may change in any way: the framework clones or ceases to, elements
are added, initialized and destroyed, events are published, modules are registered.
Nothing is assumed of the document; a walk that never ends, where parents go in a circle,
counts as one that meets nothing.

Two lists are read off a course.  The **work** says which call has worked on which element,
and the **deliveries** which call has handed which element back and with what outcome.  What
they say of the page at the end is `Kept`, which every action keeps.
-/

namespace Hydration.Page

variable {p q r : Page} {el x : ElementRef} {i j : Nat} {t : Task}

/-! ## Courses -/

/-- What happens to a page. -/
inductive Action where
  /-- An element is discovered. -/
  | discover (el : ElementRef)
  /-- A call to discover and activate an element. -/
  | handle (el : ElementRef)
  /-- A call to activate an element. -/
  | activate (el : ElementRef)
  /-- A call goes on until it has to wait. -/
  | turn (call : Nat)
  /-- A call is given up. -/
  | abort (call : Nat)
  /-- Something else changes. -/
  | outside (change : Page → Page)

/-- The page after an action. -/
def act (p : Page) : Action → Page
  | .discover el => (p.discover el).2
  | .handle el => (p.startTask el true).2
  | .activate el => (p.startTask el false).2
  | .turn call => p.runTask call
  | .abort call => (p.abort call).2
  | .outside change => { change p with components := p.components, tasks := p.tasks }

/-- The page at the beginning of a course. -/
def opened (p : Page) : Page :=
  { p with components := [], tasks := [] }

/-- The page after some actions. -/
def course (p : Page) (actions : List Action) : Page :=
  actions.foldl act p.opened

/-- What is read off the actions, one after the other. -/
def trace {β : Type} (f : Page → Action → List β) (p : Page) : List Action → List β
  | [] => []
  | a :: actions => f p a ++ trace f (p.act a) actions

/-- The element that a call works on in its turn, with the number of the call. -/
def workOf (p : Page) : Action → List (Nat × ElementRef)
  | .turn call => (p.worksOn? call).toList.map fun el => (call, el)
  | _ => []

/-- The outcome that a status stands for. -/
def outcomeOf : TaskStatus → Option Outcome
  | .ended (.ok outcome) => some outcome
  | _ => none

theorem outcomeOf_eq_some {status : TaskStatus} {outcome : Outcome} :
    outcomeOf status = some outcome ↔ status = .ended (.ok outcome) := by
  constructor
  · intro h
    rw [outcomeOf.eq_def] at h
    split at h
    · rw [Option.some.inj h]
    · cases h
  · rintro rfl
    rfl

/-- The outcome of a call that has ended well. -/
def outcome? (p : Page) (call : Nat) : Option Outcome :=
  p.tasks[call]?.bind fun t => outcomeOf t.status

/-- What a call hands back that works on an element and ends well. -/
def delivery (call : Nat) : Option ElementRef → Option Outcome → List (Nat × ElementRef × Outcome)
  | some el, some outcome => [(call, el, outcome)]
  | _, _ => []

/-- The element that a call hands back in its turn, with the number of the call and the outcome. -/
def deliveriesOf (p : Page) : Action → List (Nat × ElementRef × Outcome)
  | .turn call => delivery call (p.worksOn? call) ((p.runTask call).outcome? call)
  | _ => []

/-- What activation writes into the journal. -/
def entriesOf (p : Page) : Action → List TreeChange
  | .outside _ => []
  | a => (p.act a).document.journal.drop p.document.journal.length

/-- Which call has worked on which element. -/
def work (p : Page) (actions : List Action) : List (Nat × ElementRef) :=
  trace workOf p.opened actions

/-- Which call has handed which element back. -/
def deliveries (p : Page) (actions : List Action) : List (Nat × ElementRef × Outcome) :=
  trace deliveriesOf p.opened actions

/-- What activation has written into the journal. -/
def written (p : Page) (actions : List Action) : List TreeChange :=
  trace entriesOf p.opened actions

theorem trace_append {β : Type} (f : Page → Action → List β) (p : Page)
    (actions rest : List Action) :
    trace f p (actions ++ rest) = trace f p actions ++ trace f (actions.foldl act p) rest := by
  induction actions generalizing p with
  | nil => rfl
  | cons a actions ih =>
    rw [List.cons_append, trace, ih, trace, List.append_assoc]
    rfl

theorem trace_concat {β : Type} (f : Page → Action → List β) (p : Page) (actions : List Action)
    (a : Action) : trace f p (actions ++ [a]) = trace f p actions ++ f (actions.foldl act p) a := by
  rw [trace_append, trace, trace, List.append_nil]

/-- Whatever is read off a course is read off one of its actions. -/
theorem exists_of_mem_trace {β : Type} {f : Page → Action → List β} {actions : List Action} {b : β}
    (h : b ∈ trace f p actions) :
    ∃ before a after, actions = before ++ a :: after ∧ b ∈ f (before.foldl act p) a := by
  induction actions generalizing p with
  | nil => cases h
  | cons a actions ih =>
    rcases List.mem_append.mp h with h | h
    · exact ⟨[], a, actions, rfl, h⟩
    · obtain ⟨before, a', after, rfl, hb⟩ := ih h
      exact ⟨a :: before, a', after, rfl, hb⟩

/-! ## What is kept -/

/-- **What a course has come to.**  `log` are the calls that have worked on elements and
`handed` those that have handed them back. -/
structure Kept (log : List (Nat × ElementRef)) (handed : List (Nat × ElementRef × Outcome))
    (p : Page) : Prop where
  /-- An element that has been worked on is not merely discovered. -/
  past : ∀ i el, (i, el) ∈ log → ∃ s, p.state? el = some s ∧ s ≠ .discovered
  /-- No two calls have worked on one element. -/
  once : ∀ i j el, (i, el) ∈ log → (j, el) ∈ log → i = j
  /-- A call that waits has worked on its element, which waits as well. -/
  awaits : ∀ (i : Nat) (t : Task) component name requirement download, p.tasks[i]? = some t →
    t.status = .awaiting component name requirement download →
    component.element = t.element ∧ p.state? t.element = some .awaitingRequirements ∧
      (i, t.element) ∈ log
  /-- A call that has ended without being skipped has worked on its element. -/
  ended : ∀ (i : Nat) (t : Task) result, p.tasks[i]? = some t → t.status = .ended result →
    result ≠ .ok .skipped → (i, t.element) ∈ log
  /-- The calls that have handed elements back are those that have ended well. -/
  delivered : ∀ i el outcome, (i, el, outcome) ∈ handed ↔ outcome ≠ .skipped ∧
    ∃ t, p.tasks[i]? = some t ∧ t.element = el ∧ t.status = .ended (.ok outcome)
  /-- The elements that have been handed back are the activated ones. -/
  activated : ∀ el, p.state? el = some .activated ↔ ∃ i outcome, (i, el, outcome) ∈ handed
  /-- No element has been handed back twice. -/
  distinct : (handed.map fun d => d.2.1).Nodup

variable {log : List (Nat × ElementRef)} {handed : List (Nat × ElementRef × Outcome)}

theorem kept_opened (p : Page) : Kept [] [] p.opened where
  past _ _ h := nomatch h
  once _ _ _ h := nomatch h
  awaits _ _ _ _ _ _ h := nomatch h
  ended _ _ _ h := nomatch h
  delivered _ _ _ := ⟨nofun, fun ⟨_, _, h, _⟩ => nomatch h⟩
  activated _ := ⟨nofun, fun ⟨_, _, h⟩ => nomatch h⟩
  distinct := .nil

/-- An element that has been worked on waits until it is handed back. -/
theorem Kept.state?_of_not_handed (h : Kept log handed p) (hel : (i, el) ∈ log)
    (hnot : ∀ j outcome, (j, el, outcome) ∉ handed) : p.state? el = some .awaitingRequirements := by
  obtain ⟨s, hs, hpast⟩ := h.past i el hel
  cases s with
  | discovered => exact absurd rfl hpast
  | awaitingRequirements => exact hs
  | activated =>
    obtain ⟨j, outcome, hhanded⟩ := (h.activated el).mp hs
    exact absurd hhanded (hnot j outcome)

/-- A call that has ended well has left its element activated. -/
theorem Kept.state?_of_ended (h : Kept log handed p) {t : Task} {outcome : Outcome}
    (ht : p.tasks[i]? = some t) (hstatus : t.status = .ended (.ok outcome))
    (hskipped : outcome ≠ .skipped) : p.state? t.element = some .activated :=
  (h.activated _).mpr ⟨i, outcome, (h.delivered _ _ _).mpr ⟨hskipped, t, ht, rfl, hstatus⟩⟩

/-- A call that has failed has left its element waiting, for no other call works on it. -/
theorem Kept.state?_of_failed (h : Kept log handed p) {t : Task} {error : Failure}
    (ht : p.tasks[i]? = some t) (hstatus : t.status = .ended (.error error)) :
    p.state? t.element = some .awaitingRequirements := by
  have hwork := h.ended i t _ ht hstatus nofun
  refine h.state?_of_not_handed hwork fun j outcome hmem => ?_
  obtain ⟨hskipped, u, hu, hsame, hended⟩ := (h.delivered _ _ _).mp hmem
  have hother := h.ended j u _ hu hended fun heq => hskipped (Except.ok.inj heq)
  obtain rfl := h.once i j _ hwork (hsame ▸ hother)
  obtain rfl := Option.some.inj (ht.symm.trans hu)
  rw [hstatus] at hended
  cases hended

/-- The states change, but not those of elements that have been claimed. -/
theorem Kept.states (h : Kept log handed p) (htasks : q.tasks = p.tasks)
    (hkeeps : ∀ x s, p.state? x = some s → s ≠ .discovered → q.state? x = some s)
    (hnew : ∀ x, q.state? x = some .activated → p.state? x = some .activated) :
    Kept log handed q where
  past i el hel := by
    obtain ⟨s, hs, hpast⟩ := h.past i el hel
    exact ⟨s, hkeeps el s hs hpast, hpast⟩
  once := h.once
  awaits i t component name requirement download ht hstatus := by
    rw [htasks] at ht
    obtain ⟨helement, hstate, hwork⟩ := h.awaits i t _ _ _ _ ht hstatus
    exact ⟨helement, hkeeps _ _ hstate nofun, hwork⟩
  ended i t result ht := h.ended i t result (htasks ▸ ht)
  delivered i el outcome := by rw [htasks, h.delivered]
  activated el := by
    rw [← h.activated]
    exact ⟨hnew el, fun hel => hkeeps el _ hel nofun⟩
  distinct := h.distinct

theorem Kept.congr (h : Kept log handed p) (htasks : q.tasks = p.tasks)
    (hstate : ∀ x, q.state? x = p.state? x) : Kept log handed q :=
  h.states htasks (fun x _ hs _ => (hstate x).trans hs) fun x hx => (hstate x).symm.trans hx

theorem Kept.discover (h : Kept log handed p) (el : ElementRef) :
    Kept log handed (p.discover el).2 := by
  rcases discover_cases p el with hsame | ⟨hnone, hstate⟩
  · rw [hsame]
    exact h
  · refine h.states tasks_discover (fun x s hs _ => ?_) fun x hx => ?_
    · rw [hstate, if_neg, hs]
      rintro rfl
      rw [hnone] at hs
      cases hs
    · rw [hstate] at hx
      split at hx
      · cases hx
      · exact hx

/-- A call works on an element that no other call has worked on. -/
theorem Kept.works (h : Kept log handed p) (hpast : ∃ s, p.state? el = some s ∧ s ≠ .discovered)
    (honce : ∀ j, (j, el) ∈ log → j = i) : Kept (log ++ [(i, el)]) handed p where
  past j x hx := by
    rcases List.mem_append.mp hx with hx | hx
    · exact h.past j x hx
    · cases List.mem_singleton.mp hx
      exact hpast
  once j k x hj hk := by
    rcases List.mem_append.mp hj with hj | hj
    · rcases List.mem_append.mp hk with hk | hk
      · exact h.once j k x hj hk
      · cases List.mem_singleton.mp hk
        exact honce j hj
    · cases List.mem_singleton.mp hj
      rcases List.mem_append.mp hk with hk | hk
      · exact (honce k hk).symm
      · cases List.mem_singleton.mp hk
        rfl
  awaits j t component name requirement download ht hstatus := by
    obtain ⟨helement, hstate, hwork⟩ := h.awaits j t _ _ _ _ ht hstatus
    exact ⟨helement, hstate, List.mem_append_left _ hwork⟩
  ended j t result ht hstatus hresult :=
    List.mem_append_left _ (h.ended j t result ht hstatus hresult)
  delivered := h.delivered
  activated := h.activated
  distinct := h.distinct

/-- An element that is claimed has not been worked on before. -/
theorem Kept.claim {f : Component → Component} (h : Kept log handed p)
    (hf : Claimed p el f q) : Kept (log ++ [(i, el)]) handed (p.modifyComponent el f) := by
  have hstate : ∀ x, (p.modifyComponent el f).state? x =
      if x = el then some .awaitingRequirements else p.state? x := fun x =>
    state?_modifyComponent_of_some hf.element hf.state hf.discovered
  refine Kept.works (h.states rfl (fun x s hs hpast => ?_) fun x hx => ?_) ?_ fun j hj => ?_
  · rw [hstate, if_neg, hs]
    rintro rfl
    rw [hf.discovered] at hs
    exact hpast (Option.some.inj hs).symm
  · rw [hstate] at hx
    split at hx
    · cases hx
    · exact hx
  · exact ⟨.awaitingRequirements, by rw [hstate, if_pos rfl], nofun⟩
  · obtain ⟨s, hs, hpast⟩ := h.past j el hj
    rw [hf.discovered] at hs
    exact absurd (Option.some.inj hs).symm hpast

/-! ## The end of a turn -/

/-- An open call gets a status with which it has not handed anything back. -/
theorem Kept.setStatus {status : TaskStatus} (h : Kept log handed p)
    (ht : p.tasks[i]? = some t) (hopen : isOpen t.status = true)
    (hawaits : ∀ component name requirement download,
      status = .awaiting component name requirement download →
      component.element = t.element ∧ p.state? t.element = some .awaitingRequirements ∧
        (i, t.element) ∈ log)
    (hended : ∀ result, status = .ended result → result ≠ .ok .skipped →
      (i, t.element) ∈ log ∧ ∀ outcome, result ≠ .ok outcome) :
    Kept log handed (p.setStatus i status) := by
  have hget : ∀ j u, (p.setStatus i status).tasks[j]? = some u →
      j = i ∧ u = { t with status } ∨ j ≠ i ∧ p.tasks[j]? = some u := by
    intro j u hu
    rw [getElem?_setStatus] at hu
    split at hu
    · next hij =>
      subst hij
      rw [ht] at hu
      exact .inl ⟨rfl, (Option.some.inj hu).symm⟩
    · next hij => exact .inr ⟨Ne.symm hij, hu⟩
  refine ⟨h.past, h.once, ?_, ?_, ?_, h.activated, h.distinct⟩
  · intro j u component name requirement download hu hstatus
    rcases hget j u hu with ⟨rfl, rfl⟩ | ⟨-, hu⟩
    · exact hawaits _ _ _ _ hstatus
    · exact h.awaits j u _ _ _ _ hu hstatus
  · intro j u result hu hstatus hresult
    rcases hget j u hu with ⟨rfl, rfl⟩ | ⟨-, hu⟩
    · exact (hended result hstatus hresult).1
    · exact h.ended j u result hu hstatus hresult
  · intro j x outcome
    rw [h.delivered]
    refine and_congr_right fun houtcome => ⟨?_, ?_⟩
    · rintro ⟨u, hu, hx, hstatus⟩
      refine ⟨u, ?_, hx, hstatus⟩
      rw [getElem?_setStatus, if_neg, hu]
      rintro rfl
      rw [ht] at hu
      cases hu
      rw [hstatus] at hopen
      cases hopen
    · rintro ⟨u, hu, hx, hstatus⟩
      rcases hget j u hu with ⟨rfl, rfl⟩ | ⟨-, hu⟩
      · exact absurd rfl ((hended _ hstatus (by simpa using houtcome)).2 outcome)
      · exact ⟨u, hu, hx, hstatus⟩

/-- A call that has worked on its element hands it back. -/
theorem Kept.finish {outcome : Outcome} (h : Kept log handed p) (ht : p.tasks[i]? = some t)
    (hopen : isOpen t.status = true) (hlog : (i, t.element) ∈ log)
    (hwaits : p.state? t.element = some .awaitingRequirements) (hoc : outcome ≠ .skipped)
    (htasks : q.tasks = p.tasks)
    (hstate : ∀ x, q.state? x = if x = t.element then some .activated else p.state? x) :
    Kept log (handed ++ [(i, t.element, outcome)]) (q.setStatus i (.ended (.ok outcome))) := by
  have hget : ∀ j u, (q.setStatus i (.ended (.ok outcome))).tasks[j]? = some u ↔
      j = i ∧ u = { t with status := .ended (.ok outcome) } ∨ j ≠ i ∧ p.tasks[j]? = some u := by
    intro j u
    rw [getElem?_setStatus, htasks]
    by_cases hij : i = j
    · subst hij
      simp [ht, eq_comm]
    · simp [hij, Ne.symm hij]
  have hnew : ∀ el outcome', (i, el, outcome') ∉ handed := by
    intro el outcome' hmem
    obtain ⟨-, u, hu, -, hstatus⟩ := (h.delivered i el outcome').mp hmem
    rw [ht] at hu
    cases hu
    rw [hstatus] at hopen
    cases hopen
  have hfirst : ∀ j outcome', (j, t.element, outcome') ∉ handed := by
    intro j outcome' hmem
    have hactivated := (h.activated t.element).mpr ⟨j, outcome', hmem⟩
    rw [hwaits] at hactivated
    cases hactivated
  refine ⟨?_, h.once, ?_, ?_, ?_, ?_, ?_⟩
  · intro j x hx
    show ∃ s, q.state? x = some s ∧ _
    rw [hstate]
    split
    · exact ⟨.activated, rfl, nofun⟩
    · exact h.past j x hx
  · intro j u component name requirement download hu hstatus
    rcases (hget j u).mp hu with ⟨rfl, rfl⟩ | ⟨hj, hu⟩
    · cases hstatus
    · obtain ⟨helement, hstate', hwork⟩ := h.awaits j u _ _ _ _ hu hstatus
      refine ⟨helement, ?_, hwork⟩
      -- Another call does not wait with the element that is handed back.
      show q.state? u.element = _
      rw [hstate, if_neg, hstate']
      intro hsame
      rw [hsame] at hwork
      exact hj (h.once j i _ hwork hlog)
  · intro j u result hu hstatus hresult
    rcases (hget j u).mp hu with ⟨rfl, rfl⟩ | ⟨-, hu⟩
    · exact hlog
    · exact h.ended j u result hu hstatus hresult
  · intro j x outcome'
    rw [List.mem_append, List.mem_singleton, h.delivered]
    constructor
    · rintro (⟨houtcome, u, hu, hx, hstatus⟩ | hlast)
      · refine ⟨houtcome, u, (hget j u).mpr (.inr ⟨?_, hu⟩), hx, hstatus⟩
        rintro rfl
        exact hnew x outcome' ((h.delivered j x outcome').mpr ⟨houtcome, u, hu, hx, hstatus⟩)
      · cases hlast
        exact ⟨hoc, _, (hget i _).mpr (.inl ⟨rfl, rfl⟩), rfl, rfl⟩
    · rintro ⟨houtcome, u, hu, hx, hstatus⟩
      rcases (hget j u).mp hu with ⟨rfl, rfl⟩ | ⟨-, hu⟩
      · cases hstatus
        cases hx
        exact .inr rfl
      · exact .inl ⟨houtcome, u, hu, hx, hstatus⟩
  · intro x
    show q.state? x = _ ↔ _
    rw [hstate]
    constructor
    · intro hx
      split at hx
      · next hel => exact ⟨i, outcome, List.mem_append_right _ (by rw [hel]; exact List.mem_cons_self)⟩
      · obtain ⟨j, outcome', hmem⟩ := (h.activated x).mp hx
        exact ⟨j, outcome', List.mem_append_left _ hmem⟩
    · rintro ⟨j, outcome', hmem⟩
      rcases List.mem_append.mp hmem with hmem | hmem
      · have hactivated := (h.activated x).mpr ⟨j, outcome', hmem⟩
        split
        · rfl
        · exact hactivated
      · cases List.mem_singleton.mp hmem
        rw [if_pos rfl]
  · rw [List.map_append, List.nodup_append]
    refine ⟨h.distinct, List.nodup_singleton _, ?_⟩
    rintro x hx y hy rfl
    obtain ⟨⟨j, el, outcome'⟩, hmem, rfl⟩ := List.mem_map.mp hx
    rw [List.map_singleton, List.mem_singleton] at hy
    obtain rfl : el = t.element := hy
    exact hfirst j outcome' hmem

/-- What is noted in the journal for the elements that are handed back. -/
def blocks (handed : List (Nat × ElementRef × Outcome)) : List TreeChange :=
  handed.flatMap fun d => block d.2.1 d.2.2

/-- **The turn of a call** that works on its element, which waits. -/
theorem Kept.progress {component : ComponentHandle} {turn : TaskStatus × Page}
    (h : Kept log handed p) (ht : p.tasks[i]? = some t) (hopen : isOpen t.status = true)
    (hlog : (i, t.element) ∈ log) (hwaits : p.state? t.element = some .awaitingRequirements)
    (hcomponent : component.element = t.element) (hprogress : Progress p component turn) :
    Kept log (handed ++ delivery i (some t.element) (outcomeOf turn.1)) (turn.2.setStatus i turn.1) ∧
      (turn.2.setStatus i turn.1).document.journal =
        p.document.journal ++ blocks (delivery i (some t.element) (outcomeOf turn.1)) ∧
      ∀ outcome, turn.1 = .ended (.ok outcome) → (outcome = .activated ↔
        (turn.2.setStatus i turn.1).document.hasInertAncestor t.element = false) := by
  cases hprogress with
  | @failed q error hq =>
    have hkept := h.congr (tasks_congr hq) fun x => state?_congr hq
    refine ⟨?_, ?_, nofun⟩
    · rw [show delivery i (some t.element) _ = [] from rfl, List.append_nil]
      refine hkept.setStatus (tasks_congr hq ▸ ht) hopen nofun fun result hresult _ => ?_
      cases hresult
      exact ⟨hlog, nofun⟩
    · rw [show blocks _ = [] from rfl, List.append_nil]
      exact congrArg Records.journal hq
  | @waiting q name requirement download hq =>
    have hkept := h.congr (tasks_congr hq) fun x => state?_congr hq
    refine ⟨?_, ?_, nofun⟩
    · rw [show delivery i (some t.element) _ = [] from rfl, List.append_nil]
      refine hkept.setStatus (tasks_congr hq ▸ ht) hopen (fun component' _ _ _ hsame => ?_) nofun
      cases hsame
      exact ⟨hcomponent, (state?_congr hq).trans hwaits, hlog⟩
    · rw [show blocks _ = [] from rfl, List.append_nil]
      exact congrArg Records.journal hq
  | @done q hq =>
    have hkept := h.congr (tasks_congr hq) fun x => state?_congr hq
    have hq' : q.state? t.element = some .awaitingRequirements := (state?_congr hq).trans hwaits
    rw [hcomponent]
    obtain ⟨hjournal, hoc, hinert⟩ := handBack_spec q t.element
    refine ⟨?_, ?_, ?_⟩
    · exact hkept.finish (tasks_congr hq ▸ ht) hopen hlog hq' hoc tasks_handBack
        fun x => state?_handBack_of_some hq'
    · have hsame : q.document.journal = p.document.journal := congrArg Records.journal hq
      rw [show blocks _ = block _ _ ++ [] from rfl, List.append_nil, ← hsame]
      exact hjournal
    · rintro outcome hsame
      cases hsame
      exact hinert

theorem outcome?_setStatus {status : TaskStatus} (ht : p.tasks[i]? = some t) :
    (p.setStatus i status).outcome? i = outcomeOf status := by
  rw [outcome?, getElem?_setStatus, if_pos rfl, ht]
  rfl

theorem Progress.tasks {component : ComponentHandle} {turn : TaskStatus × Page}
    (h : Progress p component turn) : turn.2.tasks = p.tasks := by
  cases h with
  | failed hq => exact tasks_congr hq
  | waiting hq => exact tasks_congr hq
  | done hq => exact tasks_handBack.trans (tasks_congr hq)

theorem tasks_prepared (discovers : Bool) : (p.prepared t discovers).tasks = p.tasks := by
  rw [prepared]
  split
  · exact tasks_discover
  · rfl

theorem journal_prepared (discovers : Bool) :
    (p.prepared t discovers).document.journal = p.document.journal := by
  rw [prepared]
  split
  · exact journal_discover
  · rfl

theorem operations_prepared (discovers : Bool) :
    Relation.ReflTransGen Operation p (p.prepared t discovers) := by
  rw [prepared]
  split
  · exact .single (.discover t.element)
  · exact .refl

theorem Kept.prepared (h : Kept log handed p) (t : Task) (discovers : Bool) :
    Kept log handed (p.prepared t discovers) := by
  rw [Page.prepared]
  split
  · exact h.discover t.element
  · exact h

/-- **What a turn keeps** that works on `worked` and leads to the page `q`. -/
structure TurnKeeps (log : List (Nat × ElementRef)) (handed : List (Nat × ElementRef × Outcome))
    (p : Page) (i : Nat) (worked : Option ElementRef) (q : Page) : Prop where
  kept : Kept (log ++ worked.toList.map fun el => (i, el))
    (handed ++ delivery i worked (q.outcome? i)) q
  journal : q.document.journal = p.document.journal ++ blocks (delivery i worked (q.outcome? i))
  inert : ∀ el outcome, worked = some el → q.outcome? i = some outcome →
    (outcome = .activated ↔ q.document.hasInertAncestor el = false)
  operations : Relation.ReflTransGen Operation p q

/-- A turn in which nothing is worked on. -/
theorem TurnKeeps.idle (hkept : Kept log handed q)
    (hjournal : q.document.journal = p.document.journal)
    (hoperations : Relation.ReflTransGen Operation p q) : TurnKeeps log handed p i none q where
  kept := by
    rw [show delivery i none _ = [] from rfl, List.append_nil]
    show Kept (log ++ []) handed q
    rwa [List.append_nil]
  journal := by
    rw [hjournal]
    exact (List.append_nil _).symm
  inert := nofun
  operations := hoperations

/-- A turn in which an element is worked on that waits on the page `r`. -/
theorem TurnKeeps.works {component : ComponentHandle} {turn : TaskStatus × Page}
    (hkept : Kept (log ++ [(i, t.element)]) handed r) (ht : r.tasks[i]? = some t)
    (hopen : isOpen t.status = true) (hwaits : r.state? t.element = some .awaitingRequirements)
    (hcomponent : component.element = t.element)
    (hjournal : r.document.journal = p.document.journal)
    (hoperations : Relation.ReflTransGen Operation p r) (hprogress : Progress r component turn) :
    TurnKeeps log handed p i (some t.element) (turn.2.setStatus i turn.1) := by
  obtain ⟨hkept, hentries, hinert⟩ := hkept.progress ht hopen
    (List.mem_append_right _ List.mem_cons_self) hwaits hcomponent hprogress
  have houtcome : (turn.2.setStatus i turn.1).outcome? i = outcomeOf turn.1 :=
    outcome?_setStatus (hprogress.tasks ▸ ht)
  refine ⟨?_, ?_, ?_, hoperations.trans (hprogress.operations (hcomponent ▸ hwaits))⟩
  · rw [houtcome]
    exact hkept
  · rw [houtcome, ← hjournal]
    exact hentries
  · intro el outcome hel ho
    cases hel
    rw [houtcome, outcomeOf.eq_def] at ho
    split at ho
    · next hstatus =>
      cases ho
      exact hinert _ hstatus
    · cases ho

theorem Kept.turn (h : Kept log handed p) {worked : Option ElementRef} (hturn : Turn p i worked q) :
    TurnKeeps log handed p i worked q := by
  cases hturn with
  | idle => exact .idle h rfl .refl
  | @dropped t requirement ht hopen =>
    have hreleased : Kept log handed (p.releaseRequirement requirement) := h.congr rfl fun x => rfl
    exact .idle (hreleased.setStatus ht hopen nofun nofun) rfl (.single (.rest fun x => rfl))
  | @skipped t discovers ht hfresh =>
    refine .idle ?_ (journal_prepared discovers)
      ((operations_prepared discovers).tail (.rest fun x => rfl))
    refine (h.prepared t discovers).setStatus ((tasks_prepared discovers).symm ▸ ht)
      (by rw [hfresh]; rfl) nofun fun result hresult hskipped => ?_
    cases hresult
    exact absurd rfl hskipped
  | @begins t discovers claimed q' f component turn ht hfresh hclaim hf hcomponent hprogress =>
    have hstate : ∀ x, ((p.prepared t discovers).modifyComponent t.element f).state? x =
        claimed.state? x := by
      intro x
      rw [state?_modifyComponent_of_some hf.element hf.state hf.discovered, state?_claim hclaim]
    exact .works ((h.prepared t discovers).claim hf) ((tasks_prepared discovers).symm ▸ ht)
      (by rw [hfresh]; rfl) hf.state?_self hcomponent (journal_prepared discovers)
      (((operations_prepared discovers).tail (.claim hclaim)).tail (.rest hstate)) hprogress
  | @resumes t component name requirement download turn ht hawaits hprogress =>
    obtain ⟨hcomponent, hwaits, hlog⟩ := h.awaits i t _ _ _ _ ht hawaits
    rw [hcomponent]
    refine .works (h.works ⟨_, hwaits, nofun⟩ fun j hj => h.once j i _ hj hlog) ht
      (by rw [hawaits]; rfl) hwaits hcomponent rfl .refl hprogress

end Hydration.Page
