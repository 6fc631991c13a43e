import Hydration.Proofs.Page.Course
import Hydration.Url.Parse

/-!
# Activation happens once

Every action keeps what a course has come to (`Kept.act`), and so does a whole course
(`kept_course`).  What it has come to then says everything about results, work and journal:
of all calls for an element at most one comes to anything, only that one has worked on it,
and only that one writes into the journal (`activates_once`).
-/

namespace Hydration.Page

variable {p q r : Page} {el x : ElementRef} {i j : Nat} {t : Task}
  {log : List (Nat × ElementRef)} {handed : List (Nat × ElementRef × Outcome)}

/-! ## Actions -/

/-- Calls are added that have not had a turn. -/
theorem Kept.recalls {started : List Task} (h : Kept log handed p) (hq : Recalls started p q)
    (hstarted : ∀ u ∈ started, ∃ discovers, u.status = .fresh discovers) : Kept log handed q where
  past i el hel := by
    rw [hq.state]
    exact h.past i el hel
  once := h.once
  awaits i u component name requirement download hu hstatus := by
    rcases hq.new i u hu with ⟨t, ht, helement, hsame⟩ | hnew
    · rw [hq.state, helement]
      exact h.awaits i t _ _ _ _ ht (hsame.symm.trans hstatus)
    · obtain ⟨discovers, hfresh⟩ := hstarted u hnew
      rw [hfresh] at hstatus
      cases hstatus
  ended i u result hu hstatus hresult := by
    rcases hq.new i u hu with ⟨t, ht, helement, hsame⟩ | hnew
    · rw [helement]
      exact h.ended i t result ht (hsame.symm.trans hstatus) hresult
    · obtain ⟨discovers, hfresh⟩ := hstarted u hnew
      rw [hfresh] at hstatus
      cases hstatus
  delivered i el outcome := by
    rw [h.delivered]
    refine and_congr_right fun _ => ⟨?_, ?_⟩
    · rintro ⟨t, ht, hel, hstatus⟩
      obtain ⟨u, hu, helement, hsame⟩ := hq.old i t ht
      exact ⟨u, hu, helement.trans hel, hsame.trans hstatus⟩
    · rintro ⟨u, hu, hel, hstatus⟩
      rcases hq.new i u hu with ⟨t, ht, helement, hsame⟩ | hnew
      · exact ⟨t, ht, helement.symm.trans hel, hsame.symm.trans hstatus⟩
      · obtain ⟨discovers, hfresh⟩ := hstarted u hnew
        rw [hfresh] at hstatus
        cases hstatus
  activated el := by rw [hq.state, h.activated]
  distinct := h.distinct

theorem Kept.startTask (h : Kept log handed p) (el : ElementRef) (discovers : Bool) :
    Kept log handed (p.startTask el discovers).2 := by
  refine h.recalls (recalls_startTask p el discovers) fun u hu => ?_
  rw [List.mem_singleton.mp hu]
  exact ⟨discovers, rfl⟩

/-- **What an action keeps.** -/
structure ActionKeeps (log : List (Nat × ElementRef))
    (handed : List (Nat × ElementRef × Outcome)) (p : Page) (a : Action) : Prop where
  kept : Kept (log ++ p.workOf a) (handed ++ p.deliveriesOf a) (p.act a)
  entries : p.entriesOf a = blocks (p.deliveriesOf a)
  operations : Relation.ReflTransGen Operation p (p.act a)

/-- An action that is not the turn of a call. -/
theorem ActionKeeps.aside {a : Action} (hwork : p.workOf a = []) (hdeliveries : p.deliveriesOf a = [])
    (hkept : Kept log handed (p.act a)) (hentries : p.entriesOf a = [])
    (hoperation : Operation p (p.act a)) : ActionKeeps log handed p a := by
  refine ⟨?_, ?_, .single hoperation⟩
  · rw [hwork, hdeliveries, List.append_nil, List.append_nil]
    exact hkept
  · rw [hdeliveries, hentries]
    rfl

theorem Kept.act (h : Kept log handed p) (a : Action) : ActionKeeps log handed p a := by
  have hnothing : ∀ {journal : List TreeChange}, journal = p.document.journal →
      journal.drop p.document.journal.length = [] := by
    rintro journal rfl
    exact List.drop_length
  cases a with
  | discover el =>
    exact .aside rfl rfl (h.discover el) (hnothing journal_discover) (.discover el)
  | handle el =>
    exact .aside rfl rfl (h.startTask el true)
      (hnothing (congrArg Document.journal (document_enqueue _)))
      (.rest (recalls_startTask p el true).state)
  | activate el =>
    exact .aside rfl rfl (h.startTask el false)
      (hnothing (congrArg Document.journal (document_enqueue _)))
      (.rest (recalls_startTask p el false).state)
  | turn call =>
    have hturn := h.turn (turn_cases p call)
    refine ⟨hturn.kept, ?_, hturn.operations⟩
    show (p.runTask call).document.journal.drop _ = _
    rw [hturn.journal, List.drop_left]
    rfl
  | abort call =>
    have hrecalls := recalls_abort p call
    exact .aside rfl rfl (h.recalls hrecalls nofun)
      (hnothing (congrArg Document.journal document_abort)) (.rest hrecalls.state)
  | outside change =>
    exact .aside rfl rfl (h.congr rfl fun x => rfl) rfl (.rest fun x => rfl)

/-! ## Courses from the beginning -/

theorem blocks_append (handed handed' : List (Nat × ElementRef × Outcome)) :
    blocks (handed ++ handed') = blocks handed ++ blocks handed' :=
  List.flatMap_append

/-- **A course** keeps what its actions keep. -/
theorem Kept.foldl (h : Kept log handed p) (actions : List Action) :
    Kept (log ++ trace workOf p actions) (handed ++ trace deliveriesOf p actions)
        (actions.foldl Page.act p) ∧
      trace entriesOf p actions = blocks (trace deliveriesOf p actions) := by
  induction actions generalizing p log handed with
  | nil =>
    rw [trace, trace, List.append_nil, List.append_nil]
    exact ⟨h, rfl⟩
  | cons a actions ih =>
    have hact := h.act a
    obtain ⟨hkept, hentries⟩ := ih hact.kept
    rw [trace, trace, trace, blocks_append, hact.entries, hentries, ← List.append_assoc,
      ← List.append_assoc]
    exact ⟨hkept, rfl⟩

theorem kept_course (p : Page) (actions : List Action) :
    Kept (p.work actions) (p.deliveries actions) (p.course actions) :=
  ((kept_opened p).foldl actions).1

theorem written_eq (p : Page) (actions : List Action) :
    p.written actions = blocks (p.deliveries actions) :=
  ((kept_opened p).foldl actions).2

/-- What is read off the beginning of a course is read off the course. -/
theorem mem_trace_of_prefix {β : Type} {f : Page → Action → List β} {actions earlier : List Action}
    {b : β} (hearlier : earlier <+: actions) (h : b ∈ trace f p earlier) :
    b ∈ trace f p actions := by
  obtain ⟨rest, rfl⟩ := hearlier
  rw [trace_append]
  exact List.mem_append_left _ h

/-- A call for an element has returned a result at some moment of a course. -/
def Returned (p : Page) (actions : List Action) (call : Nat) (el : ElementRef)
    (result : Except Failure Outcome) : Prop :=
  ∃ earlier, earlier <+: actions ∧ ∃ t, (p.course earlier).tasks[call]? = some t ∧
    t.element = el ∧ t.status = .ended result

theorem Returned.mem_work {actions : List Action} {result : Except Failure Outcome}
    (h : Returned p actions i el result) (hresult : result ≠ .ok .skipped) :
    (i, el) ∈ p.work actions := by
  obtain ⟨earlier, hearlier, t, ht, rfl, hstatus⟩ := h
  exact mem_trace_of_prefix hearlier ((kept_course p earlier).ended i t result ht hstatus hresult)

theorem mem_deliveries {actions : List Action} {outcome : Outcome} :
    (i, el, outcome) ∈ p.deliveries actions ↔
      outcome ≠ .skipped ∧ Returned p actions i el (.ok outcome) := by
  constructor
  · intro h
    obtain ⟨houtcome, t, ht, hel, hstatus⟩ := ((kept_course p actions).delivered i el outcome).mp h
    exact ⟨houtcome, actions, List.prefix_rfl, t, ht, hel, hstatus⟩
  · rintro ⟨houtcome, earlier, hearlier, t, ht, hel, hstatus⟩
    exact mem_trace_of_prefix hearlier
      (((kept_course p earlier).delivered i el outcome).mpr ⟨houtcome, t, ht, hel, hstatus⟩)

/-- An element is handed back in the turn of a call, and its block is written at once. -/
theorem exists_turn_of_mem_deliveries {actions : List Action} {outcome : Outcome}
    (h : (i, el, outcome) ∈ p.deliveries actions) :
    ∃ before after, actions = before ++ .turn i :: after ∧
      ((p.course before).runTask i).document.journal =
        (p.course before).document.journal ++ block el outcome ∧
      (outcome = .activated ↔
        ((p.course before).runTask i).document.hasInertAncestor el = false) := by
  obtain ⟨before, a, after, rfl, hmem⟩ := exists_of_mem_trace h
  cases a with
  | turn call =>
    have hturn := (kept_course p before).turn (turn_cases (p.course before) call)
    rw [deliveriesOf, delivery.eq_def] at hmem
    split at hmem
    · next el' outcome' hworked houtcome =>
      cases List.mem_singleton.mp hmem
      refine ⟨before, after, rfl, ?_, hturn.inert el outcome hworked houtcome⟩
      have hjournal := hturn.journal
      rw [show (p.course before).worksOn? i = some el from hworked,
        show ((p.course before).runTask i).outcome? i = some outcome from houtcome] at hjournal
      rw [hjournal, show blocks _ = block el outcome ++ [] from rfl, List.append_nil]
    · cases hmem
  | discover => cases hmem
  | handle => cases hmem
  | activate => cases hmem
  | abort => cases hmem
  | outside => cases hmem

/-- **Activation happens once.**  In every course of a page:

* The states of the elements change by operations that take one element one stage further at most.
* No two calls for one element ever return anything but that it was skipped.  A call that does is
  the one that has worked on the element; turns without work have nothing to do with requirements
  and modules.
* What activation has written into the journal is a block for each activated element, in the order
  in which they have been handed back: by the call that returns the outcome, in one turn, and with
  the outcome that an inert ancestor at that moment decides.

Nothing is assumed of the document.  Where parents go in a circle, a walk or a climb that never ends
counts as one that meets nothing: no element is initialized or taken back by it, and no ancestor is
inert.  A turn that would never end is then a turn like any other, and courses go on after it. -/
theorem activates_once (p : Page) (actions : List Action) :
    ((∀ a, Relation.ReflTransGen Operation (p.course actions) ((p.course actions).act a)) ∧
      ∀ q r, Operation q r → Advances q r) ∧
    ((∀ i j el result result', Returned p actions i el result → Returned p actions j el result' →
        result ≠ .ok .skipped → result' ≠ .ok .skipped → i = j) ∧
      (∀ i el result, Returned p actions i el result → result ≠ .ok .skipped →
        (i, el) ∈ p.work actions) ∧
      (∀ i j el, (i, el) ∈ p.work actions → (j, el) ∈ p.work actions → i = j) ∧
      ∀ i, (p.course actions).worksOn? i = none →
        ((p.course actions).runTask i).modules = (p.course actions).modules ∧
        ((p.course actions).runTask i).document.bindings = (p.course actions).document.bindings ∧
        ∃ requirement, ((p.course actions).runTask i).surroundings =
          ((p.course actions).releaseRequirement requirement).surroundings) ∧
    p.written actions = blocks (p.deliveries actions) ∧
    ((p.deliveries actions).map fun d => d.2.1).Nodup ∧
    (∀ el, (p.course actions).state? el = some .activated ↔
      ∃ i outcome, (i, el, outcome) ∈ p.deliveries actions) ∧
    ∀ i el outcome,
      ((i, el, outcome) ∈ p.deliveries actions ↔
        outcome ≠ .skipped ∧ Returned p actions i el (.ok outcome)) ∧
      ((i, el, outcome) ∈ p.deliveries actions →
        ∃ before after, actions = before ++ .turn i :: after ∧
          ((p.course before).runTask i).document.journal =
            (p.course before).document.journal ++ block el outcome ∧
          (outcome = .activated ↔
            ((p.course before).runTask i).document.hasInertAncestor el = false)) := by
  have hkept := kept_course p actions
  refine ⟨⟨fun a => (hkept.act a).operations, fun q r => Operation.advances⟩, ⟨?_, ?_, ?_, ?_⟩,
    written_eq p actions, hkept.distinct, hkept.activated, fun i el outcome =>
      ⟨mem_deliveries, exists_turn_of_mem_deliveries⟩⟩
  · intro i j el result result' hi hj hresult hresult'
    exact hkept.once i j el (hi.mem_work hresult) (hj.mem_work hresult')
  · exact fun i el result h hresult => h.mem_work hresult
  · exact hkept.once
  · intro i hnone
    have hturn := turn_cases (p.course actions) i
    rw [hnone] at hturn
    obtain ⟨hmodules, hbindings, -, hsurroundings⟩ := hturn.untouched
    exact ⟨hmodules, hbindings, hsurroundings⟩

/-- A page with an element that has an inert parent. -/
def nestedPage : Page :=
  { modules := { join := Url.joinTexts }
    document := { elements := [{ parent := none, attributes := [("x-data", "box")] },
      { parent := some ⟨0⟩, attributes := [("x-load", "eager")] }] } }

-- The second call for the inner element is skipped, and the first hands it back while the outer
-- element is still inert.
example : nestedPage.deliveries [.discover ⟨0⟩, .handle ⟨1⟩, .handle ⟨1⟩, .turn 1, .turn 0,
    .activate ⟨0⟩, .turn 2] = [(1, ⟨1⟩, .nested), (2, ⟨0⟩, .activated)] := by
  decide +kernel

end Hydration.Page
