import Hydration.Proofs.Page.Once
import Hydration.Proofs.Strategy.Awaited
import Hydration.Url.Parse
import Mathlib.Data.List.Induction

/-!
# The ids of components

An activation that begins records an id for its element: the author's id, or the next number
of the counter where the author gave none (`Naming`).  Numbers are never given twice, and an
id that has been recorded stays (`Named`).  So two components have the same id only if the
author's id of one of them is the number that was made up for the other (`ids_apart`), and
nothing prevents that.
-/

namespace Hydration.Page

variable {p q r : Page} {el x : ElementRef} {i : Nat} {component : ComponentHandle} {name : String}

theorem toString_inj {m n : Nat} : toString m = toString n ↔ m = n := by
  refine ⟨fun h => ?_, congrArg toString⟩
  have hdigits : Nat.toDigits 10 m = Nat.toDigits 10 n := String.ofList_injective h
  rw [← Nat.ofDigitChars_ten_toDigits (n := m), hdigits, Nat.ofDigitChars_ten_toDigits]

/-- The id that is recorded for an element. -/
def id? (p : Page) (el : ElementRef) : Option String :=
  (p.component? el).bind (·.id)

/-- The component that a call waits for with a status. -/
def waiting? : TaskStatus → Option ComponentHandle
  | .awaiting component _ _ _ => some component
  | _ => none

/-- The component that a call waits for. -/
def waitsFor? (p : Page) (call : Nat) : Option ComponentHandle :=
  p.tasks[call]?.bind fun t => waiting? t.status

theorem id?_congr (h : q.components = p.components) : q.id? x = p.id? x := by
  rw [id?, component?, h, id?, component?]

theorem id?_of_records (h : q.records = p.records) : q.id? x = p.id? x :=
  id?_congr (congrArg Records.components h)

theorem id?_modifyComponent {f : Component → Component} (hf : ∀ c, (f c).element = c.element) :
    (p.modifyComponent el f).id? x =
      if x = el then (p.component? x).bind fun c => (f c).id else p.id? x := by
  rw [id?, component?_modifyComponent hf]
  split
  · rw [Option.bind_map]
    rfl
  · rfl

/-- A change that keeps the id. -/
theorem id?_modifyComponent_of_same {f : Component → Component}
    (hf : ∀ c, (f c).element = c.element) (hid : ∀ c, (f c).id = c.id) :
    (p.modifyComponent el f).id? x = p.id? x := by
  rw [id?_modifyComponent hf, id?]
  simp only [hid, ite_self]

/-- A change that records an id. -/
theorem id?_modifyComponent_of_some {f : Component → Component} {id : String}
    (hf : ∀ c, (f c).element = c.element) (hid : ∀ c, (f c).id = some id)
    (hknown : (p.component? el).isSome) :
    (p.modifyComponent el f).id? x = if x = el then some id else p.id? x := by
  rw [id?_modifyComponent hf]
  split
  · next hx =>
    obtain ⟨c, hc⟩ := Option.isSome_iff_exists.mp hknown
    rw [hx, hc, Option.bind_some, hid]
  · rfl

theorem id?_handBack : (p.handBack el).2.id? x = p.id? x := by
  rw [id?, component?_handBack]
  split
  · rw [Option.bind_map]
    rfl
  · rfl

theorem id?_discover : (p.discover el).2.id? x = p.id? x := by
  cases hcloning : p.document.cloning with
  | true => rw [discover, if_pos (.inl hcloning)]
  | false =>
    rw [id?, component?_discover el x hcloning]
    split
    · next h => rw [h.1, id?, h.2]; rfl
    · rfl

theorem Progress.id? {turn : TaskStatus × Page} (h : Progress p component turn) :
    turn.2.id? x = p.id? x := by
  cases h with
  | failed hq => exact id?_of_records hq
  | waiting hq => exact id?_of_records hq
  | done hq => exact id?_handBack.trans (id?_of_records hq)

/-- An activation waits as long as it does for the component it began with. -/
theorem Progress.waiting_eq {turn : TaskStatus × Page} {waiting : ComponentHandle}
    (h : Progress p component turn) (hwaits : waiting? turn.1 = some waiting) :
    waiting = component := by
  cases h with
  | failed => cases hwaits
  | waiting => cases hwaits; rfl
  | done => cases hwaits

/-! ## Calls that wait -/

theorem waiting?_iff {status : TaskStatus} : waiting? status = some component ↔
    ∃ name requirement download, status = .awaiting component name requirement download := by
  constructor
  · intro h
    rw [waiting?.eq_def] at h
    split at h
    · next name requirement download =>
      cases h
      exact ⟨name, requirement, download, rfl⟩
    · cases h
  · rintro ⟨name, requirement, download, rfl⟩
    rfl

theorem waitsFor?_iff {call : Nat} : p.waitsFor? call = some component ↔
    ∃ t, p.tasks[call]? = some t ∧ waiting? t.status = some component :=
  Option.bind_eq_some_iff

theorem waitsFor?_setStatus {j : Nat} {status : TaskStatus} :
    (p.setStatus i status).waitsFor? j =
      if i = j then p.tasks[j]?.bind fun _ => waiting? status else p.waitsFor? j := by
  rw [waitsFor?, getElem?_setStatus]
  split
  · rw [Option.bind_map]
    rfl
  · rfl

/-! ## What an activation records -/

/-- Some numbers may have been given, and modules registered. -/
structure Numbered (p q : Page) : Prop where
  components : q.components = p.components
  document : q.document = p.document
  counter : p.counter ≤ q.counter

theorem numbered_nameFor (p : Page) (el : ElementRef) : Numbered p (p.nameFor el).2 := by
  rw [nameFor]
  dsimp only
  split
  · exact ⟨rfl, rfl, Nat.le_succ _⟩
  · exact ⟨rfl, rfl, Nat.le_refl _⟩

theorem Numbered.registerSource (h : Numbered p q) (hr : q.registerSource el name = .ok r) :
    Numbered p r := by
  rw [Page.registerSource] at hr
  split at hr
  · cases hr
    exact h
  · next url _ =>
    cases hregister : q.modules.registerUrl name url q.options with
    | error error =>
      rw [hregister] at hr
      cases hr
    | ok registered =>
      rw [hregister] at hr
      cases hr
      exact ⟨h.components, h.document, h.counter⟩

/-- The id of an element is the author's, or a number that the counter gives in between. -/
def Sourced (p q : Page) (el : ElementRef) (id : String) : Prop :=
  p.document.elementId? el = some id ∨ ∃ n, p.counter ≤ n ∧ n < q.counter ∧ id = toString n

theorem Numbered.idFor (h : Numbered p q) (el : ElementRef) :
    Numbered p (q.idFor el).2 ∧ Sourced p (q.idFor el).2 el (q.idFor el).1 := by
  rw [Page.idFor]
  split
  · next id hid => exact ⟨h, .inl (h.document ▸ hid)⟩
  · refine ⟨⟨h.components, h.document, Nat.le_succ_of_le h.counter⟩, .inr ⟨q.counter, h.counter, ?_⟩⟩
    exact ⟨Nat.lt_succ_self _, rfl⟩

/-- **What the first turn of an activation records.** -/
inductive Naming (p : Page) (el : ElementRef) : TaskStatus × Page → Prop where
  | unnamed {q : Page} {error : Failure} (hids : ∀ x, q.id? x = p.id? x)
      (hcounter : p.counter ≤ q.counter) : Naming p el (.ended (.error error), q)
  | named {id : String} {turn : TaskStatus × Page}
      (hids : ∀ x, turn.2.id? x = if x = el then some id else p.id? x)
      (hsource : Sourced p turn.2 el id)
      (hcounter : p.counter ≤ turn.2.counter)
      (hwaits : ∀ component, waiting? turn.1 = some component → component = ⟨el, id⟩) :
      Naming p el turn

/-- An element that is claimed has a record, and the claim changes neither ids nor numbers. -/
theorem numbered_of_claim (h : p.claim? el = some q) : q.document = p.document ∧
    q.counter = p.counter ∧ (∀ x, q.id? x = p.id? x) ∧ (q.component? el).isSome := by
  have hclaimed : q.state? el = some .awaitingRequirements := by rw [state?_claim h, if_pos rfl]
  obtain ⟨c, hc, -⟩ := Option.map_eq_some_iff.mp hclaimed
  have hknown : (q.component? el).isSome := hc ▸ rfl
  obtain ⟨-, -, rfl⟩ := claim?_eq_some.mp h
  exact ⟨rfl, rfl, fun x => id?_modifyComponent_of_same (fun _ => rfl) fun _ => rfl, hknown⟩

theorem beginActivation_naming (h : p.claim? el = some q) : Naming p el (p.beginActivation el) := by
  obtain ⟨hdocument, hcounter, hclaimed, hknown⟩ := numbered_of_claim h
  have hids : ∀ r : Page, r.components = q.components → ∀ x, r.id? x = p.id? x :=
    fun r hr x => (id?_congr hr).trans (hclaimed x)
  have hnamed := numbered_nameFor q el
  rw [beginActivation, h]
  dsimp only
  generalize q.nameFor el = named at hnamed ⊢
  obtain ⟨name, r⟩ := named
  dsimp only at hnamed ⊢
  split
  · exact .unnamed (hids r hnamed.components) (hcounter ▸ hnamed.counter)
  · next r' hregistered =>
    obtain ⟨hidentified, hsource⟩ := (hnamed.registerSource hregistered).idFor el
    generalize r'.idFor el = identified at hidentified hsource ⊢
    obtain ⟨id, u⟩ := identified
    dsimp only at hidentified hsource ⊢
    have hle : p.counter ≤ u.counter := hcounter ▸ hidentified.counter
    have hsource : Sourced p u el id := by
      rw [Sourced, ← hdocument, ← hcounter]
      exact hsource
    have hrecorded : ∀ {f : Component → Component}, (∀ c, (f c).element = c.element) →
        (∀ c, (f c).id = some id) →
        ∀ x, (u.modifyComponent el f).id? x = if x = el then some id else p.id? x := by
      intro f hf hid x
      rw [← hids u hidentified.components]
      refine id?_modifyComponent_of_some hf hid ?_
      rw [component?, hidentified.components]
      exact hknown
    split
    · exact .named (hrecorded (fun _ => rfl) fun _ => rfl) hsource hle
        fun _ hwaits => by cases hwaits
    · next tree _ =>
      generalize hfilled : u.modifyComponent el _ = filled
      have hids' : ∀ x, filled.id? x = if x = el then some id else p.id? x :=
        hfilled ▸ hrecorded (fun _ => rfl) fun _ => rfl
      have hprogress : Progress filled ⟨el, id⟩ (filled.await ⟨el, id⟩ name tree) := await_progress
      have hcounter' : (filled.await ⟨el, id⟩ name tree).2.counter = u.counter :=
        (congrArg Settings.counter settings_await).trans (hfilled ▸ rfl)
      refine .named (fun x => hprogress.id?.trans (hids' x)) ?_ (hcounter' ▸ hle)
        fun _ => hprogress.waiting_eq
      rw [Sourced, hcounter']
      exact hsource

/-! ## What is kept -/

variable {authored : ElementRef → String → Prop} {log : List (Nat × ElementRef)}
  {handed : List (Nat × ElementRef × Outcome)}

/-- **The ids of a page**, where `log` are the calls that have worked on elements and `authored`
says which ids the author gives. -/
structure Named (authored : ElementRef → String → Prop) (log : List (Nat × ElementRef))
    (p : Page) : Prop where
  /-- An element with an id has been worked on. -/
  worked : ∀ el id, p.id? el = some id → ∃ i, (i, el) ∈ log
  /-- An id is the author's or a number that has been given. -/
  source : ∀ el id, p.id? el = some id → authored el id ∨ ∃ n < p.counter, id = toString n
  /-- No number has been given to two elements. -/
  apart : ∀ el el' id, p.id? el = some id → p.id? el' = some id → el ≠ el' →
    authored el id ∨ authored el' id
  /-- A call waits for a component with the id that is recorded for its element. -/
  waits : ∀ call component, p.waitsFor? call = some component →
    p.id? component.element = some component.id

theorem named_opened (p : Page) : Named authored [] p.opened where
  worked _ _ h := nomatch h
  source _ _ h := nomatch h
  apart _ _ _ h := nomatch h
  waits _ _ h := nomatch h

theorem Named.log_append (h : Named authored log p) (log' : List (Nat × ElementRef)) :
    Named authored (log ++ log') p where
  worked el id hid := (h.worked el id hid).imp fun _ => List.mem_append_left log'
  source := h.source
  apart := h.apart
  waits := h.waits

/-- Nothing is recorded, and no call begins to wait. -/
theorem Named.keep (h : Named authored log p) (hids : ∀ x, q.id? x = p.id? x)
    (hcounter : p.counter ≤ q.counter)
    (hwaits : ∀ call component, q.waitsFor? call = some component →
      p.waitsFor? call = some component) : Named authored log q where
  worked el id hid := h.worked el id ((hids el).symm.trans hid)
  source el id hid := by
    refine (h.source el id ((hids el).symm.trans hid)).imp_right ?_
    rintro ⟨n, hn, hnumber⟩
    exact ⟨n, Nat.lt_of_lt_of_le hn hcounter, hnumber⟩
  apart el el' id hid hid' :=
    h.apart el el' id ((hids el).symm.trans hid) ((hids el').symm.trans hid')
  waits call component hcall := (hids _).trans (h.waits call component (hwaits call component hcall))

theorem waitsFor?_congr {call : Nat} (h : q.tasks = p.tasks) : q.waitsFor? call = p.waitsFor? call := by
  rw [waitsFor?, h, waitsFor?]

theorem Named.same (h : Named authored log p) (hids : ∀ x, q.id? x = p.id? x)
    (hcounter : p.counter ≤ q.counter) (htasks : q.tasks = p.tasks) : Named authored log q :=
  h.keep hids hcounter fun _ _ hcall => (waitsFor?_congr htasks).symm.trans hcall

/-- **An id is recorded** for an element that has none. -/
theorem Named.record {id : String} (h : Named authored log p) (hnone : p.id? el = none)
    (hids : ∀ x, q.id? x = if x = el then some id else p.id? x)
    (hsource : authored el id ∨ ∃ n, p.counter ≤ n ∧ n < q.counter ∧ id = toString n)
    (hcounter : p.counter ≤ q.counter) (htasks : q.tasks = p.tasks) :
    Named authored (log ++ [(i, el)]) q := by
  have hold : ∀ x id', x ≠ el → q.id? x = some id' → p.id? x = some id' := by
    intro x id' hx hid
    rwa [hids, if_neg hx] at hid
  have hnew : ∀ id', q.id? el = some id' → id' = id := by
    intro id' hid
    rw [hids, if_pos rfl] at hid
    exact (Option.some.inj hid).symm
  -- A number that is given now has not been given before.
  have hfirst : ∀ x, x ≠ el → q.id? x = some id → authored x id ∨ authored el id := by
    intro x hx hid
    rcases hsource with hauthor | ⟨n, hle, -, hnumber⟩
    · exact .inr hauthor
    · refine .inl ((h.source x id (hold x id hx hid)).resolve_right ?_)
      rintro ⟨m, hm, hsame⟩
      have hmn : m = n := toString_inj.mp (hsame.symm.trans hnumber)
      exact absurd hm (hmn ▸ Nat.not_lt_of_le hle)
  refine ⟨fun x id' hid => ?_, fun x id' hid => ?_, fun x y id' hid hid' hne => ?_, ?_⟩
  · by_cases hx : x = el
    · exact ⟨i, hx ▸ List.mem_append_right _ (List.mem_singleton_self _)⟩
    · exact (h.worked x id' (hold x id' hx hid)).imp fun _ => List.mem_append_left _
  · by_cases hx : x = el
    · subst hx
      rw [hnew id' hid]
      exact hsource.imp_right fun ⟨n, _, hlt, hnumber⟩ => ⟨n, hlt, hnumber⟩
    · refine (h.source x id' (hold x id' hx hid)).imp_right ?_
      rintro ⟨n, hn, hnumber⟩
      exact ⟨n, Nat.lt_of_lt_of_le hn hcounter, hnumber⟩
  · by_cases hx : x = el
    · subst hx
      cases hnew id' hid
      exact (hfirst y (Ne.symm hne) hid').symm
    · by_cases hy : y = el
      · subst hy
        cases hnew id' hid'
        exact hfirst x hx hid
      · exact h.apart x y id' (hold x id' hx hid) (hold y id' hy hid') hne
  · intro call component hcall
    have hid := h.waits call component ((waitsFor?_congr htasks).symm.trans hcall)
    rw [hids, if_neg, hid]
    rintro hel
    rw [hel, hnone] at hid
    cases hid

/-- The status of a call is set. -/
theorem Named.setStatus {status : TaskStatus} (h : Named authored log p)
    (hwaits : ∀ component, waiting? status = some component →
      p.id? component.element = some component.id) : Named authored log (p.setStatus i status) where
  worked := h.worked
  source := h.source
  apart := h.apart
  waits call component hcall := by
    rw [waitsFor?_setStatus] at hcall
    split at hcall
    · obtain ⟨t, -, hcall⟩ := Option.bind_eq_some_iff.mp hcall
      exact hwaits component hcall
    · exact h.waits call component hcall

/-- A call does not wait any more. -/
theorem Named.close {status : TaskStatus} (h : Named authored log p) (hopen : waiting? status = none) :
    Named authored log (p.setStatus i status) :=
  h.setStatus fun component hwaits => by rw [hopen] at hwaits; cases hwaits

/-! ## Actions -/

theorem id?_prepared (t : Task) (discovers : Bool) : (p.prepared t discovers).id? x = p.id? x := by
  rw [prepared]
  split
  · exact id?_discover
  · rfl

theorem counter_prepared (t : Task) (discovers : Bool) :
    (p.prepared t discovers).counter = p.counter := by
  rw [prepared]
  split
  · exact congrArg Settings.counter settings_discover
  · rfl

theorem skeleton_discover : (p.discover el).2.document.skeleton = p.document.skeleton := by
  rw [discover]
  split
  · rfl
  · exact Document.skeleton_markInert

theorem skeleton_prepared (t : Task) (discovers : Bool) :
    (p.prepared t discovers).document.skeleton = p.document.skeleton := by
  rw [prepared]
  split
  · exact skeleton_discover
  · rfl

theorem elementId?_congr (h : q.document.skeleton = p.document.skeleton) :
    q.document.elementId? x = p.document.elementId? x := by
  rw [Document.elementId?, Document.attribute?_congr h, Document.elementId?]

/-- What an action does to the ids. -/
structure NamedAct (authored : ElementRef → String → Prop) (log : List (Nat × ElementRef))
    (p q : Page) : Prop where
  named : Named authored log q
  /-- An id that has been recorded stays. -/
  stays : ∀ el id, p.id? el = some id → q.id? el = some id

theorem NamedAct.of_same {log' : List (Nat × ElementRef)} (h : Named authored (log ++ log') q)
    (hids : ∀ x, q.id? x = p.id? x) : NamedAct authored (log ++ log') p q :=
  ⟨h, fun el _ hid => (hids el).trans hid⟩

/-- **The first turn** of a call that claims its element. -/
theorem Named.begins (h : Named authored log p) (hkept : Kept log handed p)
    (hauthor : ∀ el id, p.document.elementId? el = some id → authored el id)
    (hclaim : p.claim? el = some q) (i : Nat) : NamedAct authored (log ++ [(i, el)]) p
      ((p.beginActivation el).2.setStatus i (p.beginActivation el).1) := by
  obtain ⟨f, r, id, -, hprogress⟩ := beginActivation_of_some hclaim
  have htasks : (p.beginActivation el).2.tasks = p.tasks := hprogress.tasks
  have hnone : p.id? el = none := by
    cases hid : p.id? el with
    | none => rfl
    | some id =>
      obtain ⟨j, hj⟩ := h.worked el id hid
      obtain ⟨s, hs, hpast⟩ := hkept.past j el hj
      rw [(claim?_eq_some.mp hclaim).2.1] at hs
      exact absurd (Option.some.inj hs).symm hpast
  have hnaming := beginActivation_naming hclaim
  generalize p.beginActivation el = turn at hnaming htasks ⊢
  cases hnaming with
  | unnamed hids hcounter =>
    exact .of_same (((h.same hids hcounter htasks).log_append _).close rfl) hids
  | @named id turn hids hsource hcounter hwaits =>
    have hrecorded : Named authored (log ++ [(i, el)]) turn.2 :=
      h.record hnone hids (hsource.imp_left (hauthor el id)) hcounter htasks
    refine ⟨hrecorded.setStatus fun component hstatus => ?_, fun x id' hid => ?_⟩
    · rw [hwaits component hstatus, hids]
      exact if_pos rfl
    · show turn.2.id? x = some id'
      rw [hids, if_neg, hid]
      rintro rfl
      rw [hnone] at hid
      cases hid

/-- **A later turn** of a call. -/
theorem Named.resumes {t : Task} {requirement : Evaluation NamedWait} {download : Download}
    (h : Named authored log p) (ht : p.tasks[i]? = some t)
    (hstatus : t.status = .awaiting component name requirement download)
    (log' : List (Nat × ElementRef)) :
    let turn := p.resumeActivation component name requirement download
    NamedAct authored (log ++ log') p (turn.2.setStatus i turn.1) := by
  intro turn
  have hprogress : Progress p component turn := resumeActivation_progress
  have hsame : Named authored log turn.2 :=
    h.same (fun x => hprogress.id?)
      (Nat.le_of_eq (congrArg Settings.counter settings_resumeActivation.symm)) hprogress.tasks
  refine .of_same ((hsame.log_append log').setStatus fun component' hwaits => ?_)
    fun x => hprogress.id?
  rw [hprogress.waiting_eq hwaits]
  have hcall : p.waitsFor? i = some component :=
    waitsFor?_iff.mpr ⟨t, ht, waiting?_iff.mpr ⟨_, _, _, hstatus⟩⟩
  exact hprogress.id?.trans (h.waits i component hcall)

theorem Named.turn (h : Named authored log p) (hkept : Kept log handed p)
    (hauthor : ∀ el id, p.document.elementId? el = some id → authored el id) (i : Nat) :
    NamedAct authored (log ++ (p.worksOn? i).toList.map fun el => (i, el)) p (p.runTask i) := by
  have hidle : ∀ log', NamedAct authored (log ++ log') p p := fun log' =>
    .of_same (h.log_append log') fun _ => rfl
  rw [runTask, worksOn?]
  cases ht : p.tasks[i]? with
  | none => exact hidle _
  | some t =>
    dsimp only
    cases hstatus : t.status with
    | ended result => exact hidle _
    | dropped => exact hidle _
    | fresh discovers =>
      dsimp only
      have hprepared : Named authored log (p.prepared t discovers) :=
        h.same (fun x => id?_prepared t discovers) (Nat.le_of_eq (counter_prepared t discovers).symm)
          (tasks_prepared discovers)
      by_cases hcancelled : t.cancelled = true
      · rw [if_pos hcancelled, if_pos hcancelled]
        exact .of_same ((h.log_append _).close rfl) fun _ => rfl
      · rw [if_neg hcancelled, if_neg hcancelled]
        show NamedAct authored _ p (((p.prepared t discovers).beginActivation t.element).2.setStatus i
          ((p.prepared t discovers).beginActivation t.element).1)
        cases hclaim : (p.prepared t discovers).claim? t.element with
        | none =>
          rw [beginActivation_of_none hclaim]
          exact .of_same ((hprepared.log_append _).close rfl) fun x => id?_prepared t discovers
        | some claimed =>
          obtain ⟨hnamed, hstays⟩ := hprepared.begins (hkept.prepared t discovers)
            (fun el id hid => hauthor el id
              ((elementId?_congr (skeleton_prepared t discovers)).symm.trans hid)) hclaim i
          exact ⟨hnamed, fun el id hid => hstays el id ((id?_prepared t discovers).trans hid)⟩
    | awaiting component name requirement download =>
      dsimp only
      by_cases hcancelled : t.cancelled = true
      · rw [if_pos hcancelled, if_pos hcancelled]
        have hreleased : Named authored log (p.releaseRequirement requirement) :=
          h.same (fun _ => rfl) (Nat.le_refl _) rfl
        exact .of_same ((hreleased.log_append _).close rfl) fun _ => rfl
      · rw [if_neg hcancelled, if_neg hcancelled]
        exact h.resumes ht hstatus _

/-- Calls are added or given up. -/
theorem Named.recalls {started : List Task} (h : Named authored log p) (hq : Recalls started p q)
    (hstarted : ∀ u ∈ started, waiting? u.status = none) (hids : ∀ x, q.id? x = p.id? x)
    (hcounter : q.counter = p.counter) : Named authored log q := by
  refine h.keep hids (Nat.le_of_eq hcounter.symm) fun call component hcall => ?_
  obtain ⟨u, hu, hwaits⟩ := waitsFor?_iff.mp hcall
  rcases hq.new call u hu with ⟨t, ht, -, hsame⟩ | hnew
  · exact waitsFor?_iff.mpr ⟨t, ht, hsame ▸ hwaits⟩
  · rw [hstarted u hnew] at hwaits
    cases hwaits

theorem counter_enqueue (task : Nat) : (p.enqueue task).counter = p.counter := by
  obtain ⟨queue, h⟩ := enqueue_eq p task
  rw [h]

theorem numbered_abort (p : Page) (i : Nat) :
    (p.abort i).2.components = p.components ∧ (p.abort i).2.counter = p.counter := by
  obtain ⟨tasks, queue, h⟩ := abort_eq p i
  rw [h]
  exact ⟨rfl, rfl⟩

theorem Named.startTask (h : Named authored log p) (el : ElementRef) (discovers : Bool) :
    NamedAct authored (log ++ []) p (p.startTask el discovers).2 := by
  have hids : ∀ x, (p.startTask el discovers).2.id? x = p.id? x := fun x =>
    id?_congr (components_enqueue _)
  refine .of_same (Named.log_append (h.recalls (recalls_startTask p el discovers) ?_ hids
    (counter_enqueue _)) []) hids
  intro u hu
  rw [List.mem_singleton.mp hu]
  rfl

theorem Named.act (h : Named authored log p) (hkept : Kept log handed p)
    (hauthor : ∀ el id, p.document.elementId? el = some id → authored el id) (a : Action)
    (hcounter : ∀ change, a = .outside change → p.counter ≤ (change p).counter) :
    NamedAct authored (log ++ p.workOf a) p (p.act a) := by
  cases a with
  | discover el =>
    have hsame : Named authored log (p.discover el).2 :=
      h.same (fun x => id?_discover)
        (Nat.le_of_eq (congrArg Settings.counter settings_discover.symm)) tasks_discover
    exact .of_same (hsame.log_append []) fun x => id?_discover
  | handle el => exact h.startTask el true
  | activate el => exact h.startTask el false
  | turn call => exact h.turn hkept hauthor call
  | abort call =>
    obtain ⟨hcomponents, hsame⟩ := numbered_abort p call
    have hids : ∀ x, (p.abort call).2.id? x = p.id? x := fun x => id?_congr hcomponents
    have hrecalls : Named authored log (p.abort call).2 :=
      h.recalls (recalls_abort p call) (fun _ hu => nomatch hu) hids hsame
    exact .of_same (hrecalls.log_append []) hids
  | outside change =>
    have hsame : Named authored log (p.act (.outside change)) :=
      h.same (fun x => rfl) (hcounter change rfl) rfl
    exact .of_same (hsame.log_append []) fun x => rfl

/-! ## Courses -/

/-- The author has given an element an id at some moment of a course. -/
def Authored (p : Page) (actions : List Action) (el : ElementRef) (id : String) : Prop :=
  ∃ before, before <+: actions ∧ (p.course before).document.elementId? el = some id

variable {actions : List Action}

theorem course_concat (p : Page) (actions : List Action) (a : Action) :
    p.course (actions ++ [a]) = (p.course actions).act a :=
  List.foldl_concat ..

theorem work_concat (p : Page) (actions : List Action) (a : Action) :
    p.work (actions ++ [a]) = p.work actions ++ (p.course actions).workOf a :=
  trace_concat ..

theorem Progress.skeleton {turn : TaskStatus × Page} (h : Progress p component turn) :
    turn.2.document.skeleton = p.document.skeleton := by
  cases h with
  | failed hq => exact (Keeps.of_records hq).skeleton
  | waiting hq => exact (Keeps.of_records hq).skeleton
  | done hq => exact skeleton_handBack.trans (Keeps.of_records hq).skeleton

/-- Only what happens outside changes the tree and the attributes. -/
theorem skeleton_act {a : Action} (hinside : ∀ change, a ≠ .outside change) :
    (p.act a).document.skeleton = p.document.skeleton := by
  cases a with
  | discover el => exact skeleton_discover
  | handle el => exact congrArg Document.skeleton (document_enqueue _)
  | activate el => exact congrArg Document.skeleton (document_enqueue _)
  | abort call => exact congrArg Document.skeleton document_abort
  | outside change => exact absurd rfl (hinside change)
  | turn call =>
    have hturn := turn_cases p call
    show (p.runTask call).document.skeleton = _
    generalize p.worksOn? call = worked at hturn
    generalize p.runTask call = q at hturn ⊢
    cases hturn with
    | idle => rfl
    | dropped => rfl
    | skipped => exact skeleton_prepared _ _
    | begins _ _ _ _ _ hprogress => exact hprogress.skeleton.trans (skeleton_prepared _ _)
    | resumes _ _ hprogress => exact hprogress.skeleton

/-- Without such changes the author's ids are those of the page at the beginning. -/
theorem authored_iff {id : String} (hinside : ∀ change, .outside change ∉ actions) :
    p.Authored actions el id ↔ p.document.elementId? el = some id := by
  have hskeleton : ∀ before, before <+: actions →
      (p.course before).document.skeleton = p.document.skeleton := by
    intro before
    induction before using List.reverseRecOn with
    | nil => exact fun _ => rfl
    | append_singleton before a ih =>
      intro hbefore
      rw [course_concat, skeleton_act, ih ((List.prefix_append _ _).trans hbefore)]
      rintro change rfl
      exact hinside change (hbefore.subset (List.mem_append_right _ (List.mem_singleton_self _)))
  constructor
  · rintro ⟨before, hbefore, hid⟩
    rwa [elementId?_congr (hskeleton before hbefore)] at hid
  · exact fun hid => ⟨[], List.nil_prefix, hid⟩

/-- **A course** keeps what is said of the ids, and the ids that have been recorded. -/
theorem named_course (hcounter : ∀ before change, before ++ [.outside change] <+: actions →
      (p.course before).counter ≤ (change (p.course before)).counter)
    (hauthor : ∀ before el id, before <+: actions →
      (p.course before).document.elementId? el = some id → authored el id) :
    Named authored (p.work actions) (p.course actions) ∧ ∀ before el id, before <+: actions →
      (p.course before).id? el = some id → (p.course actions).id? el = some id := by
  induction actions using List.reverseRecOn with
  | nil =>
    refine ⟨named_opened p, fun before el id h hid => ?_⟩
    rwa [List.prefix_nil.mp h] at hid
  | append_singleton actions a ih =>
    have hprefix : actions <+: actions ++ [a] := List.prefix_append _ _
    obtain ⟨hnamed, hstays⟩ := ih (fun before change h => hcounter before change (h.trans hprefix))
      fun before el id h => hauthor before el id (h.trans hprefix)
    have hact := hnamed.act (kept_course p actions) (fun el id => hauthor actions el id hprefix) a
      (by rintro change rfl; exact hcounter actions change List.prefix_rfl)
    rw [course_concat, work_concat]
    refine ⟨hact.named, fun before el id h hid => ?_⟩
    rcases List.prefix_concat_iff.mp h with rfl | h
    · rwa [course_concat] at hid
    · exact hact.stays el id (hstays before el id h hid)

/-- Calls that wait for components of one element are the same. -/
theorem Kept.eq_of_waitsFor {i j : Nat} {other : ComponentHandle} (h : Kept log handed p)
    (hi : p.waitsFor? i = some component) (hj : p.waitsFor? j = some other)
    (hsame : component.element = other.element) : i = j := by
  have hwork : ∀ {call} {waiting : ComponentHandle}, p.waitsFor? call = some waiting →
      (call, waiting.element) ∈ log := by
    intro call waiting hwaits
    obtain ⟨t, ht, hstatus⟩ := waitsFor?_iff.mp hwaits
    obtain ⟨name, requirement, download, hstatus⟩ := waiting?_iff.mp hstatus
    obtain ⟨helement, -, hlog⟩ := h.awaits call t waiting _ _ _ ht hstatus
    exact helement ▸ hlog
  exact h.once i j _ (hwork hi) (hsame ▸ hwork hj)

/-- **Ids of components.**  Where no two elements have the same author's id, whatever the calls do
and whatever else changes without setting the counter back:

* Two components have the same id only if it is a number that has been made up for one of them and
  the author's id of the other.
* An id that has been recorded stays.
* If no number that has been made up is the author's id of any element, all components have
  different ids, and a load event is awaited by at most one of the calls whose components wait
  for events without naming one. -/
theorem ids_apart (p : Page) (actions : List Action)
    (hcounter : ∀ before change, before ++ [.outside change] <+: actions →
      (p.course before).counter ≤ (change (p.course before)).counter)
    (hauthored : ∀ el el' id, p.Authored actions el id → p.Authored actions el' id → el = el') :
    let now := p.course actions
    (∀ el el' id, now.id? el = some id → now.id? el' = some id → el ≠ el' →
      (∃ n < now.counter, id = toString n) ∧
        (p.Authored actions el id ∨ p.Authored actions el' id)) ∧
    (∀ before el id, before <+: actions → (p.course before).id? el = some id →
      now.id? el = some id) ∧
    ((∀ n < now.counter, ∀ el, ¬p.Authored actions el (toString n)) →
      (∀ el el' id, now.id? el = some id → now.id? el' = some id → el = el') ∧
      ∀ i j component other argument argument' id,
        now.waitsFor? i = some component → now.waitsFor? j = some other →
        (argument = none ∨ argument = some "") → (argument' = none ∨ argument' = some "") →
        Strategy.awaited component argument (.load id) = true →
        Strategy.awaited other argument' (.load id) = true → i = j) := by
  intro now
  have hauthor : ∀ before el id, before <+: actions →
      (p.course before).document.elementId? el = some id → p.Authored actions el id :=
    fun before el id h hid => ⟨before, h, hid⟩
  obtain ⟨hnamed, hstays⟩ := named_course hcounter hauthor
  have hcollide : ∀ el el' id, now.id? el = some id → now.id? el' = some id → el ≠ el' →
      (∃ n < now.counter, id = toString n) ∧
        (p.Authored actions el id ∨ p.Authored actions el' id) := by
    intro el el' id hid hid' hne
    have hone := hnamed.apart el el' id hid hid' hne
    refine ⟨?_, hone⟩
    rcases hone with hauthor | hauthor
    · exact (hnamed.source el' id hid').resolve_left fun h => hne (hauthored el el' id hauthor h)
    · exact (hnamed.source el id hid).resolve_left fun h => hne (hauthored el el' id h hauthor)
  refine ⟨hcollide, hstays, fun hnumbers => ?_⟩
  have hdistinct : ∀ el el' id, now.id? el = some id → now.id? el' = some id → el = el' := by
    intro el el' id hid hid'
    by_contra hne
    obtain ⟨⟨n, hn, rfl⟩, hauthor⟩ := hcollide el el' id hid hid' hne
    exact hauthor.elim (hnumbers n hn el) (hnumbers n hn el')
  refine ⟨hdistinct, fun i j component other argument argument' id hi hj hnone hnone' he he' => ?_⟩
  have hload : ∀ {c : ComponentHandle} {a : Option String}, (a = none ∨ a = some "") →
      Strategy.awaited c a (.load id) = true → c.id = id := by
    intro c a ha hawaited
    rcases Strategy.awaited_iff.mp hawaited with ⟨text, rfl, htext, -⟩ | ⟨-, hsame⟩
    · rcases ha with ha | ha
      · cases ha
      · exact absurd (Option.some.inj ha) htext
    · exact (Option.some.inj (congrArg Event.id hsame)).symm
  refine (kept_course p actions).eq_of_waitsFor hi hj (hdistinct _ _ id ?_ ?_)
  · rw [← hload hnone he]
    exact hnamed.waits i component hi
  · rw [← hload hnone' he']
    exact hnamed.waits j other hj

/-- A page with two elements, of which the author gives the first an id. -/
def pairPage (id : String) : Page :=
  { modules := { join := Url.joinTexts }
    document := { elements := [
      { parent := none, attributes := [("id", id), ("x-data", "box"), ("x-load", "event")] },
      { parent := none, attributes := [("x-data", "tab"), ("x-load", "event")] }] } }

/-- Both elements are activated. -/
def bothActivated : List Action :=
  [.handle ⟨0⟩, .handle ⟨1⟩, .turn 0, .turn 1]

/-- The author gives no id twice. -/
theorem authored_pairPage {id id' : String} {el : ElementRef}
    (h : (pairPage id).Authored bothActivated el id') : el = ⟨0⟩ ∧ id' = id := by
  rw [authored_iff (by simp [bothActivated])] at h
  obtain ⟨n⟩ := el
  match n with
  | 0 =>
    obtain ⟨hid, -⟩ := Option.filter_eq_some_iff.mp h
    exact ⟨rfl, (Option.some.inj hid).symm⟩
  | 1 => cases h
  | n + 2 => cases h

/-- **The author's id "0"** is also the first number that is made up: the components of two elements
have one id, and both calls await the load event for it. -/
theorem ids_collide :
    let now := (pairPage "0").course bothActivated
    (∀ el el' id, (pairPage "0").Authored bothActivated el id →
      (pairPage "0").Authored bothActivated el' id → el = el') ∧
    now.id? ⟨0⟩ = some "0" ∧ now.id? ⟨1⟩ = some "0" ∧
      now.waitsFor? 0 = some ⟨⟨0⟩, "0"⟩ ∧ now.waitsFor? 1 = some ⟨⟨1⟩, "0"⟩ ∧
      (now.publish (.load "0")).1 = 2 := by
  refine ⟨fun el el' id h h' => ?_, by decide +kernel⟩
  rw [(authored_pairPage h).1, (authored_pairPage h').1]

/-- Any other id of the author keeps the components apart. -/
theorem ids_apart_pairPage :
    let p := pairPage "banner"
    (∀ before change, before ++ [.outside change] <+: bothActivated →
      (p.course before).counter ≤ (change (p.course before)).counter) ∧
    (∀ el el' id, p.Authored bothActivated el id → p.Authored bothActivated el' id → el = el') ∧
    (∀ n < (p.course bothActivated).counter, ∀ el, ¬p.Authored bothActivated el (toString n)) ∧
    ∀ el el' id, (p.course bothActivated).id? el = some id →
      (p.course bothActivated).id? el' = some id → el = el' := by
  intro p
  have hcounter : ∀ before change, before ++ [.outside change] <+: bothActivated →
      (p.course before).counter ≤ (change (p.course before)).counter := by
    intro before change h
    have hmem := h.subset (List.mem_append_right _ (List.mem_singleton_self _))
    simp [bothActivated] at hmem
  have hauthored : ∀ el el' id, p.Authored bothActivated el id →
      p.Authored bothActivated el' id → el = el' := fun el el' id h h' => by
    rw [(authored_pairPage h).1, (authored_pairPage h').1]
  have hlast : (p.course bothActivated).counter = 1 := by decide +kernel
  have hnumbers : ∀ n < (p.course bothActivated).counter, ∀ el,
      ¬p.Authored bothActivated el (toString n) := by
    intro n hn el h
    obtain rfl : n = 0 := by omega
    exact absurd (authored_pairPage h).2 (by decide +kernel)
  exact ⟨hcounter, hauthored, hnumbers,
    ((ids_apart p bothActivated hcounter hauthored).2.2 hnumbers).1⟩

end Hydration.Page
