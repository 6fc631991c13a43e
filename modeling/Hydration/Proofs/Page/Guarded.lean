import Hydration.Proofs.Page.Identity

/-!
# What holds of an element until it is activated

A property of the document **lasts** for an element if nothing that activation does to a document
takes it away, as long as the element itself is not handed back (`Lasting`).  Such a property is
`Guarded`: from the moment at which the element is discovered it holds until the element is
activated.  `Guarded.act` is the case of one action and `guarded_course` that of a course, in
which whatever else happens has to keep the property as well.
-/

namespace Hydration.Page

variable {p q r : Page} {el x : ElementRef} {component : ComponentHandle} {i : Nat}
  {P : Document → Prop} {actions : List Action}

/-- **A property of documents lasts** for an element: it is not taken away by marking elements, by
releasing others or by initializing trees. -/
structure Lasting (el : ElementRef) (P : Document → Prop) : Prop where
  elements : ∀ {d d' : Document}, d'.elements = d.elements → P d → P d'
  markInert : ∀ {d : Document} x, P d → P (d.markInert x)
  release : ∀ {d : Document} x, x ≠ el → P d → P (d.release x)
  initTree : ∀ {d : Document} x, P d → P (d.initTree x)

/-- **A property is guarded**: it holds while the element is known and not activated. -/
def Guarded (P : Document → Prop) (el : ElementRef) (p : Page) : Prop :=
  ∀ s, p.state? el = some s → s ≠ .activated → P p.document

/-- The state of the element may change before it is activated, while the property is kept. -/
theorem Guarded.keep (h : Guarded P el p) (hdocument : P p.document → P q.document)
    (hstate : ∀ s, q.state? el = some s → s ≠ .activated →
      ∃ s', p.state? el = some s' ∧ s' ≠ .activated) : Guarded P el q := by
  intro s hs hwaits
  obtain ⟨s', hs', hwaits'⟩ := hstate s hs hwaits
  exact hdocument (h s' hs' hwaits')

theorem Guarded.setStatus {status : TaskStatus} (h : Guarded P el p) :
    Guarded P el (p.setStatus i status) :=
  h

/-- Calls are made and given up. -/
theorem Guarded.recalls {started : List Task} (h : Guarded P el p) (hq : Recalls started p q)
    (hdocument : q.document = p.document) : Guarded P el q := by
  refine h.keep (fun hp => hdocument ▸ hp) fun s hs hwaits => ⟨s, ?_, hwaits⟩
  rwa [hq.state] at hs

/-- A claim does not touch the document. -/
theorem Guarded.claim {f : Component → Component} (h : Guarded P el p) (hf : Claimed p x f q) :
    Guarded P el (p.modifyComponent x f) := by
  have hstate : (p.modifyComponent x f).state? el =
      if el = x then some .awaitingRequirements else p.state? el :=
    state?_modifyComponent_of_some hf.element hf.state hf.discovered
  refine h.keep id fun s hs hwaits => ?_
  rw [hstate] at hs
  split at hs
  · next hel => exact ⟨.discovered, hel ▸ hf.discovered, nofun⟩
  · exact ⟨s, hs, hwaits⟩

theorem isSome_modifyComponent {f : Component → Component} (hf : ∀ c, (f c).element = c.element) :
    ((p.modifyComponent x f).component? el).isSome = (p.component? el).isSome := by
  rw [component?_modifyComponent hf]
  split
  · exact Option.isSome_map
  · rfl

theorem Progress.isSome {turn : TaskStatus × Page} (h : Progress p component turn) :
    (turn.2.component? el).isSome = (p.component? el).isSome := by
  cases h with
  | failed hq => rw [component?_congr hq]
  | waiting hq => rw [component?_congr hq]
  | done hq =>
    rw [component?_handBack, component?_congr hq]
    split
    · exact Option.isSome_map
    · rfl

section

variable (hP : Lasting el P)

include hP

theorem Guarded.congr (h : Guarded P el p) (hq : q.records = p.records) : Guarded P el q :=
  h.keep (hP.elements (congrArg Records.elements hq)) fun s hs hwaits =>
    ⟨s, (state?_congr hq).symm.trans hs, hwaits⟩

/-- The guard begins when the element is discovered. -/
theorem Guarded.discover (h : Guarded P el p)
    (hnew : p.component? el = none → ((p.discover x).2.component? el).isSome →
      P (p.document.markInert el)) : Guarded P el (p.discover x).2 := by
  rcases discover_cases p x with hsame | ⟨hnone, hstate⟩
  · rwa [hsame]
  · have hdocument : (p.discover x).2.document = p.document.markInert x := by
      have hx := hstate x
      rw [Page.discover] at hx ⊢
      split at hx
      · rw [if_pos rfl, hnone] at hx
        cases hx
      · next hfree => rw [if_neg hfree]
    by_cases hel : el = x
    · subst hel
      intro s hs _
      obtain ⟨c, hc, -⟩ := Option.map_eq_some_iff.mp hs
      rw [hdocument]
      exact hnew (state?_eq_none.mp hnone) (by rw [hc]; rfl)
    · refine h.keep (fun hp => hdocument ▸ hP.markInert x hp) fun s hs hwaits => ?_
      rw [hstate, if_neg hel] at hs
      exact ⟨s, hs, hwaits⟩

/-- The guard ends when the element is handed back, and other elements do not matter. -/
theorem Guarded.handBack (h : Guarded P el p) : Guarded P el (p.handBack x).2 := by
  intro s hs hwaits
  rw [state?_handBack] at hs
  by_cases hel : el = x
  · rw [if_pos hel] at hs
    obtain ⟨c, -, hactivated⟩ := Option.map_eq_some_iff.mp hs
    exact absurd hactivated.symm hwaits
  · rw [if_neg hel] at hs
    have hreleased : P (p.document.release x) := hP.release x (Ne.symm hel) (h s hs hwaits)
    rcases handBack_cases p x with ⟨hp, -⟩ | ⟨hp, -⟩
    · rw [hp]
      exact hreleased
    · rw [hp]
      exact hP.initTree x hreleased

theorem Guarded.progress {turn : TaskStatus × Page} (h : Guarded P el p)
    (hprogress : Progress p component turn) : Guarded P el (turn.2.setStatus i turn.1) := by
  cases hprogress with
  | failed hq => exact (h.congr hP hq).setStatus
  | waiting hq => exact (h.congr hP hq).setStatus
  | done hq => exact ((h.congr hP hq).handBack hP).setStatus

/-- **The turn of a call** keeps what is guarded. -/
theorem Guarded.turn (h : Guarded P el p)
    (hnew : p.component? el = none → ((p.runTask i).component? el).isSome →
      P (p.document.markInert el)) : Guarded P el (p.runTask i) := by
  have hturn := turn_cases p i
  generalize p.worksOn? i = worked at hturn
  generalize p.runTask i = q at hturn hnew ⊢
  have hprepared : ∀ t discovers, (q.component? el).isSome =
      ((p.prepared t discovers).component? el).isSome → Guarded P el (p.prepared t discovers) := by
    intro t discovers hknown
    rw [Page.prepared] at hknown ⊢
    split
    · next hdiscovers =>
      rw [if_pos hdiscovers] at hknown
      exact h.discover hP fun hnone hsome => hnew hnone (hknown.trans hsome)
    · exact h
  cases hturn with
  | idle => exact h
  | dropped requirement _ _ => exact (h.congr hP (records_releaseRequirement requirement)).setStatus
  | @skipped t discovers _ _ => exact (hprepared t discovers rfl).setStatus
  | @begins t discovers _ _ _ _ _ _ _ _ hf _ hprogress =>
    have hbegun : Guarded P el (p.prepared t discovers) :=
      hprepared t discovers (hprogress.isSome.trans (isSome_modifyComponent hf.element))
    exact (hbegun.claim hf).progress hP hprogress
  | resumes _ _ hprogress => exact h.progress hP hprogress

/-- **An action** keeps what is guarded, and so must whatever else happens. -/
theorem Guarded.act (h : Guarded P el p) (a : Action)
    (hnew : p.component? el = none → ((p.act a).component? el).isSome →
      P (p.document.markInert el))
    (houtside : ∀ change, a = .outside change → P p.document → P (change p).document) :
    Guarded P el (p.act a) := by
  cases a with
  | discover x => exact h.discover hP hnew
  | turn call => exact h.turn hP hnew
  | handle x => exact h.recalls (recalls_startTask p x true) (document_enqueue _)
  | activate x => exact h.recalls (recalls_startTask p x false) (document_enqueue _)
  | abort call => exact h.recalls (recalls_abort p call) document_abort
  | outside change => exact h.keep (houtside change rfl) fun s hs hwaits => ⟨s, hs, hwaits⟩

/-- **Along a course** a lasting property is guarded if it holds when the element is marked. -/
theorem guarded_course
    (hnew : ∀ before a, before ++ [a] <+: actions → (p.course before).component? el = none →
      ((p.course (before ++ [a])).component? el).isSome →
      P ((p.course before).document.markInert el))
    (houtside : ∀ before change, before ++ [.outside change] <+: actions →
      P (p.course before).document → P (change (p.course before)).document) :
    Guarded P el (p.course actions) := by
  induction actions using List.reverseRecOn with
  | nil => exact nofun
  | append_singleton actions a ih =>
    have hprefix : actions <+: actions ++ [a] := List.prefix_append _ _
    have hguarded := ih (fun before a h => hnew before a (h.trans hprefix))
      fun before change h => houtside before change (h.trans hprefix)
    have hlast := hnew actions a List.prefix_rfl
    rw [course_concat] at hlast ⊢
    refine hguarded.act hP a hlast ?_
    rintro change rfl
    exact houtside actions change List.prefix_rfl

end

end Hydration.Page
