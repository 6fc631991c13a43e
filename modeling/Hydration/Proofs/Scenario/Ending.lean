import Hydration.Proofs.Page.Attended
import Hydration.Proofs.Scenario.Activation
import Hydration.Proofs.Scenario.Flags

/-!
# The end of a run

A scenario starts one task for each deferred element and never gives one up, so its page is attended
to from the start to the end of the run (`attended_start`, `ending`).  Before the tasks start, only
roots have been initialized (`journal_opened`), and the tree is the one that the elements and their
parents describe (`elements_document`, `above_iff`).
-/

namespace Hydration.Scenario

variable {s : Scenario} {join : Url.Joiner} {p q : Page} {d : Document} {el a x : ElementRef}
  {e f : ElementSpec}

/-! ## Keys -/

theorem keyOf_eq (he : s.elements[el.index]? = some e) : s.keyOf el = e.key := by
  rw [keyOf, he]

/-- The keys of the deferred elements. -/
theorem map_keyOf_deferred :
    s.deferred.map s.keyOf = (s.elements.filter (·.load.isSome)).map (·.key) := by
  have hkey : ∀ y ∈ s.elements.zipIdx.filter (·.1.load.isSome),
      s.keyOf ⟨y.2⟩ = y.1.key := fun y hy =>
    keyOf_eq (List.mem_zipIdx_iff_getElem?.mp (List.mem_of_mem_filter hy))
  have hfst : (s.elements.zipIdx.filter (·.1.load.isSome)).map (·.1) =
      s.elements.filter (·.load.isSome) := by
    have hmap := List.filter_map (f := Prod.fst) (p := fun e : ElementSpec => e.load.isSome)
      (l := s.elements.zipIdx)
    rw [List.zipIdx_map_fst] at hmap
    exact hmap.symm
  rw [deferred, List.map_map, ← hfst, List.map_map]
  exact List.map_congr_left hkey

/-- Elements are told apart by their keys. -/
theorem eq_of_keyOf (hkeys : (s.elements.map (·.key)).Nodup) (ha : s.elements[a.index]? = some e)
    (hx : s.elements[x.index]? = some f) (h : s.keyOf a = s.keyOf x) : a = x := by
  rw [keyOf_eq ha, keyOf_eq hx] at h
  exact Option.some.inj (((element?_eq_some_iff hkeys ha).mpr rfl).symm.trans
    ((element?_eq_some_iff hkeys hx).mpr h))

/-! ## The tree -/

/-- The parent that an element is given is the element with the key of its parent. -/
theorem element?_of_earlier {parent : String} {n index : ℕ}
    (h : ((s.elements.take n).map (·.key)).findIdx? (· == parent) = some index) :
    s.element? parent = some ⟨index⟩ := by
  rw [List.findIdx?_map] at h
  have hfull : s.elements.findIdx? (·.key == parent) = some index := by
    rw [← List.take_append_drop n s.elements, List.findIdx?_append,
      show (s.elements.take n).findIdx? (·.key == parent) = some index from h]
    rfl
  rw [element?, hfull]
  rfl

theorem addElement_ok {keys : List String} {d' : Document} {n : ℕ}
    (hkeys : keys = (s.elements.take n).map (·.key)) (h : s.addElement keys d e = .ok d') :
    d'.elements =
      d.elements ++ [{ parent := e.parent.bind s.element?, attributes := s.attributesOf e }] := by
  rw [addElement] at h
  split at h
  · cases h
  · cases hparent : e.parent with
    | none =>
      rw [hparent] at h
      cases h
      rfl
    | some parent =>
      rw [hparent] at h
      cases hindex : keys.findIdx? (· == parent) with
      | none =>
        simp only [hindex] at h
        cases h
      | some index =>
        simp only [hindex] at h
        cases h
        rw [Option.bind_some, element?_of_earlier (hkeys ▸ hindex)]
        rfl

/-- **The elements of an accepted document** have the parents and the attributes of the scenario. -/
theorem elements_document (h : s.document = .ok d) : d.elements = s.elements.map fun e =>
    { parent := e.parent.bind s.element?, attributes := s.attributesOf e } := by
  have hrest : ∀ (rest : List ElementSpec) (n : ℕ) (d₀ : Document),
      (rest.zipIdx n).foldlM (fun (d : Document) (e : ElementSpec × Nat) =>
        s.addElement ((s.elements.take e.2).map (·.key)) d e.1) d₀ = .ok d →
      d.elements = d₀.elements ++ rest.map fun e =>
        { parent := e.parent.bind s.element?, attributes := s.attributesOf e } := by
    intro rest
    induction rest with
    | nil =>
      intro n d₀ h
      cases h
      exact (List.append_nil _).symm
    | cons e rest ih =>
      intro n d₀ h
      rw [List.zipIdx_cons, List.foldlM_cons] at h
      obtain ⟨d₁, hadded, h⟩ := bind_eq_ok h
      rw [ih (n + 1) d₁ h, addElement_ok rfl hadded, List.append_assoc]
      rfl
  exact hrest s.elements 0 {} h

/-- **An element with another above it**: itself or an ancestor, as the keys of parents say. -/
inductive Within (s : Scenario) (a : ElementSpec) : ElementSpec → Prop where
  | self : Within s a a
  | child {e f : ElementSpec} (he : e ∈ s.elements) (hf : f ∈ s.elements)
      (hparent : e.parent = some f.key) (h : Within s a f) : Within s a e

theorem Within.mem {b : ElementSpec} (h : s.Within b e) (he : e ∈ s.elements) : b ∈ s.elements := by
  induction h with
  | self => exact he
  | child _ hf _ _ ih => exact ih hf

section Tree

variable (hkeys : (s.elements.map (·.key)).Nodup) (hd : s.document = .ok d)

include hkeys hd

theorem parent_iff (he : s.elements[x.index]? = some e) :
    d.Parent a x ↔ ∃ f, s.elements[a.index]? = some f ∧ e.parent = some f.key := by
  have hx : d.element? x =
      some { parent := e.parent.bind s.element?, attributes := s.attributesOf e } := by
    rw [Document.element?, elements_document hd, List.getElem?_map, he]
    rfl
  constructor
  · rintro ⟨y, hy, hparent⟩
    obtain rfl := Option.some.inj (hx.symm.trans hy)
    obtain ⟨key, hkey, ha⟩ := Option.bind_eq_some_iff.mp hparent
    obtain ⟨i, hi, rfl⟩ := Option.map_eq_some_iff.mp ha
    obtain ⟨hlt, -, -⟩ := List.findIdx?_eq_some_iff_getElem.mp hi
    have hf : s.elements[i]? = some s.elements[i] := List.getElem?_eq_getElem hlt
    have hsame : _ = s.elements[i].key := (element?_eq_some_iff hkeys hf).mp ha
    exact ⟨_, hf, by rw [hkey, hsame]⟩
  · rintro ⟨f, hf, hparent⟩
    refine ⟨_, hx, ?_⟩
    show e.parent.bind s.element? = some a
    rw [hparent, Option.bind_some, (element?_eq_some_iff hkeys hf).mpr rfl]

/-- **Ancestors in the document** are those that the scenario describes. -/
theorem above_iff (he : s.elements[x.index]? = some e) :
    d.Above a x ↔ ∃ f, s.elements[a.index]? = some f ∧ s.Within f e := by
  constructor
  · intro h
    induction h generalizing e with
    | refl => exact ⟨e, he, .self⟩
    | @tail y z _ hyz ih =>
      obtain ⟨f, hf, hparent⟩ := (parent_iff hkeys hd he).mp hyz
      obtain ⟨g, hg, hwithin⟩ := ih hf
      exact ⟨g, hg, .child (List.mem_of_getElem? he) (List.mem_of_getElem? hf) hparent hwithin⟩
  · rintro ⟨f, hf, hwithin⟩
    induction hwithin generalizing x with
    | self =>
      have hsame : a = x := eq_of_keyOf hkeys hf he (by rw [keyOf_eq hf, keyOf_eq he])
      rw [hsame]
      exact .refl
    | child _ hmem hparent _ ih =>
      obtain ⟨i, hi⟩ := List.getElem?_of_mem hmem
      exact .tail (ih hi) ((parent_iff hkeys hd he).mpr ⟨_, hi, hparent⟩)

end Tree

/-! ## The tasks -/

theorem kept_discovers (els : List ElementRef) {log : List (ℕ × ElementRef)}
    {handed : List (ℕ × ElementRef × Outcome)} (h : Page.Kept log handed p) :
    Page.Kept log handed (els.foldl (fun p el => (p.discover el).2) p) := by
  induction els generalizing p with
  | nil => exact h
  | cons el els ih => exact ih (h.discover el)

theorem kept_starts (els : List ElementRef) {log : List (ℕ × ElementRef)}
    {handed : List (ℕ × ElementRef × Outcome)} (h : Page.Kept log handed p) :
    Page.Kept log handed (els.foldl (fun p el => (p.startTask el true).2) p) := by
  induction els generalizing p with
  | nil => exact h
  | cons el els ih => exact ih (h.startTask el true)

/-- Nothing has been handed back when the tasks start. -/
theorem kept_start (h : s.page join = .ok p) : Page.Kept [] [] (s.start p) := by
  obtain ⟨document, platform, modules, -, -, -, hp⟩ := page_eq h
  have hempty : p.opened = p := by
    rw [hp]
    rfl
  have hkept := kept_discovers s.deferred (Page.kept_opened p)
  rw [hempty] at hkept
  exact kept_starts _ (hkept.congr rfl fun _ => rfl)

/-- **When the tasks have been started** the page is attended to. -/
theorem attended_start (h : s.page join = .ok p) :
    Page.Attended s.deferred (s.opened p).document.journal (s.start p) where
  sound := ((sound_opened h).run run_start).1
  elements := (current_start h).elements
  nodup := nodup_deferred
  onward i t ht := by
    obtain ⟨el, hel, rfl, -⟩ := getElem?_start h ht
    refine ⟨rfl, nofun, nofun, fun _ _ => ?_⟩
    rw [Page.state?, component?_start h hel]
    rfl
  history := by
    refine ⟨[], [], kept_start h, ?_⟩
    obtain ⟨queue, hstart, -⟩ := startTasks_eq s.deferred (s.opened p)
    rw [start_eq, hstart]
    exact (List.append_nil _).symm

/-- Before the tasks start, the journal tells of nothing but initialized trees. -/
theorem journal_opened (h : s.page join = .ok p) :
    ∃ roots : List ElementRef, (s.opened p).document.journal = roots.map .initialized := by
  have ho := opened_of_page h
  obtain ⟨roots, hroots⟩ := Document.journal_initTrees (d := (s.discovered p).document)
    (s.discovered p).document.roots
  have hdisc : Discovers s.deferred p (s.discovered p) := discovers_all s.deferred ho.built.cloning
  rw [hdisc.journal, ho.built.journal, List.nil_append] at hroots
  exact ⟨roots, hroots⟩

/-- **What a run that gives a report comes to.** -/
structure Ending (s : Scenario) (join : Url.Joiner) (p q : Page) : Prop where
  page : s.page join = .ok p
  keys : (s.elements.map (·.key)).Nodup
  attended : Page.Attended s.deferred (s.opened p).document.journal q
  skeleton : q.document.skeleton = p.document.skeleton

theorem ending {r : Report} (h : s.run join = .ok r) :
    ∃ p q, Ending s join p q ∧ r = s.report q := by
  obtain ⟨p, q, hpage, hplay, rfl⟩ := run_cases h
  obtain ⟨d, platform, modules, hd, -, -, -⟩ := page_eq hpage
  have hkeys := (built_of_document hd).keys
  rw [List.take_length] at hkeys
  have hpasses := passes_play hplay
  have hrun : Page.Run s.deferred (s.opened p) q := run_start.trans hpasses.run
  exact ⟨p, q, ⟨hpage, hkeys, (attended_start hpage).passes hpasses,
    ((sound_opened hpage).run hrun).2.skeleton.trans (opened_of_page hpage).skeleton⟩, rfl⟩

/-- A report has an entry for each deferred element, in document order. -/
theorem Ending.map_key (h : Ending s join p q) :
    (s.report q).components.map (·.key) = (s.elements.filter (·.load.isSome)).map (·.key) := by
  rw [← map_keyOf_deferred, ← h.attended.elements, report, List.map_map, List.map_map]
  rfl

end Hydration.Scenario
