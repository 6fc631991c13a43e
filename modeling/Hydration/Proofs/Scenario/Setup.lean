import Hydration.Proofs.Document.Initialization
import Hydration.Proofs.Page.Records
import Hydration.Scenario.Run
import Mathlib.Data.List.Nodup
import Mathlib.Data.List.Basic

/-!
# The page of a scenario

`Scenario.page` accepts a scenario only if its keys differ and each parent is listed
before its children.  `Built s n d` says what the document looks like once the first
`n` elements have been added, and `built_of_document` that an accepted document is
built from all of them.  `page_eq` lists the other parts of an accepted page.
-/

namespace Hydration.Scenario

variable {s : Scenario} {join : Url.Joiner} {p q r : Page} {d : Document} {el x : ElementRef}

/-! ## Computations that succeed -/

section Except

variable {ε ε' α β : Type} {a : α} {b : β} {x : Except ε α}

theorem bind_eq_ok {f : α → Except ε β} (h : x >>= f = .ok b) : ∃ a, x = .ok a ∧ f a = .ok b := by
  cases x with
  | error error => cases h
  | ok a => exact ⟨a, rfl, h⟩

theorem mapError_eq_ok {f : ε → ε'} (h : x.mapError f = .ok a) : x = .ok a := by
  cases x with
  | error error => cases h
  | ok a' =>
    cases h
    rfl

end Except

theorem element_ok {key : String} (h : s.element key = .ok el) : s.element? key = some el := by
  rw [element] at h
  split at h
  · next el' hel =>
    cases h
    exact hel
  · cases h

/-- A step that shows or hides an element finds it. -/
theorem setVisible_ok {key : String} {on : Bool}
    (h : (do return p.setVisible (← s.element key) on) = .ok q) :
    ∃ el, s.element? key = some el ∧ q = p.setVisible el on := by
  obtain ⟨el, hel, h⟩ := bind_eq_ok h
  exact ⟨el, element_ok hel, (Except.ok.inj h).symm⟩

/-! ## Deferred elements -/

theorem mem_deferred : el ∈ s.deferred ↔ ∃ e, s.elements[el.index]? = some e ∧ e.load.isSome := by
  rw [deferred, List.mem_map]
  constructor
  · rintro ⟨⟨e, i⟩, he, rfl⟩
    obtain ⟨he, hload⟩ := List.mem_filter.mp he
    exact ⟨e, List.mem_zipIdx_iff_getElem?.mp he, hload⟩
  · rintro ⟨e, he, hload⟩
    exact ⟨(e, el.index), List.mem_filter.mpr ⟨List.mem_zipIdx_iff_getElem?.mpr he, hload⟩, rfl⟩

theorem nodup_deferred : s.deferred.Nodup := by
  have hindices : (s.elements.zipIdx.map (·.2)).Nodup := by
    rw [List.zipIdx_map_snd]
    exact List.nodup_range'
  have hfiltered : ((s.elements.zipIdx.filter (·.1.load.isSome)).map (·.2)).Nodup :=
    hindices.sublist (List.filter_sublist.map _)
  rw [deferred]
  refine List.Nodup.of_map ElementRef.index ?_
  rw [List.map_map]
  exact hfiltered

/-! ## The document -/

/-- The entry behind the first `n`, and what comes behind it. -/
theorem split_of_drop {α : Type} {entries rest : List α} {entry : α} {n : Nat}
    (h : entries.drop n = entry :: rest) :
    entries[n]? = some entry ∧ entries.drop (n + 1) = rest := by
  constructor
  · rw [← Nat.add_zero n, ← List.getElem?_drop, h]
    rfl
  · rw [← List.drop_drop, h]
    rfl

/-- **The document of the first `n` elements**: their keys differ, each has the attributes that
the scenario gives it, and its parent comes before it. -/
structure Built (s : Scenario) (n : Nat) (d : Document) : Prop where
  length : d.elements.length = n
  element : ∀ i, i < n → ∃ e parent, s.elements[i]? = some e ∧
    d.elements[i]? = some { parent, attributes := s.attributesOf e } ∧
    ∀ a, parent = some a → a.index < i
  keys : ((s.elements.take n).map (·.key)).Nodup
  journal : d.journal = []
  bindings : d.bindings = []
  cloning : d.cloning = false

theorem built_nothing : Built s 0 {} :=
  ⟨rfl, fun _ h => absurd h (Nat.not_lt_zero _), by simp, rfl, rfl, rfl⟩

/-- An element with a new key whose parent comes before it extends what is built. -/
theorem Built.extend {n : Nat} {e : ElementSpec} (h : Built s n d) (he : s.elements[n]? = some e)
    {parent : Option ElementRef} (hparent : ∀ a, parent = some a → a.index < n)
    (hkey : e.key ∉ (s.elements.take n).map (·.key)) :
    Built s (n + 1) (d.add parent (s.attributesOf e)).2 := by
  refine ⟨by simp [Document.add, h.length], ?_, ?_, h.journal, h.bindings, h.cloning⟩
  · intro i hi
    rcases Nat.lt_succ_iff_lt_or_eq.mp hi with hlt | rfl
    · obtain ⟨e', parent', he', hel, hp⟩ := h.element i hlt
      refine ⟨e', parent', he', ?_, hp⟩
      rw [Document.add, List.getElem?_append_left (by rw [h.length]; exact hlt), hel]
    · refine ⟨e, parent, he, ?_, hparent⟩
      rw [Document.add, List.getElem?_append_right (Nat.le_of_eq h.length), h.length]
      simp
  · rw [List.take_add_one, he, List.map_append, List.nodup_append]
    refine ⟨h.keys, by simp, ?_⟩
    rintro k hk k' hk' rfl
    obtain rfl : k = e.key := by simpa using hk'
    exact hkey hk

/-- Adding an element that is accepted extends what is built. -/
theorem Built.add {n : Nat} {e : ElementSpec} {d' : Document} (h : Built s n d)
    (he : s.elements[n]? = some e)
    (hd' : s.addElement ((s.elements.take n).map (·.key)) d e = .ok d') : Built s (n + 1) d' := by
  rw [addElement] at hd'
  by_cases hkey : e.key ∈ (s.elements.take n).map (·.key)
  · rw [if_pos hkey] at hd'
    cases hd'
  · rw [if_neg hkey] at hd'
    cases hparent : e.parent with
    | none =>
      rw [hparent] at hd'
      cases hd'
      exact h.extend he (fun a ha => by cases ha) hkey
    | some parent =>
      rw [hparent] at hd'
      cases hindex : ((s.elements.take n).map (·.key)).findIdx? (· == parent) with
      | none =>
        simp only [hindex] at hd'
        cases hd'
      | some index =>
        simp only [hindex] at hd'
        cases hd'
        -- the parent was found among the first `n` keys
        have hbefore : ∀ a, some (ElementRef.mk index) = some a → a.index < n := by
          rintro a ⟨⟩
          have hlt := (List.findIdx?_eq_some_iff_getElem.mp hindex).1
          rw [List.length_map, List.length_take] at hlt
          exact (Nat.lt_min.mp hlt).1
        exact h.extend he hbefore hkey

theorem Built.addAll {rest : List ElementSpec} {n : Nat} {d₀ : Document} (hb : Built s n d₀)
    (hdrop : s.elements.drop n = rest) (hn : n ≤ s.elements.length)
    (hd : (rest.zipIdx n).foldlM
      (fun (d : Document) (e : ElementSpec × Nat) =>
        s.addElement ((s.elements.take e.2).map (·.key)) d e.1) d₀ = .ok d) :
    Built s s.elements.length d := by
  induction rest generalizing n d₀ with
  | nil =>
    have hlen : s.elements.length = n := Nat.le_antisymm (List.drop_eq_nil_iff.mp hdrop) hn
    cases hd
    exact hlen ▸ hb
  | cons e rest ih =>
    obtain ⟨he, hrest⟩ := split_of_drop hdrop
    rw [List.zipIdx_cons, List.foldlM_cons] at hd
    obtain ⟨d₁, hadded, hd⟩ := bind_eq_ok hd
    exact ih (hb.add he hadded) hrest (List.getElem?_eq_some_iff.mp he).1 hd

/-- **An accepted document** is built from all elements. -/
theorem built_of_document (h : s.document = .ok d) : Built s s.elements.length d :=
  built_nothing.addAll List.drop_zero (Nat.zero_le _) h

/-- An element of an accepted document as it was added. -/
theorem Built.element?_eq (h : Built s s.elements.length d) {f : Element}
    (hf : d.element? el = some f) : ∃ e parent, s.elements[el.index]? = some e ∧
      f = { parent, attributes := s.attributesOf e } ∧
      ∀ a, parent = some a → a.index < el.index := by
  have hlt : el.index < d.elements.length := (List.getElem?_eq_some_iff.mp hf).1
  rw [h.length] at hlt
  obtain ⟨e, parent, he, hel, hp⟩ := h.element el.index hlt
  rw [Document.element?, hel] at hf
  exact ⟨e, parent, he, (Option.some.inj hf).symm, hp⟩

theorem Built.exists_iff (h : Built s s.elements.length d) :
    d.Exists el ↔ (s.elements[el.index]?).isSome := by
  rw [Document.exists_iff, h.length, isSome_getElem?]

theorem Built.ordered (h : Built s s.elements.length d) : d.Ordered := by
  rintro a x ⟨f, hf, hp⟩
  obtain ⟨e, parent, -, rfl, hlt⟩ := h.element?_eq hf
  exact hlt a hp

theorem Built.not_inert (h : Built s s.elements.length d) : d.isInert el = false := by
  rw [Document.isInert]
  cases hf : d.element? el with
  | none => rfl
  | some f =>
    obtain ⟨e, parent, -, rfl, -⟩ := h.element?_eq hf
    rfl

theorem Built.not_initialized (h : Built s s.elements.length d) : d.isInitialized el = false := by
  rw [Document.isInitialized]
  cases hf : d.element? el with
  | none => rfl
  | some f =>
    obtain ⟨e, parent, -, rfl, -⟩ := h.element?_eq hf
    rfl

/-! ## The other parts of a page -/

/-- **An accepted page** has an accepted document, the options, modules and platform of the
scenario, and no components and tasks yet. -/
theorem page_eq (h : s.page join = .ok p) : ∃ document platform modules, s.document = .ok document ∧
    s.startingPlatform = .ok platform ∧ s.moduleTable join = .ok modules ∧
    p = { options := s.options, modules, document, surroundings := { platform } } := by
  rw [page] at h
  obtain ⟨document, hdocument, h⟩ := bind_eq_ok h
  obtain ⟨platform, hplatform, h⟩ := bind_eq_ok h
  obtain ⟨modules, hmodules, h⟩ := bind_eq_ok h
  exact ⟨document, platform, modules, mapError_eq_ok hdocument, mapError_eq_ok hplatform,
    mapError_eq_ok hmodules, (Except.ok.inj h).symm⟩

/-! ## Opening the page -/

/-- The page with the deferred elements discovered. -/
def discovered (s : Scenario) (p : Page) : Page :=
  s.deferred.foldl (fun p el => (p.discover el).2) p

/-- The page with the deferred elements discovered and the roots initialized. -/
def opened (s : Scenario) (p : Page) : Page :=
  (s.discovered p).onDocument fun d => d.roots.foldl Document.initTree d

theorem start_eq :
    s.start p = s.deferred.foldl (fun p el => (p.startTask el true).2) (s.opened p) :=
  rfl

/-- **What discovering does** to a page: the elements `els` that exist and have no component get
one and are inert from then on. -/
structure Discovers (els : List ElementRef) (p q : Page) : Prop where
  skeleton : q.document.skeleton = p.document.skeleton
  cloning : q.document.cloning = p.document.cloning
  journal : q.document.journal = p.document.journal
  initialized : ∀ x, q.document.isInitialized x = p.document.isInitialized x
  inert : ∀ x, q.document.isInert x = true ↔ p.document.isInert x = true ∨
    (x ∈ els ∧ p.component? x = none) ∧ p.document.Exists x
  component : ∀ x, q.component? x =
    if x ∈ els ∧ p.component? x = none then some { element := x } else p.component? x
  rest : q.tasks = p.tasks ∧ q.queue = p.queue ∧ q.surroundings = p.surroundings ∧
    q.options = p.options ∧ q.strategies = p.strategies ∧ q.modules = p.modules

theorem discovers_one (el : ElementRef) (hcloning : p.document.cloning = false) :
    Discovers [el] p (p.discover el).2 := by
  have hcomponent := fun x => Page.component?_discover el x hcloning
  cases hel : p.component? el with
  | some c =>
    rw [Page.discover_of_known (by rw [hel]; rfl)]
    refine ⟨rfl, rfl, rfl, fun _ => rfl, fun x => ?_, fun x => ?_, rfl, rfl, rfl, rfl, rfl, rfl⟩
    · simp only [List.mem_singleton, iff_self_or]
      rintro ⟨⟨rfl, hx⟩, -⟩
      rw [hel] at hx
      cases hx
    · rw [if_neg ?_]
      rintro ⟨hx, hnone⟩
      obtain rfl := List.mem_singleton.mp hx
      rw [hel] at hnone
      cases hnone
  | none =>
    have hnew : (p.discover el).2 = { p with
        components := Page.insertComponent { element := el } p.components
        document := p.document.markInert el } := by
      rw [Page.discover, if_neg (by simp [hcloning, hel])]
    refine ⟨?_, ?_, ?_, ?_, ?_, ?_, ?_⟩
    · rw [hnew]
      exact Document.skeleton_markInert
    · rw [hnew]
      rfl
    · rw [hnew]
      rfl
    · intro x
      rw [hnew]
      exact Document.isInitialized_markInert
    · intro x
      rw [hnew, Document.isInert_markInert]
      refine or_congr_right (and_congr_left fun _ => ?_)
      rw [List.mem_singleton]
      exact ⟨fun h => ⟨h, h ▸ hel⟩, And.left⟩
    · intro x
      rw [hcomponent]
      by_cases hx : x = el
      · subst hx
        simp [hel]
      · simp [hx]
    · rw [hnew]
      exact ⟨rfl, rfl, rfl, rfl, rfl, rfl⟩

theorem Discovers.trans {els els' : List ElementRef} (h : Discovers els p q)
    (h' : Discovers els' q r) : Discovers (els ++ els') p r where
  skeleton := h'.skeleton.trans h.skeleton
  cloning := h'.cloning.trans h.cloning
  journal := h'.journal.trans h.journal
  initialized x := (h'.initialized x).trans (h.initialized x)
  inert x := by
    rw [h'.inert, h.inert, h.component, Document.exists_congr h.skeleton, List.mem_append]
    by_cases hx : x ∈ els <;> by_cases hnone : p.component? x = none <;> simp [hx, hnone]
  component x := by
    rw [h'.component, h.component]
    simp only [List.mem_append]
    by_cases hx : x ∈ els <;> by_cases hnone : p.component? x = none <;> simp [hx, hnone]
  rest := by
    obtain ⟨h1, h2, h3, h4, h5, h6⟩ := h.rest
    obtain ⟨g1, g2, g3, g4, g5, g6⟩ := h'.rest
    exact ⟨g1.trans h1, g2.trans h2, g3.trans h3, g4.trans h4, g5.trans h5, g6.trans h6⟩

theorem discovers_all (els : List ElementRef) (hcloning : p.document.cloning = false) :
    Discovers els p (els.foldl (fun p el => (p.discover el).2) p) := by
  induction els generalizing p with
  | nil => exact ⟨rfl, rfl, rfl, fun _ => rfl, by simp, by simp, rfl, rfl, rfl, rfl, rfl, rfl⟩
  | cons el els ih =>
    have hone := discovers_one el hcloning
    exact hone.trans (ih (hone.cloning.trans hcloning))

/-- **The opened page**: its deferred elements and no others are inert and have a component, which
is discovered; what no inert element keeps back is initialized. -/
structure Opened (s : Scenario) (p q : Page) : Prop where
  built : Built s s.elements.length p.document
  skeleton : q.document.skeleton = p.document.skeleton
  cloning : q.document.cloning = false
  consistent : q.document.Consistent
  inert : ∀ x, q.document.isInert x = true ↔ x ∈ s.deferred
  component : ∀ x, q.component? x = if x ∈ s.deferred then some { element := x } else none
  rest : q.tasks = p.tasks ∧ q.queue = p.queue ∧ q.surroundings = p.surroundings ∧
    q.options = p.options ∧ q.strategies = p.strategies ∧ q.modules = p.modules

theorem opened_of_page (h : s.page join = .ok p) : Opened s p (s.opened p) := by
  obtain ⟨d, platform, modules, hd, -, -, hp⟩ := page_eq h
  have hdocument : p.document = d := by rw [hp]
  have hb : Built s s.elements.length p.document := hdocument ▸ built_of_document hd
  have hdisc : Discovers s.deferred p (s.discovered p) := discovers_all s.deferred hb.cloning
  have hordered := (Document.ordered_congr hdisc.skeleton).mpr hb.ordered
  have hnone : ∀ x, p.component? x = none := fun x => by
    rw [hp]
    rfl
  refine ⟨hb, (Document.skeleton_initTrees _).trans hdisc.skeleton, ?_,
    Document.consistent_initRoots hordered fun x => (hdisc.initialized x).trans hb.not_initialized,
    fun x => ?_, fun x => ?_, hdisc.rest⟩
  · exact (Document.cloning_initTrees _).trans (hdisc.cloning.trans hb.cloning)
  · show ((s.discovered p).document.roots.foldl Document.initTree _).isInert x = true ↔ _
    rw [Document.isInert_initTrees, hdisc.inert, hb.not_inert, hb.exists_iff]
    constructor
    · rintro (hx | ⟨⟨hx, -⟩, -⟩)
      · cases hx
      · exact hx
    · intro hx
      obtain ⟨e, he, -⟩ := mem_deferred.mp hx
      exact .inr ⟨⟨hx, hnone x⟩, by rw [he]; rfl⟩
  · show (s.discovered p).component? x = _
    rw [hdisc.component, hnone]
    simp

end Hydration.Scenario
