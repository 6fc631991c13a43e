import Hydration.Proofs.Page.Wording
import Hydration.Proofs.Scenario.Setup
import Hydration.Url.Parse

/-!
# The prefix of attributes

The page of a scenario declares at each element what the scenario says, whatever the names of its
attributes begin with (`declaration_page`): no two of the names are the same, not even if they begin
with nothing.  So a scenario with another prefix has the same page in another wording
(`page_withPrefix`), which suits the page.  Each step of a timeline is an operation that is
indifferent to the wording, or it fails on every page (`Operates`), and the report does not tell the
wording.  Hence the run is the same for all prefixes (`run_withPrefix_eq`).
-/

namespace Hydration

/-- What a scenario says about an element. -/
def ElementSpec.declaration (e : ElementSpec) : Declaration :=
  { id := e.id, data := e.data, load := e.load, source := e.src }

namespace Scenario

variable {s : Scenario} {join : Url.Joiner} {p : Page} {d : Document} {el : ElementRef}
  {e : ElementSpec}
  {a : String} {w : Wording}

/-! ## What the page declares -/

theorem nodup_attributeNames (o : Options) : ["id", o.attributeName "data", o.attributeName "load",
    o.attributeName "load-src"].Nodup := by
  have hid : ∀ name : String, 2 < name.length → "id" ≠ o.attributeName name := by
    intro name hname heq
    have hlength := congrArg String.length heq
    rw [Options.attributeName, String.length_append, show "id".length = 2 from rfl] at hlength
    omega
  have hdata := hid "data" (by decide)
  have hload := hid "load" (by decide)
  have hsource := hid "load-src" (by decide)
  have hname : ∀ name name' : String, name ≠ name' → o.attributeName name ≠ o.attributeName name' :=
    fun name name' hne heq => hne ((String.append_right_inj _).mp heq)
  simp [hdata, hload, hsource, hname]

/-- The attributes with the values that are given. -/
def given (values : List (String × Option String)) : List (String × String) :=
  values.filterMap fun (name, value) => value.map fun value => (name, value)

theorem given_cons (name : String) (value : Option String) (values : List (String × Option String)) :
    given ((name, value) :: values) = (value.map fun text => (name, text)).toList ++ given values := by
  cases value with
  | none => rfl
  | some text => rfl

theorem lookup_given_of_not_mem {values : List (String × Option String)} {name : String}
    (h : name ∉ values.map (·.1)) : (given values).reverse.lookup name = none := by
  refine List.lookup_eq_none_iff.mpr fun found hfound => ?_
  obtain ⟨pair, hpair, hmap⟩ := List.mem_filterMap.mp (List.mem_reverse.mp hfound)
  obtain ⟨text, -, rfl⟩ := Option.map_eq_some_iff.mp hmap
  refine bne_iff_ne.mpr fun hsame => h ?_
  exact List.mem_map.mpr ⟨pair, hpair, hsame.symm⟩

/-- A value is found under its name, if no two names are the same. -/
theorem lookup_given {values : List (String × Option String)} {name : String}
    {value : Option String} (hnodup : (values.map (·.1)).Nodup) (hmem : (name, value) ∈ values) :
    (given values).reverse.lookup name = value := by
  induction values with
  | nil => cases hmem
  | cons pair values ih =>
    obtain ⟨first, text⟩ := pair
    obtain ⟨hnew, hrest⟩ := List.nodup_cons.mp hnodup
    rw [given_cons, List.reverse_append, List.lookup_append]
    rcases List.mem_cons.mp hmem with heq | hlater
    · obtain ⟨rfl, rfl⟩ := Prod.mk.inj heq
      rw [lookup_given_of_not_mem hnew]
      cases value with
      | none => rfl
      | some text => exact List.lookup_cons_self
    · have hne : name ≠ first := by
        rintro rfl
        exact hnew (List.mem_map.mpr ⟨_, hlater, rfl⟩)
      rw [ih hrest hlater]
      cases text with
      | none => exact Option.or_none
      | some text =>
        show value.or (List.lookup name [(first, text)]) = value
        rw [List.lookup_cons, beq_eq_false_iff_ne.mpr hne]
        exact Option.or_none

/-- **The page declares** at each element what the scenario says. -/
theorem declaration_page (h : s.page join = .ok p) (el : ElementRef) :
    p.declaration el = (s.elements[el.index]?).elim {} ElementSpec.declaration := by
  obtain ⟨document, platform, modules, hdocument, -, -, rfl⟩ := page_eq h
  have hbuilt := built_of_document hdocument
  cases he : s.elements[el.index]? with
  | none =>
    have hnone : document.element? el = none := by
      rw [Document.element?, List.getElem?_eq_none_iff, hbuilt.length]
      exact List.getElem?_eq_none_iff.mp he
    simp only [Page.declaration, Document.attribute?, hnone]
    rfl
  | some e =>
    have hlt : el.index < s.elements.length := (List.getElem?_eq_some_iff.mp he).1
    obtain ⟨e', parent, he', hel, -⟩ := hbuilt.element el.index hlt
    obtain rfl : e' = e := Option.some.inj (he'.symm.trans he)
    have hfound : ∀ name value, (name, value) ∈ [("id", e'.id),
        (s.options.attributeName "data", e'.data), (s.options.attributeName "load", e'.load),
        (s.options.attributeName "load-src", e'.src)] → document.attribute? el name = value := by
      intro name value hmem
      rw [Document.attribute?, Document.element?, hel, Option.bind_some]
      exact lookup_given (nodup_attributeNames s.options) hmem
    rw [Page.declaration, hfound "id" e'.id (by simp), hfound _ e'.data (by simp),
      hfound _ e'.load (by simp), hfound _ e'.src (by simp)]
    rfl

/-! ## The page with another prefix -/

/-- The scenario with another prefix of attributes. -/
def withPrefix (s : Scenario) (attributePrefix : String) : Scenario :=
  { s with options := { s.options with attributePrefix } }

/-- How a scenario writes what it declares. -/
def wording (s : Scenario) : Wording where
  attributePrefix := s.options.attributePrefix
  attributes el := (s.elements[el.index]?).elim [] s.attributesOf

theorem addElement_withPrefix (keys : List String) (he : s.elements[d.elements.length]? = some e) :
    (s.withPrefix a).addElement keys (d.reworded (s.withPrefix a).wording.attributes) e =
      (s.addElement keys d e).map (·.reworded (s.withPrefix a).wording.attributes) := by
  have hattributes : (s.withPrefix a).attributesOf e =
      (s.withPrefix a).wording.attributes ⟨d.elements.length⟩ := by
    show _ = (s.elements[d.elements.length]?).elim [] _
    rw [he]
    rfl
  have hadd : ∀ parent, ((d.reworded (s.withPrefix a).wording.attributes).add parent
        ((s.withPrefix a).attributesOf e)).2 =
      (d.add parent (s.attributesOf e)).2.reworded (s.withPrefix a).wording.attributes := by
    intro parent
    rw [hattributes, Document.add_reworded parent (s.attributesOf e)]
  rw [addElement, addElement]
  by_cases hkey : e.key ∈ keys
  · rw [if_pos hkey, if_pos hkey]
    rfl
  · rw [if_neg hkey, if_neg hkey]
    cases e.parent with
    | none => exact congrArg Except.ok (hadd none)
    | some parent =>
      cases hindex : keys.findIdx? (· == parent) with
      | none =>
        simp only [hindex]
        rfl
      | some index =>
        simp only [hindex]
        exact congrArg Except.ok (hadd (some ⟨index⟩))

theorem addAll_withPrefix {rest : List ElementSpec} {n : Nat} (hb : Built s n d)
    (hdrop : s.elements.drop n = rest) :
    (rest.zipIdx n).foldlM (fun (d : Document) (e : ElementSpec × Nat) =>
        (s.withPrefix a).addElement ((s.elements.take e.2).map (·.key)) d e.1)
      (d.reworded (s.withPrefix a).wording.attributes) =
    ((rest.zipIdx n).foldlM (fun (d : Document) (e : ElementSpec × Nat) =>
      s.addElement ((s.elements.take e.2).map (·.key)) d e.1) d).map
        (·.reworded (s.withPrefix a).wording.attributes) := by
  induction rest generalizing n d with
  | nil => rfl
  | cons e rest ih =>
    obtain ⟨he, hrest⟩ := split_of_drop hdrop
    rw [List.zipIdx_cons, List.foldlM_cons, List.foldlM_cons]
    dsimp only
    rw [addElement_withPrefix _ (hb.length ▸ he)]
    cases hadded : s.addElement ((s.elements.take n).map (·.key)) d e with
    | error error => rfl
    | ok d₁ => exact ih (hb.add he hadded) hrest

theorem document_withPrefix : (s.withPrefix a).document =
    s.document.map (·.reworded (s.withPrefix a).wording.attributes) :=
  addAll_withPrefix built_nothing List.drop_zero

/-- **The page with another prefix** is the same page in another wording. -/
theorem page_withPrefix : (s.withPrefix a).page join =
    (s.page join).map (·.reworded (s.withPrefix a).wording) := by
  rw [page, page, document_withPrefix, show (s.withPrefix a).startingPlatform = s.startingPlatform
    from rfl, show (s.withPrefix a).moduleTable join = s.moduleTable join from rfl]
  cases s.document with
  | error error => rfl
  | ok document =>
    cases s.startingPlatform with
    | error error => rfl
    | ok platform =>
      cases s.moduleTable join with
      | error error => rfl
      | ok modules => rfl

theorem suits_page (h : s.page join = .ok p) : p.Suits (s.withPrefix a).wording := by
  have hreworded : (s.withPrefix a).page join = .ok (p.reworded (s.withPrefix a).wording) := by
    rw [page_withPrefix, h]
    rfl
  intro el
  rw [declaration_page hreworded, declaration_page h]
  rfl

/-! ## The timeline -/

theorem indifferent_initRoots :
    Page.Indifferent w fun p => p.onDocument fun d => d.roots.foldl Document.initTree d := by
  intro p hp
  refine ⟨?_, hp.congr (Document.skeleton_initTrees _) rfl⟩
  have hinitialized : (p.reworded w).document.roots.foldl Document.initTree
      (p.reworded w).document =
      (p.document.roots.foldl Document.initTree p.document).reworded w.attributes := by
    show (p.document.reworded w.attributes).roots.foldl Document.initTree
      (p.document.reworded w.attributes) = _
    rw [Document.roots_reworded, Document.initTrees_reworded]
  exact congrArg (fun document => { p.reworded w with document }) hinitialized

theorem indifferent_start (s : Scenario) : Page.Indifferent w s.start :=
  ((Page.Indifferent.foldl Page.indifferent_discover s.deferred).comp indifferent_initRoots).comp
    (Page.Indifferent.foldl (fun el => Page.indifferent_startTask el true) s.deferred)

/-- **A computation operates on pages**: it fails on every page with the same error, or it carries
out the same operation on every page, which is indifferent to the wording. -/
def Operates (w : Wording) (compute : Page → Except ConfigError Page) : Prop :=
  (∃ error, ∀ p, compute p = .error error) ∨
    ∃ f, Page.Indifferent w f ∧ ∀ p, compute p = .ok (f p)

theorem Operates.of_indifferent {f : Page → Page} (h : Page.Indifferent w f) :
    Operates w fun p => .ok (f p) :=
  .inr ⟨f, h, fun _ => rfl⟩

theorem Operates.bind {compute compute' : Page → Except ConfigError Page} (h : Operates w compute)
    (h' : Operates w compute') : Operates w fun p => compute p >>= compute' := by
  rcases h with ⟨error, h⟩ | ⟨f, hf, h⟩
  · refine .inl ⟨error, fun p => ?_⟩
    dsimp only
    rw [h]
    rfl
  · rcases h' with ⟨error, h'⟩ | ⟨f', hf', h'⟩
    · refine .inl ⟨error, fun p => ?_⟩
      dsimp only
      rw [h]
      exact h' (f p)
    · refine .inr ⟨_, hf.comp hf', fun p => ?_⟩
      dsimp only
      rw [h]
      exact h' (f p)

/-- A step that needs an element fails if there is none. -/
theorem operates_setVisible (s : Scenario) (key : String) (on : Bool) :
    Operates w fun p => do return p.setVisible (← s.element key) on := by
  cases s.element key with
  | error error => exact .inl ⟨error, fun _ => rfl⟩
  | ok el =>
    refine .inr ⟨(Page.change · (.visible el on)), Page.indifferent_change _, fun p => ?_⟩
    exact congrArg Except.ok (Page.setVisible_eq on)

/-- **A step of a timeline.** -/
theorem operates_apply (s : Scenario) (step : ScenarioStep) : Operates w (s.apply · step) := by
  cases step with
  | wait duration => exact .of_indifferent (Page.indifferent_advance duration)
  | visible key => exact operates_setVisible s key true
  | hidden key => exact operates_setVisible s key false
  | media query on =>
    simp only [apply, Page.setMedia_eq]
    exact .of_indifferent (Page.indifferent_change _)
  | idle happens =>
    cases happens with
    | true =>
      simp only [apply, Page.triggerIdle_eq]
      exact .of_indifferent (Page.indifferent_change _)
    | false => exact .of_indifferent fun p hp => ⟨rfl, hp⟩
  | event name =>
    simp only [apply, Page.publish_eq]
    exact .of_indifferent (Page.indifferent_change _)
  | load id =>
    simp only [apply, Page.publish_eq]
    exact .of_indifferent (Page.indifferent_change _)

theorem operates_play (s : Scenario) : Operates w s.play := by
  have hsteps : ∀ steps : List ScenarioStep, Operates w fun p =>
      steps.foldlM (fun p step => s.apply (p.advance stepGap) step) p := by
    intro steps
    induction steps with
    | nil => exact .of_indifferent fun p hp => ⟨rfl, hp⟩
    | cons step steps ih =>
      have hstep : Operates w fun p => s.apply (p.advance stepGap) step :=
        (Operates.of_indifferent (Page.indifferent_advance stepGap)).bind (operates_apply s step)
      exact hstep.bind ih
  exact (hsteps s.timeline).bind (.of_indifferent (Page.indifferent_advance s.settleTime))

/-! ## Runs -/

/-- The report does not tell the wording. -/
theorem report_reworded : (s.withPrefix a).report (p.reworded w) = s.report p := by
  have hinert : ∀ el, (p.reworded w).document.isInert el = p.document.isInert el :=
    fun _ => Document.isInert_reworded
  have hinitialized : (p.reworded w).document.refs.filter (p.reworded w).document.isInitialized =
      p.document.refs.filter p.document.isInitialized := by
    show (p.document.reworded w.attributes).refs.filter _ = _
    rw [Document.refs_reworded]
    exact List.filter_congr fun _ _ => Document.isInitialized_reworded
  simp only [report, reportOn, hinert, hinitialized]
  rfl

theorem run_withPrefix (s : Scenario) (join : Url.Joiner) (a : String) :
    (s.withPrefix a).run join = s.run join := by
  rw [run, run, page_withPrefix]
  cases hpage : s.page join with
  | error error => rfl
  | ok p =>
    obtain ⟨hstart, hsuits⟩ := indifferent_start s p (suits_page (a := a) hpage)
    show ((s.play (s.start (p.reworded _))).mapError Failure.config).bind _ =
      ((s.play (s.start p)).mapError Failure.config).bind _
    rw [hstart]
    rcases operates_play s with ⟨error, hplay⟩ | ⟨f, hf, hplay⟩
    · rw [hplay, hplay]
      rfl
    · rw [hplay, hplay, (hf _ hsuits).1]
      exact congrArg Except.ok report_reworded

/-- **The run of a scenario is the same for all prefixes of attributes**, whether it gives a report
or an error, for whatever the prefix is, the page declares what the scenario says. -/
theorem run_withPrefix_eq (s : Scenario) (join : Url.Joiner) (a b : String) :
    (s.withPrefix a).run join = (s.withPrefix b).run join ∧
      ∀ p, (s.withPrefix a).page join = .ok p → ∀ el,
        p.declaration el = (s.elements[el.index]?).elim {} ElementSpec.declaration := by
  constructor
  · rw [run_withPrefix s join a, run_withPrefix s join b]
  · intro p hpage el
    exact declaration_page hpage el

/-- An element of which everything is declared. -/
def labelled : Scenario :=
  { options := { keepRelativeUrls := true }
    elements := [
      { key := "box", id := some "hero", data := some "box", load := some "eager",
        src := some "/box.js" }]
    served := [("/box.js", .component (.int 1))] }

/-- The declarations are read also if the names of attributes begin with nothing. -/
theorem run_withPrefix_eq_labelled :
    (labelled.withPrefix "").run Url.joinTexts = (labelled.withPrefix "x-").run Url.joinTexts ∧
      ((labelled.withPrefix "").run Url.joinTexts).toOption.map (fun r =>
        (r.components.map fun c => (c.id, c.name, c.state), r.fetched)) =
        some ([(some "hero", some "box", some .activated)], ["/box.js"]) := by
  refine ⟨(run_withPrefix_eq labelled Url.joinTexts "" "x-").1, ?_⟩
  decide +kernel

end Scenario

end Hydration
