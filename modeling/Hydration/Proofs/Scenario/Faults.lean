import Hydration.Proofs.Module.Table
import Hydration.Proofs.Scenario.Ending
import Hydration.Proofs.Scenario.Names
import Hydration.Url.Parse

/-!
# What makes a run fail

A scenario may have **faults** that can be seen without running it: a key that is used twice, a
parent that does not come before its child, keys that no element has, and URLs that cannot be
resolved.  `Scenario.faults` lists them in the order in which a run comes upon them.

A run fails with the first fault, and if there is none it gives a report that has an entry for each
deferred element (`run_error_iff_fault`).  Requirements, modules and what happens to components are
not among the faults, so none of them can make a run fail.

Each part of a run stops at the first of its own faults (`StopsAt`), and the parts are put together
in their order.
-/

namespace Hydration

/-! ## Computations that stop at faults -/

section StopsAt

variable {ε ε' α β γ : Type} {fs gs : List ε} {P : α → Prop} {Q : β → Prop} {x : Except ε α}

/-- **A computation stops at** the first of some faults.  Where there are none it gives a result,
for which `P` holds. -/
def StopsAt (x : Except ε α) (P : α → Prop) : List ε → Prop
  | [] => ∃ a, x = .ok a ∧ P a
  | fault :: _ => x = .error fault

theorem StopsAt.ok {a : α} (h : P a) : StopsAt (ε := ε) (.ok a) P [] :=
  ⟨a, rfl, h⟩

theorem StopsAt.bind {f : α → Except ε β} (hx : StopsAt x P fs)
    (hf : ∀ a, P a → StopsAt (f a) Q gs) : StopsAt (x >>= f) Q (fs ++ gs) := by
  cases fs with
  | nil =>
    obtain ⟨a, rfl, ha⟩ := hx
    exact hf a ha
  | cons fault rest =>
    obtain rfl : x = .error fault := hx
    rfl

theorem StopsAt.pure {f : α → β} (hx : StopsAt x P fs) (hf : ∀ a, P a → Q (f a)) :
    StopsAt (x >>= fun a => .ok (f a)) Q fs := by
  have h : StopsAt (x >>= fun a => .ok (f a)) Q (fs ++ []) :=
    hx.bind fun a ha => StopsAt.ok (hf a ha)
  rwa [List.append_nil] at h

theorem StopsAt.mapError (hx : StopsAt x P fs) (f : ε → ε') :
    StopsAt (x.mapError f) P (fs.map f) := by
  cases fs with
  | nil =>
    obtain ⟨a, rfl, ha⟩ := hx
    exact ⟨a, rfl, ha⟩
  | cons fault rest =>
    obtain rfl : x = .error fault := hx
    rfl

theorem StopsAt.mapM {f : γ → Except ε β} {faults : γ → List ε}
    (hf : ∀ c, StopsAt (f c) (fun _ => True) (faults c)) (cs : List γ) :
    StopsAt (cs.mapM f) (fun _ => True) (cs.flatMap faults) := by
  induction cs with
  | nil => exact .ok trivial
  | cons c cs ih =>
    rw [List.mapM_cons, List.flatMap_cons]
    exact (hf c).bind fun b _ => ih.pure fun _ _ => trivial

/-- Over a list, where `inv` says what holds with the entries that are left. -/
theorem StopsAt.foldlM {f : β → γ → Except ε β} {faults : γ → List ε} (inv : List γ → β → Prop)
    (hf : ∀ c cs b, inv (c :: cs) b → StopsAt (f b c) (inv cs) (faults c)) {cs : List γ} {b : β}
    (hb : inv cs b) : StopsAt (cs.foldlM f b) (inv []) (cs.flatMap faults) := by
  induction cs generalizing b with
  | nil => exact .ok hb
  | cons c cs ih =>
    rw [List.foldlM_cons, List.flatMap_cons]
    exact (hf c cs b hb).bind fun b' hb' => ih hb'

theorem StopsAt.error_iff (hx : StopsAt x P fs) (fault : ε) :
    x = .error fault ↔ fs.head? = some fault := by
  cases fs with
  | nil =>
    obtain ⟨a, rfl, -⟩ := hx
    exact iff_of_false nofun nofun
  | cons first rest =>
    obtain rfl : x = .error first := hx
    simp

end StopsAt

namespace Scenario

variable (s : Scenario)

/-! ## Faults -/

/-- What is wrong with an element with the given key and parent that comes behind others. -/
def placeFaults (earlier : List String) (key : String) (parent : Option String) :
    List ConfigError :=
  (if key ∈ earlier then [.duplicateKey key] else []) ++
    match parent with
    | some parent => if parent ∈ earlier then [] else [.unknownParent key parent]
    | none => []

/-- What is wrong with the elements. -/
def elementFaults : List ConfigError :=
  s.elements.zipIdx.flatMap fun (e, i) =>
    placeFaults ((s.elements.take i).map (·.key)) e.key e.parent

/-- What is wrong with a key that is to be the key of an element. -/
def keyFaults (key : String) : List ConfigError :=
  if key ∈ s.elements.map (·.key) then [] else [.unknownElement key]

/-- What is wrong with a URL that is registered for a name. -/
def urlFaults (join : Url.Joiner) (entry : String × String) : List ModuleError :=
  if entry.1 ≠ "" ∧ entry.2 ≠ "" ∧ entry.1 ∉ s.modules.map (·.1) ∧
      s.options.keepRelativeUrls = false then
    match Url.resolve join entry.2 s.options.baseUrl with
    | .ok _ => []
    | .error cause => [.invalidUrl entry.2 cause]
  else []

end Scenario

/-- The key of the element that a step shows or hides. -/
def ScenarioStep.shown? : ScenarioStep → Option String
  | visible key => some key
  | hidden key => some key
  | _ => none

namespace Scenario

variable (s : Scenario)

/-- **The faults** of a scenario, in the order in which a run comes upon them. -/
def faults (join : Url.Joiner) : List Failure :=
  s.elementFaults.map .config ++ ((s.platform.visible.flatMap s.keyFaults).map .config ++
    ((s.urls.flatMap (s.urlFaults join)).map .module ++
      (s.timeline.flatMap fun step => step.shown?.toList.flatMap s.keyFaults).map .config))

variable {s} {join : Url.Joiner}

theorem stopsAt_addElement (keys : List String) (d : Document) (e : ElementSpec) :
    StopsAt (s.addElement keys d e) (fun _ => True) (placeFaults keys e.key e.parent) := by
  rw [addElement, placeFaults.eq_def]
  by_cases hkey : e.key ∈ keys
  · rw [if_pos hkey, if_pos hkey]
    rfl
  · rw [if_neg hkey, if_neg hkey]
    cases hparent : e.parent with
    | none => exact .ok trivial
    | some parent =>
      cases hindex : keys.findIdx? (· == parent) with
      | none =>
        have hunknown : parent ∉ keys := fun hmem => by
          have hne := List.findIdx?_eq_none_iff.mp hindex parent hmem
          rw [beq_self_eq_true] at hne
          cases hne
        simp only [hindex, if_neg hunknown]
        rfl
      | some index =>
        have hknown : parent ∈ keys := by
          obtain ⟨hlt, hparent, -⟩ := List.findIdx?_eq_some_iff_getElem.mp hindex
          exact eq_of_beq hparent ▸ List.getElem_mem hlt
        simp only [hindex, if_pos hknown]
        exact .ok trivial

theorem stopsAt_document : StopsAt s.document (fun _ => True) s.elementFaults :=
  StopsAt.foldlM (fun _ _ => True) (fun e _ d _ => stopsAt_addElement _ d e.1) trivial

theorem stopsAt_element (key : String) :
    StopsAt (s.element key) (fun _ => True) (s.keyFaults key) := by
  rw [element, element?, keyFaults]
  cases hindex : s.elements.findIdx? (·.key == key) with
  | none =>
    have hunknown : key ∉ s.elements.map (·.key) := by
      simpa using List.findIdx?_eq_none_iff.mp hindex
    rw [if_neg hunknown]
    rfl
  | some index =>
    have hknown : key ∈ s.elements.map (·.key) := by
      obtain ⟨hlt, hkey, -⟩ := List.findIdx?_eq_some_iff_getElem.mp hindex
      exact List.mem_map.mpr ⟨_, List.getElem_mem hlt, eq_of_beq hkey⟩
    rw [if_pos hknown]
    exact .ok trivial

theorem stopsAt_startingPlatform :
    StopsAt s.startingPlatform (fun _ => True) (s.platform.visible.flatMap s.keyFaults) :=
  (StopsAt.mapM stopsAt_element _).pure fun _ _ => trivial

/-! ## Modules -/

theorem isSome_entry?_registered (modules : List (String × ComponentModule)) (t : ModuleTable)
    (name : String) :
    (ModuleTable.entry? (modules.foldl (fun t m => t.register m.1 (.holding m.2)) t) name).isSome ↔
      name ∈ modules.map (·.1) ∨ (t.entry? name).isSome := by
  induction modules generalizing t with
  | nil => simp
  | cons first modules ih =>
    rw [List.foldl_cons, ih, ModuleTable.entry?_register, List.map_cons, List.mem_cons]
    by_cases hname : name = first.1 <;> simp [hname]

theorem join_registered (modules : List (String × ComponentModule)) (t : ModuleTable) :
    (modules.foldl (fun t m => t.register m.1 (.holding m.2)) t).join = t.join := by
  induction modules generalizing t with
  | nil => rfl
  | cons first modules ih => exact ih _

/-- The names that are left are registered only as modules, in a table that uses `join`. -/
def Left (s : Scenario) (join : Url.Joiner) (urls : List (String × String)) (t : ModuleTable) :
    Prop :=
  t.join = join ∧ (urls.map (·.1)).Nodup ∧
    ∀ name ∈ urls.map (·.1), (t.entry? name).isSome ↔ name ∈ s.modules.map (·.1)

theorem stopsAt_registerUrl {name url : String} {rest : List (String × String)} {t : ModuleTable}
    (h : s.Left join ((name, url) :: rest) t) :
    StopsAt (do return (← t.registerUrl name url s.options).2) (s.Left join rest)
      (s.urlFaults join (name, url)) := by
  obtain ⟨rfl, hnodup, hentry⟩ := h
  rw [List.map_cons, List.nodup_cons] at hnodup
  have hrest : s.Left t.join rest t :=
    ⟨rfl, hnodup.2, fun other hother => hentry other (List.mem_cons_of_mem _ hother)⟩
  -- An entry for this name is none for those that are left.
  have hset : ∀ entry, s.Left t.join rest (t.setEntry name entry) := fun entry =>
    ⟨rfl, hnodup.2, fun other hother => by
      have hne : other ≠ name := by
        rintro rfl
        exact hnodup.1 hother
      rw [ModuleTable.entry?_setEntry, if_neg hne]
      exact hrest.2.2 other hother⟩
  have hname := hentry name List.mem_cons_self
  rw [ModuleTable.registerUrl, urlFaults]
  by_cases hidle : name.isEmpty ∨ url.isEmpty ∨ (t.entry? name).isSome
  · rw [if_pos hidle, if_neg]
    · exact .ok hrest
    · rintro ⟨hn, hu, hm, -⟩
      rcases hidle with h | h | h
      · exact hn (String.isEmpty_iff.mp h)
      · exact hu (String.isEmpty_iff.mp h)
      · exact hm (hname.mp h)
  · rw [if_neg hidle]
    simp only [not_or, String.isEmpty_iff, hname] at hidle
    obtain ⟨hn, hu, hm⟩ := hidle
    by_cases hkeep : s.options.keepRelativeUrls = true
    · rw [if_pos hkeep, if_neg (by simp [hkeep])]
      exact .ok (hset _)
    · rw [if_neg hkeep, if_pos ⟨hn, hu, hm, by simpa using hkeep⟩]
      cases Url.resolve t.join url s.options.baseUrl with
      | ok resolved => exact .ok (hset _)
      | error cause => rfl

theorem stopsAt_moduleTable (h : (s.urls.map (·.1)).Nodup) :
    StopsAt (s.moduleTable join) (fun _ => True) (s.urls.flatMap (s.urlFaults join)) := by
  have hleft : StopsAt (s.moduleTable join) (s.Left join [])
      (s.urls.flatMap (s.urlFaults join)) := by
    refine StopsAt.foldlM (s.Left join) (fun _ _ _ => stopsAt_registerUrl)
      ⟨join_registered _ _, h, fun name _ => ?_⟩
    rw [isSome_entry?_registered]
    exact or_iff_left (by simp [ ModuleTable.entry?])
  have htrue := hleft.pure (f := id) (Q := fun _ => True) fun _ _ => trivial
  rwa [show (s.moduleTable join >>= fun t => .ok (id t)) = s.moduleTable join from bind_pure _]
    at htrue

/-! ## Passing -/

theorem stopsAt_apply (p : Page) (step : ScenarioStep) :
    StopsAt (s.apply p step) (fun _ => True) (step.shown?.toList.flatMap s.keyFaults) := by
  cases step with
  | visible key =>
    rw [ScenarioStep.shown?, Option.toList_some, List.flatMap_singleton]
    exact (stopsAt_element key).pure fun _ _ => trivial
  | hidden key =>
    rw [ScenarioStep.shown?, Option.toList_some, List.flatMap_singleton]
    exact (stopsAt_element key).pure fun _ _ => trivial
  | wait duration => exact .ok trivial
  | media query on => exact .ok trivial
  | idle happens => exact .ok trivial
  | event name => exact .ok trivial
  | load id => exact .ok trivial

theorem stopsAt_play (p : Page) :
    StopsAt (s.play p) (fun _ => True)
      (s.timeline.flatMap fun step => step.shown?.toList.flatMap s.keyFaults) := by
  have hsteps : StopsAt (s.timeline.foldlM (fun p step => s.apply (p.advance stepGap) step) p)
      (fun _ => True) (s.timeline.flatMap fun step => step.shown?.toList.flatMap s.keyFaults) :=
    StopsAt.foldlM (fun _ _ => True) (fun step _ p _ => stopsAt_apply (p.advance stepGap) step)
      trivial
  exact hsteps.pure fun _ _ => trivial

/-- **A run** stops at the first fault of the scenario. -/
theorem stopsAt_run (h : (s.urls.map (·.1)).Nodup) :
    StopsAt (s.run join) (fun _ => True) (s.faults join) := by
  have hpage : StopsAt (s.page join) (fun _ => True) (s.elementFaults.map .config ++
      ((s.platform.visible.flatMap s.keyFaults).map .config ++
        (s.urls.flatMap (s.urlFaults join)).map .module)) :=
    (stopsAt_document.mapError Failure.config).bind fun document _ =>
      (stopsAt_startingPlatform.mapError Failure.config).bind fun platform _ =>
        ((stopsAt_moduleTable h).mapError Failure.module).pure fun modules _ => trivial
  rw [faults, ← List.append_assoc (List.map _ _), ← List.append_assoc,
    List.append_assoc (List.map _ _)]
  exact hpage.bind fun p _ => ((stopsAt_play _).mapError Failure.config).pure fun _ _ => trivial

/-! ## Scenarios that were read -/

/-- **Scenarios that are checked alike**: they agree in what the faults are read off, but not in
requirements, in what modules hold, in what is served or in what else happens. -/
structure Alike (s s' : Scenario) : Prop where
  places : s'.elements.map (fun e => (e.key, e.parent)) = s.elements.map fun e => (e.key, e.parent)
  visible : s'.platform.visible = s.platform.visible
  names : s'.modules.map (·.1) = s.modules.map (·.1)
  urls : s'.urls = s.urls
  keepRelativeUrls : s'.options.keepRelativeUrls = s.options.keepRelativeUrls
  baseUrl : s'.options.baseUrl = s.options.baseUrl
  shown : s'.timeline.filterMap (·.shown?) = s.timeline.filterMap (·.shown?)

theorem elementFaults_eq (s : Scenario) : s.elementFaults =
    (s.elements.map fun e => (e.key, e.parent)).zipIdx.flatMap fun (place, i) =>
      placeFaults (((s.elements.map fun e => (e.key, e.parent)).take i).map (·.1))
        place.1 place.2 := by
  rw [elementFaults, List.zipIdx_map, List.flatMap_map]
  refine List.flatMap_congr fun ⟨e, i⟩ _ => ?_
  show _ =
    placeFaults (((s.elements.map fun e => (e.key, e.parent)).take i).map (·.1)) e.key e.parent
  rw [← List.map_take, List.map_map]
  rfl

theorem timelineFaults_eq (s : Scenario) :
    (s.timeline.flatMap fun step => step.shown?.toList.flatMap s.keyFaults) =
      (s.timeline.filterMap (·.shown?)).flatMap s.keyFaults := by
  rw [List.filterMap_eq_flatMap_toList, List.flatMap_assoc]

theorem Alike.faults_eq {s' : Scenario} (h : s.Alike s') : s'.faults join = s.faults join := by
  have hkeys : s'.elements.map (·.key) = s.elements.map (·.key) := by
    have hfst := congrArg (List.map Prod.fst) h.places
    rwa [List.map_map, List.map_map] at hfst
  have hkey : s'.keyFaults = s.keyFaults := by
    funext key
    rw [keyFaults, hkeys, keyFaults]
  have hurl : s'.urlFaults join = s.urlFaults join := by
    funext entry
    rw [urlFaults, h.names, h.keepRelativeUrls, h.baseUrl, urlFaults]
  rw [faults, faults, elementFaults_eq, h.places, ← elementFaults_eq, hkey, h.visible, h.urls, hurl,
    ← hkey, timelineFaults_eq s', h.shown, hkey, ← timelineFaults_eq s]

/-- **A run fails exactly with the first fault** of a scenario that was read.  The URLs stand in the
order of their names.  Whatever becomes of components is no fault: scenarios that are checked alike
fail alike, and where there is no fault each deferred element has its entry in the report, made of
its own task. -/
theorem run_error_iff_fault {text : String} (join : Url.Joiner) (h : ofFile text = .ok s) :
    (∀ error, s.run join = .error error ↔ (s.faults join).head? = some error) ∧
    (s.urls.map (·.1)).Pairwise (· < ·) ∧
    (∀ s', s.Alike s' → ∀ error, s'.run join = .error error ↔ s.run join = .error error) ∧
    ∀ r, s.run join = .ok r →
      r.components.map (·.key) = (s.elements.filter (·.load.isSome)).map (·.key) ∧
      ∃ q : Page, q.tasks.map (·.element) = s.deferred ∧
        r.components = q.tasks.map fun t => s.reportOn q t.element t.status := by
  have hsorted := sorted_urls h
  have hnodup : (s.urls.map (·.1)).Nodup := hsorted.imp fun hlt => hlt.ne
  refine ⟨(stopsAt_run hnodup).error_iff, hsorted, fun s' halike error => ?_, fun r hr => ?_⟩
  · rw [(stopsAt_run (halike.urls.symm ▸ hnodup)).error_iff, (stopsAt_run hnodup).error_iff,
      halike.faults_eq]
  · obtain ⟨p, q, hending, rfl⟩ := ending hr
    exact ⟨hending.map_key, q, hending.attended.elements, rfl⟩

/-- The file of a scenario that shows and hides elements which do not exist. -/
def absentFile : String :=
  "platform: \x7bvisible: [a, c]\x7d\nelements: [\x7bkey: a, load: ')'\x7d]\ntimeline: [hidden: d]\n"

/-- The file of a scenario with a URL that cannot be joined to the base. -/
def unjoinedFile : String :=
  "options: \x7bbase_url: app\x7d\nurls: \x7bbox: box.js\x7d\nelements: [\x7bkey: a\x7d]\n" ++
    "timeline: [hidden: d]\n"

/-- The file of a scenario in which the requirement of the first element cannot be read. -/
def unreadableFile : String :=
  "elements: [\x7bkey: a, load: ')'\x7d, \x7bkey: b, parent: a, load: ''\x7d]\n"

theorem eq_ok_of_toOption {ε α : Type} {x : Except ε α} {a : α} (h : x.toOption = some a) :
    x = .ok a := by
  cases x with
  | ok b => rw [Option.some.inj h]
  | error error => cases h

/-- The first fault of the scenario in a file, as `f` reads it. -/
theorem exists_first_fault {text : String} {α : Type} {f : Failure → Option α} {a : α}
    (h : ((ofFile text).toOption.bind fun s => (s.faults join).head?.bind f) = some a) :
    ∃ s error, ofFile text = .ok s ∧ (s.faults join).head? = some error ∧ f error = some a := by
  obtain ⟨s, hs, hfirst⟩ := Option.bind_eq_some_iff.mp h
  obtain ⟨error, hhead, herror⟩ := Option.bind_eq_some_iff.mp hfirst
  exact ⟨s, error, eq_ok_of_toOption hs, hhead, herror⟩

/-- The platform and the URLs are looked at before the timeline; and where only a requirement is at
fault, the other element has its entry in the report and an outcome. -/
theorem run_error_iff_fault_absent :
    (∃ s, ofFile absentFile = .ok s ∧
      s.run Url.joinTexts = .error (.config (.unknownElement "c"))) ∧
    (∃ s, ofFile unjoinedFile = .ok s ∧
      s.run Url.joinTexts = .error (.module (.invalidUrl "box.js" .relativeWithoutBase))) ∧
    ∃ s r, ofFile unreadableFile = .ok s ∧ s.run Url.joinTexts = .ok r ∧
      r.components.map (·.key) = ["a", "b"] ∧
      r.components.map (·.outcome) = [none, some .nested] := by
  refine ⟨?_, ?_, ?_⟩
  · have hfirst : ((ofFile absentFile).toOption.bind fun s =>
        (s.faults Url.joinTexts).head?.bind fun
          | .config error => some error
          | _ => none) = some (.unknownElement "c") := by decide +kernel
    obtain ⟨s, error, hs, hhead, herror⟩ := exists_first_fault hfirst
    cases error with
    | config error =>
      cases herror
      exact ⟨s, hs, ((run_error_iff_fault _ hs).1 _).mpr hhead⟩
    | _ => cases herror
  · have hfirst : ((ofFile unjoinedFile).toOption.bind fun s =>
        (s.faults Url.joinTexts).head?.bind fun
          | .module error => some error
          | _ => none) = some (.invalidUrl "box.js" .relativeWithoutBase) := by decide +kernel
    obtain ⟨s, error, hs, hhead, herror⟩ := exists_first_fault hfirst
    cases error with
    | module error =>
      cases herror
      exact ⟨s, hs, ((run_error_iff_fault _ hs).1 _).mpr hhead⟩
    | _ => cases herror
  · have hreport : ((ofFile unreadableFile).toOption.bind fun s =>
        (s.run Url.joinTexts).toOption.map fun r =>
          ((s.elements.filter (·.load.isSome)).map (·.key), r.components.map (·.outcome))) =
        some (["a", "b"], [none, some .nested]) := by decide +kernel
    obtain ⟨s, hs, hreport⟩ := Option.bind_eq_some_iff.mp hreport
    obtain ⟨r, hr, hpair⟩ := Option.map_eq_some_iff.mp hreport
    obtain ⟨hkeys, houtcomes⟩ := Prod.mk.inj hpair
    have hs := eq_ok_of_toOption hs
    have hr := eq_ok_of_toOption hr
    exact ⟨s, r, hs, hr, ((run_error_iff_fault _ hs).2.2.2 r hr).1.trans hkeys, houtcomes⟩

end Scenario

end Hydration
