import Hydration.Proofs.Module.Steps
import Hydration.Proofs.Module.Table
import Mathlib.Data.List.Nodup

/-!
# Downloads in flight

A **depot** is a table of modules with the data that has been bound and with the downloads
in flight: those that have asked an origin and wait for its answer.  Downloads begin, are
answered and are given up in any order, and in between sources, URLs and aliases are
registered.  What an origin answers is part of what happens, so a source that has failed
once may give a module the next time.

A download that brings a module is a **load**.  What happens to one name between two
registrations of a source for it is listed by `Effect`: a download asks the origin of its
entry, one that is in flight loads, or nothing of the kind.  `Account` sums this up: the
entry keeps its origin, and it is loaded as soon as some download has loaded, whichever
origin that download had asked.
-/

namespace Hydration

/-- A download that waits for an answer. -/
structure Flight where
  number : Nat
  name : String
  /-- The origin that has been asked. -/
  origin : Option ModuleOrigin

/-- A table of modules with its downloads in flight. -/
structure Depot where
  modules : ModuleTable
  /-- The data bound so far, the oldest first. -/
  bindings : List (String × Data) := []
  flights : List Flight := []
  /-- The number of the next download in flight. -/
  next : Nat := 0

namespace Depot

/-- What can happen in a depot. -/
inductive Happening where
  | register (name : String) (producer : Producer)
  | registerUrl (name url : String) (options : Options)
  | setAlias (alternative : ModuleAlias)
  /-- A download begins. -/
  | download (name : String) (options : Options)
  /-- The origin that a download has asked answers. -/
  | answer (number : Nat) (answer : Except ModuleError ComponentModule)
  /-- A download is given up. -/
  | drop (number : Nat)

/-- What becomes known when something happens. -/
inductive Notice where
  | nothing
  | registered (result : Except ModuleError Bool)
  /-- A download has ended without waiting. -/
  | settled (name : String) (result : Except ModuleError Bool)
  | asked (flight : Flight)
  /-- A download in flight has been answered and has ended. -/
  | ended (flight : Flight) (result : Except ModuleError Bool)

/-- Something happens.  An answer to a download that is not in flight is lost. -/
def act (d : Depot) : Happening → Notice × Depot
  | .register name producer => (.nothing, { d with modules := d.modules.register name producer })
  | .registerUrl name url options =>
    match d.modules.registerUrl name url options with
    | .ok (taken, modules) => (.registered (.ok taken), { d with modules })
    | .error error => (.registered (.error error), d)
  | .setAlias alternative =>
    (.nothing, { d with modules := { d.modules with fallback := some alternative } })
  | .download name options =>
    match d.modules.request name options with
    | (.settled result, modules) => (.settled name result, { d with modules })
    | (.answered _ _, modules) =>
      let flight : Flight := ⟨d.next, name, (modules.entry? name).map (·.origin)⟩
      (.asked flight, { d with modules, flights := d.flights ++ [flight], next := d.next + 1 })
  | .answer number answer =>
    match d.flights.find? (·.number == number) with
    | none => (.nothing, d)
    | some flight =>
      let (result, data, modules) := d.modules.receive flight.name answer
      (.ended flight result, { d with
        modules
        bindings := d.bindings ++ (data.map fun data => (flight.name, data)).toList
        flights := d.flights.filter (·.number ≠ flight.number) })
  | .drop number => (.nothing, { d with flights := d.flights.filter (·.number ≠ number) })

/-- The depot with the modules of a table after some happenings from the beginning. -/
def after (t : ModuleTable) (happenings : List Happening) : Depot :=
  (steps act { modules := t } happenings).2

/-- What has become known since the beginning. -/
def notices (t : ModuleTable) (happenings : List Happening) : List Notice :=
  (steps act { modules := t } happenings).1

/-- The downloads of a name that are in flight. -/
def flightsOf (d : Depot) (name : String) : List Flight :=
  d.flights.filter (·.name = name)

/-- The downloads of a name that have brought a module. -/
def loads (name : String) (notices : List Notice) : List Flight :=
  notices.filterMap fun
    | .ended flight (.ok _) => if flight.name = name then some flight else none
    | _ => none

/-- The data that has been bound under a name. -/
def boundUnder (name : String) (bindings : List (String × Data)) : List Data :=
  bindings.filterMap fun (name', data) => if name' = name then some data else none

variable {t : ModuleTable} {d d' start : Depot} {happening : Happening} {notice : Notice}
  {name other : String} {e : ModuleEntry} {f g : Flight} {number : Nat} {loaded : List Flight}

theorem loads_append (name : String) (notices rest : List Notice) :
    loads name (notices ++ rest) = loads name notices ++ loads name rest :=
  List.filterMap_append

theorem boundUnder_append (name : String) (bindings rest : List (String × Data)) :
    boundUnder name (bindings ++ rest) = boundUnder name bindings ++ boundUnder name rest :=
  List.filterMap_append

theorem mem_flightsOf : f ∈ d.flightsOf name ↔ f ∈ d.flights ∧ f.name = name := by
  rw [flightsOf, List.mem_filter, decide_eq_true_iff]

/-! ## Numbers -/

/-- Downloads in flight have different numbers, which have been given already. -/
structure Sound (d : Depot) : Prop where
  increasing : d.flights.Pairwise fun f g => f.number < g.number
  below : ∀ f ∈ d.flights, f.number < d.next

theorem Sound.filter (h : d.Sound) {modules : ModuleTable} {bindings : List (String × Data)}
    (keep : Flight → Bool) :
    Sound { d with modules, bindings, flights := d.flights.filter keep } where
  increasing := h.increasing.filter keep
  below f hf := h.below f (List.mem_filter.mp hf).1

theorem Sound.act (h : d.Sound) (happening : Happening) : (d.act happening).2.Sound := by
  cases happening with
  | register name producer => exact ⟨h.increasing, h.below⟩
  | registerUrl name url options =>
    rw [Depot.act]
    split
    · exact ⟨h.increasing, h.below⟩
    · exact h
  | setAlias alternative => exact ⟨h.increasing, h.below⟩
  | download name options =>
    rw [Depot.act]
    split
    · exact ⟨h.increasing, h.below⟩
    · refine ⟨List.pairwise_append.mpr ⟨h.increasing, List.pairwise_singleton _ _, ?_⟩, ?_⟩
      · intro f hf g hg
        rw [List.mem_singleton.mp hg]
        exact h.below f hf
      · intro f hf
        rcases List.mem_append.mp hf with hf | hf
        · exact Nat.lt_succ_of_lt (h.below f hf)
        · rw [List.mem_singleton.mp hf]
          exact Nat.lt_succ_self d.next
  | answer number answer =>
    rw [Depot.act]
    split
    · exact h
    · exact h.filter _
  | drop number => exact h.filter _

theorem Sound.run (h : d.Sound) (happenings : List Happening) :
    (steps Depot.act d happenings).2.Sound := by
  induction happenings generalizing d with
  | nil => exact h
  | cons happening happenings ih => exact ih (h.act happening)

theorem sound_after (t : ModuleTable) (happenings : List Happening) :
    (after t happenings).Sound :=
  have hempty : Sound { modules := t } := ⟨.nil, fun f hf => nomatch (hf : f ∈ [])⟩
  hempty.run happenings

/-! ## What happens to a name -/

/-- **What happens to a name** that has the entry `e`, unless a source is registered for it. -/
inductive Effect (name : String) (e : ModuleEntry) (d : Depot) : Notice → Depot → Prop where
  /-- A download asks the origin of the entry. -/
  | asks {modules : ModuleTable} (hunloaded : e.loaded = false)
      (hentry : modules.entry? name = some e) :
      Effect name e d (.asked ⟨d.next, name, some e.origin⟩)
        { d with
          modules
          flights := d.flights ++ [⟨d.next, name, some e.origin⟩]
          next := d.next + 1 }
  /-- A download in flight brings a module. -/
  | loads {f : Flight} (m : ComponentModule) (hf : f ∈ d.flights) (hname : f.name = name) :
      Effect name e d (.ended f (.ok true))
        { d with
          modules := d.modules.markLoaded name
          bindings := d.bindings ++ ((m.select name).map fun data => (name, data)).toList
          flights := d.flights.filter (·.number ≠ f.number) }
  /-- Nothing of the kind; downloads of the name may end without a module. -/
  | aside {notice : Notice} {d' : Depot} (hentry : d'.modules.entry? name = some e)
      (hflights : ∀ f ∈ d'.flightsOf name, f ∈ d.flightsOf name) (hnext : d.next ≤ d'.next)
      (hbound : boundUnder name d'.bindings = boundUnder name d.bindings)
      (hloads : loads name [notice] = []) :
      Effect name e d notice d'

/-- Only the modules change, and the name keeps its entry. -/
theorem Effect.keeps {modules : ModuleTable} (hentry : modules.entry? name = some e)
    (hloads : Depot.loads name [notice] = []) : Effect name e d notice { d with modules } :=
  .aside hentry (fun _ hf => hf) (Nat.le_refl _) rfl hloads

theorem mem_flightsOf_of_filter {keep : Flight → Bool} {modules : ModuleTable}
    {bindings : List (String × Data)}
    (hf : f ∈ flightsOf { d with modules, bindings, flights := d.flights.filter keep } name) :
    f ∈ d.flightsOf name := by
  obtain ⟨hmem, hname⟩ := mem_flightsOf.mp hf
  exact mem_flightsOf.mpr ⟨(List.mem_filter.mp hmem).1, hname⟩

theorem boundUnder_of_ne (hother : other ≠ name) (data : Option Data) :
    boundUnder name (data.map fun data => (other, data)).toList = [] := by
  cases data with
  | none => rfl
  | some data => simp [boundUnder, hother]

/-- A download of the name itself. -/
theorem effect_download (hentry : d.modules.entry? name = some e) (options : Options) :
    Effect name e d (d.act (.download name options)).1 (d.act (.download name options)).2 := by
  have hkeeps := ModuleTable.entry?_request_of_entry hentry name options
  rw [act]
  split
  · next result modules hrequest =>
    rw [hrequest] at hkeeps
    exact .keeps hkeeps rfl
  · next delay answer modules hrequest =>
    rw [hrequest] at hkeeps
    have hunloaded : e.loaded = false := by
      -- A download of a loaded module does not wait.
      by_contra hloaded
      have he : e = ⟨e.origin, true⟩ := by rw [← (Bool.not_eq_false _).mp hloaded]
      rw [ModuleTable.request_of_loaded (he ▸ hentry)] at hrequest
      cases hrequest
    have hasks := Effect.asks (d := d) hunloaded hkeeps
    rw [show (modules.entry? name).map (·.origin) = some e.origin by rw [hkeeps]; rfl]
    exact hasks

/-- A download of another name. -/
theorem effect_download_other (hentry : d.modules.entry? name = some e) (hother : other ≠ name)
    (options : Options) :
    Effect name e d (d.act (.download other options)).1 (d.act (.download other options)).2 := by
  have hkeeps := ModuleTable.entry?_request_of_entry hentry other options
  rw [act]
  split
  · next result modules hrequest =>
    rw [hrequest] at hkeeps
    exact .keeps hkeeps rfl
  · next delay answer modules hrequest =>
    rw [hrequest] at hkeeps
    refine .aside hkeeps (fun f hf => ?_) (Nat.le_succ _) rfl rfl
    obtain ⟨hmem, hname⟩ := mem_flightsOf.mp hf
    rcases List.mem_append.mp hmem with hmem | hmem
    · exact mem_flightsOf.mpr ⟨hmem, hname⟩
    · rw [List.mem_singleton.mp hmem] at hname
      exact absurd hname hother

/-- An answer. -/
theorem effect_answer (hentry : d.modules.entry? name = some e) (number : Nat)
    (answer : Except ModuleError ComponentModule) :
    Effect name e d (d.act (.answer number answer)).1 (d.act (.answer number answer)).2 := by
  rw [act]
  cases hflight : d.flights.find? (·.number == number) with
  | none => exact .keeps hentry rfl
  | some flight =>
    have hmem : flight ∈ d.flights := List.mem_of_find?_eq_some hflight
    cases answer with
    | error error =>
      refine .aside hentry (fun f hf => mem_flightsOf_of_filter hf) (Nat.le_refl _) ?_ rfl
      exact congrArg (boundUnder name) (List.append_nil _)
    | ok m =>
      by_cases hname : flight.name = name
      · have hloads := Effect.loads (e := e) m hmem hname
        simpa only [ModuleTable.receive_ok, hname] using hloads
      · refine .aside ?_ (fun f hf => mem_flightsOf_of_filter hf) (Nat.le_refl _) ?_ ?_
        · exact ModuleTable.entry?_markLoaded.trans ((if_neg (Ne.symm hname)).trans hentry)
        · exact (boundUnder_append name _ _).trans
            (by rw [boundUnder_of_ne hname, List.append_nil])
        · simp [Depot.loads, ModuleTable.receive_ok, hname]

/-- **A happening**, unless it registers a source for the name. -/
theorem effect_act (hentry : d.modules.entry? name = some e)
    (hkept : ∀ producer, happening ≠ .register name producer) :
    Effect name e d (d.act happening).1 (d.act happening).2 := by
  cases happening with
  | register other producer =>
    refine .keeps ?_ rfl
    rw [ModuleTable.entry?_register, if_neg, hentry]
    rintro rfl
    exact hkept producer rfl
  | registerUrl other url options =>
    rw [act]
    split
    · next taken modules hregister =>
      obtain ⟨offered, hoffer, -⟩ := ModuleTable.exists_offer_of_registerUrl hregister
      refine .keeps ?_ rfl
      rw [show modules = _ from congrArg Prod.snd hoffer,
        ModuleTable.entry?_offer_of_entry hentry]
    · exact .keeps hentry rfl
  | setAlias alternative => exact .keeps hentry rfl
  | download other options =>
    by_cases hother : other = name
    · rw [hother]
      exact effect_download hentry options
    · exact effect_download_other hentry hother options
  | answer number answer => exact effect_answer hentry number answer
  | drop number =>
    exact .aside hentry (fun f hf => mem_flightsOf_of_filter hf) (Nat.le_refl _) rfl rfl

/-! ## What has become of a name -/

/-- **What has become of a name** that had the entry `e` in the depot `start`, when the downloads
`loaded` have brought a module since. -/
structure Account (name : String) (e : ModuleEntry) (start : Depot) (loaded : List Flight)
    (d : Depot) : Prop where
  /-- The entry has its origin still, and it is loaded if any download has loaded. -/
  entry : d.modules.entry? name = some ⟨e.origin, e.loaded || !loaded.isEmpty⟩
  next : start.next ≤ d.next
  /-- A download was in flight at the start, or it has asked the origin of the entry. -/
  begun : ∀ f, f ∈ loaded ∨ f ∈ d.flightsOf name →
    f ∈ start.flightsOf name ∨ start.next ≤ f.number ∧ f.origin = some e.origin
  /-- A download that has loaded is not in flight any more. -/
  ended : ∀ f ∈ loaded, f.number < d.next ∧ ∀ g ∈ d.flightsOf name, g.number ≠ f.number
  distinct : (loaded.map (·.number)).Nodup
  bound : (boundUnder name d.bindings).length ≤
    (boundUnder name start.bindings).length + loaded.length

theorem account_start (hentry : d.modules.entry? name = some e) : Account name e d [] d where
  entry := by
    rw [hentry, List.isEmpty_nil, Bool.not_true, Bool.or_false]
  next := Nat.le_refl _
  begun f hf := .inl (hf.resolve_left nofun)
  ended := nofun
  distinct := .nil
  bound := Nat.le_add_right _ _

theorem Account.asks (h : Account name e start loaded d) {modules : ModuleTable}
    (hentry : modules.entry? name = some ⟨e.origin, e.loaded || !loaded.isEmpty⟩) :
    Account name e start loaded { d with
      modules
      flights := d.flights ++ [⟨d.next, name, some e.origin⟩]
      next := d.next + 1 } := by
  have hcases : ∀ f, f ∈ flightsOf { d with
      modules
      flights := d.flights ++ [⟨d.next, name, some e.origin⟩]
      next := d.next + 1 } name → f ∈ d.flightsOf name ∨ f = ⟨d.next, name, some e.origin⟩ := by
    intro f hf
    obtain ⟨hmem, hname⟩ := mem_flightsOf.mp hf
    rcases List.mem_append.mp hmem with hmem | hmem
    · exact .inl (mem_flightsOf.mpr ⟨hmem, hname⟩)
    · exact .inr (List.mem_singleton.mp hmem)
  refine ⟨hentry, Nat.le_succ_of_le h.next, ?_, ?_, h.distinct, h.bound⟩
  · rintro f (hf | hf)
    · exact h.begun f (.inl hf)
    · rcases hcases f hf with hf | rfl
      · exact h.begun f (.inr hf)
      · exact .inr ⟨h.next, rfl⟩
  · intro f hf
    obtain ⟨hlt, hne⟩ := h.ended f hf
    refine ⟨Nat.lt_succ_of_lt hlt, fun g hg => ?_⟩
    rcases hcases g hg with hg | rfl
    · exact hne g hg
    · exact Nat.ne_of_gt hlt

theorem Account.loads (h : Account name e start loaded d) (hsound : d.Sound) (m : ComponentModule)
    (hf : f ∈ d.flights) (hname : f.name = name) :
    Account name e start (loaded ++ [f]) { d with
      modules := d.modules.markLoaded name
      bindings := d.bindings ++ ((m.select name).map fun data => (name, data)).toList
      flights := d.flights.filter (·.number ≠ f.number) } := by
  have hflight : f ∈ d.flightsOf name := mem_flightsOf.mpr ⟨hf, hname⟩
  refine ⟨?_, h.next, ?_, ?_, ?_, ?_⟩
  · rw [ModuleTable.entry?_markLoaded, if_pos rfl, h.entry, Option.map_some]
    simp
  · rintro g (hg | hg)
    · rcases List.mem_append.mp hg with hg | hg
      · exact h.begun g (.inl hg)
      · rw [List.mem_singleton.mp hg]
        exact h.begun f (.inr hflight)
    · exact h.begun g (.inr (mem_flightsOf_of_filter hg))
  · intro g hg
    rcases List.mem_append.mp hg with hg | hg
    · obtain ⟨hlt, hne⟩ := h.ended g hg
      exact ⟨hlt, fun g' hg' => hne g' (mem_flightsOf_of_filter hg')⟩
    · rw [List.mem_singleton.mp hg]
      refine ⟨hsound.below f hf, fun g' hg' => ?_⟩
      simpa using (List.mem_filter.mp (mem_flightsOf.mp hg').1).2
  · rw [List.map_append, List.nodup_append]
    refine ⟨h.distinct, List.nodup_singleton _, ?_⟩
    rintro _ hn _ hn' rfl
    obtain ⟨g, hg, hnumber⟩ := List.mem_map.mp hn
    exact (h.ended g hg).2 f hflight ((List.mem_singleton.mp hn').symm.trans hnumber.symm)
  · have hone : (boundUnder name ((m.select name).map fun data => (name, data)).toList).length
        ≤ 1 := by
      cases m.select name with
      | none => exact Nat.zero_le 1
      | some data => simp [boundUnder]
    have hbound := h.bound
    rw [boundUnder_append, List.length_append, List.length_append, List.length_singleton]
    omega

/-- **A step** of the account. -/
theorem Account.act (h : Account name e start loaded d) (hsound : d.Sound)
    (hkept : ∀ producer, happening ≠ .register name producer) :
    Account name e start (loaded ++ Depot.loads name [(d.act happening).1])
      (d.act happening).2 := by
  have heffect := effect_act h.entry hkept
  generalize (d.act happening).1 = notice at heffect ⊢
  generalize (d.act happening).2 = d' at heffect ⊢
  cases heffect with
  | asks hunloaded hentry =>
    rw [show Depot.loads name _ = [] from rfl, List.append_nil]
    exact h.asks hentry
  | @loads f m hf hname =>
    rw [show Depot.loads name _ = [f] by simp [Depot.loads, hname]]
    exact h.loads hsound m hf hname
  | aside hentry hflights hnext hbound hloads =>
    rw [hloads, List.append_nil]
    refine ⟨hentry, Nat.le_trans h.next hnext, ?_, ?_, h.distinct, hbound ▸ h.bound⟩
    · exact fun f hf => h.begun f (hf.imp_right (hflights f))
    · exact fun f hf =>
        ⟨Nat.lt_of_lt_of_le (h.ended f hf).1 hnext, fun g hg => (h.ended f hf).2 g (hflights g hg)⟩

/-- **A run** between two registrations of a source for the name. -/
theorem Account.run (h : Account name e start loaded d) (hsound : d.Sound)
    (happenings : List Happening) (hkept : ∀ producer, .register name producer ∉ happenings) :
    Account name e start (loaded ++ Depot.loads name (steps Depot.act d happenings).1)
      (steps Depot.act d happenings).2 := by
  induction happenings generalizing d loaded with
  | nil =>
    rw [show Depot.loads name _ = [] from rfl, List.append_nil]
    exact h
  | cons happening happenings ih =>
    have hact := h.act hsound fun producer hp => hkept producer (hp ▸ List.mem_cons_self)
    have hrest := ih hact (hsound.act happening) fun producer hp =>
      hkept producer (List.mem_cons_of_mem _ hp)
    rw [steps_cons, ← List.singleton_append, loads_append, ← List.append_assoc]
    exact hrest

end Depot

end Hydration
