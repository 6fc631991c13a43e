import Hydration.Page.Command
import Hydration.Proofs.Module.Stock
import Hydration.Proofs.Page.Identity

/-!
# Data is bound before an element is handed back

A call that begins looks up the module of its component's name (`lookUp?`).  From then on it
waits for that module, or the data is bound, or the call does not end well
(`TaskStatus.Brings`).  What a call waits for is the module of the entry that its name has
(`TaskStatus.Fits`), so the entry that is marked as loaded when the module arrives is the one
that has been asked.  Both hold along every course (`promised_course`) in which no name is
registered again while a download of it is in flight (`Undisturbed`, `undisturbed_perform`).

So when a call hands its element back, the data of what it has looked up is bound
(`Promised.binds`).
-/

namespace Hydration

/-- What a call has found when it has looked up the module of its component. -/
structure Lookup where
  call : Nat
  element : ElementRef
  name : String
  module : ComponentModule

/-! ## Downloads and statuses -/

variable {s s' : Stock} {bindings bindings' : List (String × Data)} {name : String}
  {m : ComponentModule} {l : Lookup}

/-- A download in flight has asked the origin of the entry that its name has. -/
def Download.Fits (s : Stock) (name : String) : Download → Prop
  | .arriving _ _ answer => s.Awaits name answer
  | .settled _ => True

/-- A download is to bring a module or has brought it, if it has not failed. -/
def Download.Brings (bindings : List (String × Data)) (name : String) (m : ComponentModule) :
    Download → Prop
  | .arriving _ _ answer => answer = .ok m
  | .settled (.ok _) => Binds m name bindings
  | .settled (.error _) => True

/-- What a call waits for fits the stock. -/
def TaskStatus.Fits (s : Stock) : TaskStatus → Prop
  | .awaiting _ name _ download => download.Fits s name
  | _ => True

/-- A call is to bring the module that it has looked up or has brought it, if it has not failed. -/
def TaskStatus.Brings (bindings : List (String × Data)) (l : Lookup) : TaskStatus → Prop
  | .fresh _ => False
  | .awaiting _ name _ download => name = l.name ∧ download.Brings bindings l.name l.module
  | .ended (.ok _) => Binds l.module l.name bindings
  | .ended (.error _) => True
  | .dropped => True

theorem Download.Brings.mono {download : Download} (h : download.Brings bindings name m)
    (hmore : ∀ b ∈ bindings, b ∈ bindings') : download.Brings bindings' name m := by
  cases download with
  | arriving ticket due answer => exact h
  | settled result =>
    cases result with
    | error error => trivial
    | ok loaded => exact Binds.mono h hmore

theorem TaskStatus.Brings.mono {status : TaskStatus} (h : status.Brings bindings l)
    (hmore : ∀ b ∈ bindings, b ∈ bindings') : status.Brings bindings' l := by
  cases status with
  | fresh discovers => exact h
  | awaiting component name requirement download => exact ⟨h.1, h.2.mono hmore⟩
  | ended result =>
    cases result with
    | error error => trivial
    | ok outcome => exact Binds.mono h hmore
  | dropped => trivial

theorem TaskStatus.Fits.supplies {status : TaskStatus} (h : status.Fits s)
    (hs : s.Supplies s') : status.Fits s' := by
  cases status with
  | awaiting component name requirement download =>
    cases download with
    | arriving ticket due answer => exact Stock.Awaits.supplies h hs
    | settled result => trivial
  | _ => trivial

namespace Page

variable {p q r : Page} {el : ElementRef} {component : ComponentHandle} {i call : Nat} {t : Task}
  {found : List Lookup} {requirement : Evaluation NamedWait} {download : Download}

/-! ## What leaves the stock alone -/

/-- The modules of a page and the data that has been bound. -/
def stock (p : Page) : Stock :=
  ⟨p.modules, p.document.bindings⟩

theorem stock_discover : (p.discover el).2.stock = p.stock := by
  rw [discover]
  split
  · rfl
  · rfl

theorem stock_prepared (t : Task) (discovers : Bool) :
    (p.prepared t discovers).stock = p.stock := by
  rw [prepared]
  split
  · exact stock_discover
  · rfl

theorem stock_handBack : (p.handBack el).2.stock = p.stock := by
  have hreleased : (p.document.release el).bindings = p.document.bindings :=
    Document.bindings_destroyTree
  rcases handBack_cases p el with ⟨h, -⟩ | ⟨h, -⟩
  · rw [h]
    exact congrArg (Stock.mk p.modules) hreleased
  · rw [h]
    exact congrArg (Stock.mk p.modules) (Document.bindings_initTree.trans hreleased)

theorem stock_enqueue (task : Nat) : (p.enqueue task).stock = p.stock := by
  obtain ⟨queue, h⟩ := enqueue_eq p task
  rw [h]
  rfl

theorem stock_wake (key : Wait → Option Nat) : (p.wake key).stock = p.stock := by
  rw [wake]
  generalize ((p.tasks.zipIdx.flatMap _).mergeSort _) = keyed
  induction keyed generalizing p with
  | nil => rfl
  | cons k keyed ih => rw [List.foldl_cons, ih, stock_enqueue]

theorem stock_abort : (p.abort i).2.stock = p.stock := by
  obtain ⟨tasks, queue, h⟩ := abort_eq p i
  rw [h]
  rfl

/-! ## What a turn does to the stock -/

/-- **A download goes on** on the page `p` and is to bring any module that is `wanted`. -/
structure Fetches (p : Page) (name : String) (wanted : ComponentModule → Prop)
    (result : Download × Page) : Prop where
  supplies : p.stock.Supplies result.2.stock
  fits : result.1.Fits result.2.stock name
  brings : ∀ m, wanted m → result.1.Brings result.2.document.bindings name m

/-- **A call has a turn** on the page `p` and is to bring any module that is `wanted`. -/
structure Fetched (p : Page) (wanted : Lookup → Prop) (turn : TaskStatus × Page) : Prop where
  supplies : p.stock.Supplies turn.2.stock
  fits : turn.1.Fits turn.2.stock
  brings : ∀ l, wanted l → turn.1.Brings turn.2.document.bindings l

theorem stock_receiveModule :
    (p.receiveModule name (.ok m)).2.stock = p.stock.receive name m := by
  rw [receiveModule, ModuleTable.receive]
  dsimp only
  rw [Stock.receive]
  cases m.select name with
  | none => exact congrArg (Stock.mk _) (List.append_nil _).symm
  | some data => rfl

theorem fetches_receiveModule {answer : Except ModuleError ComponentModule}
    (h : p.stock.Awaits name answer) :
    Fetches p name (fun m => answer = .ok m) (p.receiveModule name answer) := by
  cases answer with
  | error error => exact ⟨.refl _, trivial, nofun⟩
  | ok m =>
    refine ⟨stock_receiveModule ▸ Stock.supplies_receive h, trivial, fun m' hm' => ?_⟩
    obtain rfl : m = m' := Except.ok.inj hm'
    have hbinds : Binds m name (p.receiveModule name (.ok m)).2.stock.bindings := by
      rw [stock_receiveModule]
      exact Stock.binds_receive
    exact hbinds

/-- A download that begins is to bring what is looked up. -/
theorem fetches_beginDownload (hs : p.stock.Sound) (name : String) :
    Fetches p name (fun m => p.modules.lookUp? name p.options = some m) (p.beginDownload name) := by
  have hfinds := Stock.finds_request hs name p.options
  rw [beginDownload]
  generalize hrequested : p.modules.request name p.options = requested
  rw [show p.stock.modules.request name p.options = requested from hrequested] at hfinds
  cases hfinds with
  | @settled result modules hsupplies hbinds =>
    refine ⟨hsupplies, trivial, fun m hm => ?_⟩
    cases result with
    | error error => trivial
    | ok loaded => exact hbinds loaded rfl m hm
  | @asked delay answer modules hsupplies hawaits hfound =>
    dsimp only
    split
    · next heq => cases heq
    · next heq =>
      cases heq
      have hreceived : Fetches { p with modules } name (fun m => answer = .ok m)
          (receiveModule { p with modules } name answer) := fetches_receiveModule hawaits
      exact ⟨hsupplies.trans hreceived.supplies, hreceived.fits,
        fun m hm => hreceived.brings m (hfound m hm)⟩
    · next heq =>
      cases heq
      exact ⟨hsupplies, hawaits, hfound⟩

theorem fetches_resumeDownload (hfits : download.Fits p.stock name) :
    Fetches p name (fun m => download.Brings p.document.bindings name m)
      (p.resumeDownload name download) := by
  cases download with
  | settled result => exact ⟨.refl _, trivial, fun _ h => h⟩
  | arriving ticket due answer =>
    rw [resumeDownload]
    split
    · exact fetches_receiveModule hfits
    · exact ⟨.refl _, hfits, fun _ h => h⟩

/-- What a call does when its download has gone on. -/
theorem Fetches.proceed {wanted : ComponentModule → Prop}
    (h : Fetches p name wanted (download, q)) :
    Fetched p (fun l => name = l.name ∧ wanted l.module)
      (q.proceed component name requirement download) := by
  obtain ⟨hsupplies, hfits, hbrings⟩ := h
  rw [proceed.eq_def]
  split
  · exact ⟨hsupplies, trivial, fun _ _ => trivial⟩
  · dsimp only
    have hsame : (q.handBack component.element).2.stock = q.stock := stock_handBack
    refine ⟨hsame ▸ hsupplies, trivial, fun l hl => ?_⟩
    have hbinds : Binds l.module l.name (q.handBack component.element).2.stock.bindings := by
      rw [hsame]
      exact hl.1 ▸ hbrings l.module hl.2
    exact hbinds
  · exact ⟨hsupplies, hfits, fun l hl => ⟨hl.1, hl.1 ▸ hbrings l.module hl.2⟩⟩

theorem fetched_await (hs : p.stock.Sound) {tree : Requirement} :
    Fetched p (fun l => name = l.name ∧ p.modules.lookUp? name p.options = some l.module)
      (p.await component name tree) := by
  rw [await]
  generalize tree.start (Requirement.rules p.strategies component) p.surroundings = started
  obtain ⟨evaluation, surroundings⟩ := started
  dsimp only
  split
  · exact ⟨.refl _, trivial, fun _ _ => trivial⟩
  · have hbegun := fetches_beginDownload (p := { p with surroundings }) hs name
    exact ⟨hbegun.proceed.supplies, hbegun.proceed.fits, hbegun.proceed.brings⟩

/-- **A later turn** of a call. -/
theorem fetched_resumeActivation (hfits : download.Fits p.stock name) :
    Fetched p (fun l => name = l.name ∧ download.Brings p.document.bindings l.name l.module)
      (p.resumeActivation component name requirement download) := by
  rw [resumeActivation]
  generalize requirement.resume (Requirement.rules p.strategies component) p.surroundings = resumed
  obtain ⟨evaluation, surroundings⟩ := resumed
  dsimp only
  split
  · exact ⟨.refl _, trivial, fun _ _ => trivial⟩
  · have hgone := fetches_resumeDownload (p := { p with surroundings }) hfits
    exact ⟨hgone.proceed.supplies, hgone.proceed.fits,
      fun l hl => hgone.proceed.brings l ⟨hl.1, hl.1 ▸ hl.2⟩⟩

/-! ## The first turn -/

/-- What a call finds that begins the activation of an element. -/
def lookUp? (p : Page) (call : Nat) (el : ElementRef) : Option Lookup :=
  match p.claim? el with
  | none => none
  | some p =>
    let (name, p) := p.nameFor el
    match p.registerSource el name with
    | .error _ => none
    | .ok p => (p.modules.lookUp? name p.options).map fun m => ⟨call, el, name, m⟩

theorem stock_nameFor : (p.nameFor el).2.stock = p.stock := by
  rw [nameFor]
  dsimp only
  split
  · rfl
  · rfl

theorem supplies_registerSource (h : p.registerSource el name = .ok q) :
    p.stock.Supplies q.stock := by
  rw [registerSource] at h
  split at h
  · cases h
    exact .refl _
  · next url _ =>
    cases hregister : p.modules.registerUrl name url p.options with
    | error error =>
      rw [hregister] at h
      cases h
    | ok registered =>
      rw [hregister] at h
      cases h
      exact Stock.supplies_registerUrl hregister

theorem idFor_keeps : (p.idFor el).2.stock = p.stock ∧ (p.idFor el).2.options = p.options := by
  rw [idFor]
  split
  · exact ⟨rfl, rfl⟩
  · exact ⟨rfl, rfl⟩

/-- **The first turn** of a call. -/
theorem fetched_beginActivation (hs : p.stock.Sound) (call : Nat) (el : ElementRef) :
    Fetched p (fun l => p.lookUp? call el = some l) (p.beginActivation el) := by
  rw [beginActivation, lookUp?]
  cases hclaim : p.claim? el with
  | none =>
    refine ⟨.refl _, trivial, fun l hl => ?_⟩
    cases hl
  | some claimed =>
    have hclaimed : claimed.stock = p.stock := by
      obtain ⟨-, -, rfl⟩ := claim?_eq_some.mp hclaim
      rfl
    have hnamed : (claimed.nameFor el).2.stock = p.stock := stock_nameFor.trans hclaimed
    dsimp only
    generalize claimed.nameFor el = named at hnamed ⊢
    obtain ⟨name, named⟩ := named
    dsimp only at hnamed ⊢
    cases hregister : named.registerSource el name with
    | error error =>
      refine ⟨hnamed ▸ .refl _, trivial, fun l hl => ?_⟩
      cases hl
    | ok registered =>
      have hsupplies : p.stock.Supplies registered.stock :=
        hnamed ▸ supplies_registerSource hregister
      have hidentified : (registered.idFor el).2.stock = registered.stock ∧
          (registered.idFor el).2.options = registered.options := idFor_keeps
      obtain ⟨hstock, hoptions⟩ := hidentified
      dsimp only
      generalize registered.idFor el = identified at hstock hoptions ⊢
      obtain ⟨id, identified⟩ := identified
      dsimp only at hstock hoptions ⊢
      generalize hfilled : identified.modifyComponent el _ = filled
      have hsame : filled.stock = registered.stock ∧ filled.options = registered.options := by
        subst hfilled
        exact ⟨hstock, hoptions⟩
      have hfilledSupplies : p.stock.Supplies filled.stock := hsame.1 ▸ hsupplies
      split
      · exact ⟨hfilledSupplies, trivial, fun _ _ => trivial⟩
      · next tree _ =>
        have hawait : Fetched filled
            (fun l => name = l.name ∧ filled.modules.lookUp? name filled.options = some l.module)
            (filled.await ⟨el, id⟩ name tree) := fetched_await (hfilledSupplies.sound hs)
        refine ⟨hfilledSupplies.trans hawait.supplies, hawait.fits, fun l hl => ?_⟩
        obtain ⟨m, hm, rfl⟩ := Option.map_eq_some_iff.mp hl
        refine hawait.brings _ ⟨rfl, ?_⟩
        have hmodules : filled.modules = registered.modules := congrArg Stock.modules hsame.1
        rw [hmodules, hsame.2, hm]

/-! ## Lookups -/

/-- What is looked up in an action. -/
def lookupsOf (p : Page) : Action → List Lookup
  | .turn call =>
    match p.tasks[call]? with
    | none => []
    | some t =>
      if t.cancelled then []
      else
        match t.status with
        | .fresh discovers => ((p.prepared t discovers).lookUp? call t.element).toList
        | _ => []
  | _ => []

/-- What has been looked up in a course. -/
def lookups (p : Page) (actions : List Action) : List Lookup :=
  trace lookupsOf p.opened actions

/-! ## What else happens -/

/-- A download of a name is in flight. -/
def Downloads (p : Page) (name : String) : Prop :=
  ∃ (i : Nat) (t : Task) (component : ComponentHandle) (requirement : Evaluation NamedWait)
    (ticket : Nat) (due : Option Nat) (answer : Except ModuleError ComponentModule),
    p.tasks[i]? = some t ∧ t.status = .awaiting component name requirement (.arriving ticket due answer)

/-- **What else happens leaves downloads undisturbed**: a name keeps the origin of its entry while
it is downloaded, an origin that has a module keeps it, what has been bound stays bound, and so
does the data of the entries that are loaded. -/
structure Undisturbed (p q : Page) : Prop where
  entry : ∀ name e, p.Downloads name → p.modules.entry? name = some e →
    ∃ e', q.modules.entry? name = some e' ∧ e'.origin = e.origin
  module : ∀ origin m, p.modules.moduleOf? origin = some m → q.modules.moduleOf? origin = some m
  bindings : ∀ b ∈ p.document.bindings, b ∈ q.document.bindings
  sound : p.stock.Sound → q.stock.Sound

/-- **A supply** may come at any time: a URL or an alias, or a download that is no call's. -/
theorem undisturbed_of_supplies (h : p.stock.Supplies q.stock) : Undisturbed p q :=
  ⟨fun name e _ he => h.entry name e he, h.module, h.bindings, h.sound⟩

theorem undisturbed_of_stock (h : q.stock = p.stock) : Undisturbed p q :=
  undisturbed_of_supplies (h ▸ .refl _)

/-- **A source may be registered** for a name that is not being downloaded. -/
theorem undisturbed_register {producer : Producer} (h : ¬p.Downloads name) :
    Undisturbed p { p with modules := p.modules.register name producer } := by
  have hentry : ∀ x, ModuleTable.entry? (p.modules.register name producer) x =
      if x = name then some ⟨.source producer, false⟩ else p.modules.entry? x :=
    fun x => ModuleTable.entry?_register
  have hmodule : ∀ origin, (p.modules.register name producer).moduleOf? origin =
      p.modules.moduleOf? origin := fun origin => ModuleTable.moduleOf?_congr rfl
  refine ⟨fun x e hx he => ⟨e, ?_, rfl⟩, fun origin m hm => (hmodule origin).trans hm,
    fun b hb => hb, fun hs x origin he => ?_⟩
  · refine (hentry x).trans ((if_neg ?_).trans he)
    rintro rfl
    exact h hx
  · have hkept := (hentry x).symm.trans he
    split at hkept
    · cases hkept
    · obtain ⟨m, hm, hbinds⟩ := hs x origin hkept
      exact ⟨m, (hmodule origin).trans hm, hbinds⟩

/-- **Every command** leaves downloads undisturbed, except that a source may not be registered for a
name that is being downloaded; waiting lets the calls have turns. -/
theorem undisturbed_perform (p : Page) (command : Command)
    (hwait : ∀ duration, command ≠ .wait duration)
    (hregister : ∀ name producer, command = .registerModule name producer → ¬p.Downloads name) :
    Undisturbed p (p.perform command).2 := by
  cases command with
  | registerModule name producer => exact undisturbed_register (hregister name producer rfl)
  | setAlias alternative => exact undisturbed_of_supplies (Stock.supplies_setAlias alternative)
  | registerUrl name url =>
    rw [perform]
    split
    · next h => exact undisturbed_of_supplies (Stock.supplies_registerUrl h)
    · exact undisturbed_of_stock rfl
  | mergeOptions update =>
    rw [perform]
    split
    · exact undisturbed_of_stock rfl
    · exact undisturbed_of_stock rfl
  | discover el => exact undisturbed_of_stock stock_discover
  | handle el => exact undisturbed_of_stock (stock_enqueue _)
  | activate el => exact undisturbed_of_stock (stock_enqueue _)
  | abort task => exact undisturbed_of_stock stock_abort
  | publish e => exact undisturbed_of_stock (stock_wake _)
  | setVisible el on => exact undisturbed_of_stock (stock_wake _)
  | setMedia query on => exact undisturbed_of_stock (stock_wake _)
  | triggerIdle => exact undisturbed_of_stock (stock_wake _)
  | initTree el =>
    exact undisturbed_of_stock (congrArg (Stock.mk p.modules) Document.bindings_initTree)
  | destroyTree el =>
    exact undisturbed_of_stock (congrArg (Stock.mk p.modules) Document.bindings_destroyTree)
  | wait duration => exact absurd rfl (hwait duration)
  | _ => exact undisturbed_of_stock rfl

/-! ## Promises -/

/-- **What the calls of a page promise**, where `found` has been looked up. -/
structure Promised (found : List Lookup) (p : Page) : Prop where
  sound : p.stock.Sound
  fits : ∀ (i : Nat) (t : Task), p.tasks[i]? = some t → t.status.Fits p.stock
  brings : ∀ l ∈ found, ∃ t, p.tasks[l.call]? = some t ∧ t.element = l.element ∧
    t.status.Brings p.document.bindings l

theorem promised_opened (h : p.stock.Sound) : Promised [] p.opened where
  sound := h
  fits _ _ h := nomatch h
  brings _ h := nomatch h

/-- Tasks may be added that have not had a turn. -/
theorem Promised.recalls {started : List Task} (h : Promised found p) (hq : Recalls started p q)
    (hstarted : ∀ u ∈ started, ∃ discovers, u.status = .fresh discovers)
    (hstock : q.stock = p.stock) :
    Promised found q where
  sound := hstock ▸ h.sound
  fits i u hu := by
    rw [hstock]
    rcases hq.new i u hu with ⟨t, ht, -, hsame⟩ | hnew
    · exact hsame ▸ h.fits i t ht
    · obtain ⟨discovers, hfresh⟩ := hstarted u hnew
      rw [hfresh]
      trivial
  brings l hl := by
    obtain ⟨t, ht, helement, hbrings⟩ := h.brings l hl
    obtain ⟨u, hu, hsame, hstatus⟩ := hq.old l.call t ht
    refine ⟨u, hu, hsame.trans helement, ?_⟩
    have hbindings : q.document.bindings = p.document.bindings := congrArg Stock.bindings hstock
    rw [hstatus, hbindings]
    exact hbrings

theorem Promised.congr (h : Promised found p) (htasks : q.tasks = p.tasks)
    (hstock : q.stock = p.stock) : Promised found q where
  sound := hstock ▸ h.sound
  fits i t ht := hstock ▸ h.fits i t (htasks ▸ ht)
  brings l hl := by
    obtain ⟨t, ht, helement, hbrings⟩ := h.brings l hl
    have hbindings : q.document.bindings = p.document.bindings := congrArg Stock.bindings hstock
    exact ⟨t, htasks ▸ ht, helement, hbindings ▸ hbrings⟩

/-- Something else happens. -/
theorem Promised.undisturbed (h : Promised found p) (hq : Undisturbed p q)
    (htasks : q.tasks = p.tasks) : Promised found q where
  sound := hq.sound h.sound
  fits i t ht := by
    rw [htasks] at ht
    have hfits := h.fits i t ht
    cases hstatus : t.status with
    | awaiting component name requirement download =>
      cases download with
      | settled result => trivial
      | arriving ticket due answer =>
        rw [hstatus] at hfits
        obtain ⟨e, he, hm⟩ := hfits
        have hdownloads : p.Downloads name := ⟨i, t, _, _, _, _, _, ht, hstatus⟩
        obtain ⟨e', he', horigin⟩ := hq.entry name e hdownloads he
        exact ⟨e', he', fun m hanswer => hq.module _ m (horigin ▸ hm m hanswer)⟩
    | _ => trivial
  brings l hl := by
    obtain ⟨t, ht, helement, hbrings⟩ := h.brings l hl
    exact ⟨t, htasks ▸ ht, helement, hbrings.mono hq.bindings⟩

/-- **The turn of a call** ends with a status that keeps what the call has promised and promises
what it has looked up. -/
theorem Promised.setStatus {status : TaskStatus} {new : List Lookup} (h : Promised found p)
    (ht : p.tasks[i]? = some t) (htasks : q.tasks = p.tasks) (hq : p.stock.Supplies q.stock)
    (hfits : status.Fits q.stock)
    (hkept : ∀ l ∈ found, t.status.Brings p.document.bindings l →
      status.Brings q.document.bindings l)
    (hnew : ∀ l ∈ new, l.call = i ∧ l.element = t.element ∧ status.Brings q.document.bindings l) :
    Promised (found ++ new) (q.setStatus i status) where
  sound := hq.sound h.sound
  fits j u hu := by
    rw [getElem?_setStatus, htasks] at hu
    split at hu
    · obtain ⟨u', -, rfl⟩ := Option.map_eq_some_iff.mp hu
      exact hfits
    · exact (h.fits j u hu).supplies hq
  brings l hl := by
    rw [getElem?_setStatus, htasks]
    rcases List.mem_append.mp hl with hl | hl
    · obtain ⟨u, hu, helement, hbrings⟩ := h.brings l hl
      by_cases hi : i = l.call
      · rw [← hi, ht] at hu
        obtain rfl := Option.some.inj hu
        rw [if_pos hi, ← hi, ht]
        exact ⟨_, rfl, helement, hkept l hl hbrings⟩
      · rw [if_neg hi]
        exact ⟨u, hu, helement, hbrings.mono hq.bindings⟩
    · obtain ⟨rfl, helement, hbrings⟩ := hnew l hl
      rw [if_pos rfl, ht]
      exact ⟨_, rfl, helement.symm, hbrings⟩

/-! ## Turns -/

theorem tasks_beginActivation : (p.beginActivation el).2.tasks = p.tasks := by
  cases hclaim : p.claim? el with
  | none => rw [beginActivation_of_none hclaim]
  | some claimed =>
    obtain ⟨_, _, _, -, hprogress⟩ := beginActivation_of_some hclaim
    exact hprogress.tasks

/-- What is looked up is looked up for the element that the call works on. -/
theorem lookUp?_eq_some (h : p.lookUp? call el = some l) :
    l.call = call ∧ l.element = el ∧ (p.claim? el).isSome := by
  rw [lookUp?] at h
  split at h
  · cases h
  · next claimed hclaim =>
    dsimp only at h
    split at h
    · cases h
    · obtain ⟨m, -, rfl⟩ := Option.map_eq_some_iff.mp h
      exact ⟨rfl, rfl, by rw [hclaim]; rfl⟩

/-- **The first turn** of a call promises what is looked up in it. -/
theorem Promised.begins {discovers : Bool} (h : Promised found p) (ht : p.tasks[i]? = some t)
    (hstatus : t.status = .fresh discovers) :
    Promised (found ++ (p.lookUp? i t.element).toList)
      ((p.beginActivation t.element).2.setStatus i (p.beginActivation t.element).1) := by
  obtain ⟨hsupplies, hfits, hbrings⟩ := fetched_beginActivation h.sound i t.element
  refine h.setStatus ht tasks_beginActivation hsupplies hfits (fun l _ hl => ?_) fun l hl => ?_
  · -- A call that has looked up something has had a turn.
    rw [hstatus] at hl
    exact hl.elim
  · have hlookUp : p.lookUp? i t.element = some l := Option.mem_toList.mp hl
    obtain ⟨hcall, helement, -⟩ := lookUp?_eq_some hlookUp
    exact ⟨hcall, helement, hbrings l hlookUp⟩

/-- In a turn in which nothing is looked up no more is promised. -/
theorem Promised.goesOn {status : TaskStatus} (h : Promised found p) (ht : p.tasks[i]? = some t)
    (htasks : q.tasks = p.tasks) (hq : p.stock.Supplies q.stock) (hfits : status.Fits q.stock)
    (hkept : ∀ l ∈ found, t.status.Brings p.document.bindings l →
      status.Brings q.document.bindings l) :
    Promised (found ++ []) (q.setStatus i status) :=
  h.setStatus ht htasks hq hfits hkept fun _ hl => absurd hl List.not_mem_nil

/-- **A later turn** of a call. -/
theorem Promised.resumes (h : Promised found p) (ht : p.tasks[i]? = some t)
    (hstatus : t.status = .awaiting component name requirement download) :
    Promised (found ++ []) ((p.resumeActivation component name requirement download).2.setStatus i
      (p.resumeActivation component name requirement download).1) := by
  have hawaits := h.fits i t ht
  rw [hstatus] at hawaits
  obtain ⟨hsupplies, hfits, hbrings⟩ := fetched_resumeActivation hawaits
  have hprogress : Progress p component
      (p.resumeActivation component name requirement download) := resumeActivation_progress
  refine h.goesOn ht hprogress.tasks hsupplies hfits fun l _ hl => ?_
  rw [hstatus] at hl
  exact hbrings l hl

theorem Promised.turn (h : Promised found p) (i : Nat) :
    Promised (found ++ p.lookupsOf (.turn i)) (p.runTask i) := by
  have hidle : Promised (found ++ []) p := (List.append_nil found).symm ▸ h
  rw [runTask, lookupsOf]
  cases ht : p.tasks[i]? with
  | none => exact hidle
  | some t =>
    dsimp only
    have hdropped : ∀ requirement,
        Promised (found ++ []) ((p.releaseRequirement requirement).setStatus i .dropped) :=
      fun requirement => h.goesOn ht rfl (.refl _) trivial fun _ _ _ => trivial
    cases hstatus : t.status with
    | ended result =>
      rw [ite_self]
      exact hidle
    | dropped =>
      rw [ite_self]
      exact hidle
    | fresh discovers =>
      dsimp only
      by_cases hcancelled : t.cancelled = true
      · rw [if_pos hcancelled, if_pos hcancelled]
        exact hdropped .succeeded
      · rw [if_neg hcancelled, if_neg hcancelled]
        have hprepared : Promised found (p.prepared t discovers) :=
          h.congr (tasks_prepared discovers) (stock_prepared t discovers)
        exact hprepared.begins ((tasks_prepared discovers).symm ▸ ht) hstatus
    | awaiting component name requirement download =>
      dsimp only
      by_cases hcancelled : t.cancelled = true
      · rw [if_pos hcancelled, if_pos hcancelled]
        exact hdropped requirement
      · rw [if_neg hcancelled, if_neg hcancelled]
        exact h.resumes ht hstatus

/-! ## Actions -/

theorem Promised.act (h : Promised found p) (a : Action)
    (houtside : ∀ change, a = .outside change → Undisturbed p (change p)) :
    Promised (found ++ p.lookupsOf a) (p.act a) := by
  have hstarted : ∀ {el discovers}, ∀ u ∈ [({ element := el, status := .fresh discovers } : Task)],
      ∃ discovers, u.status = .fresh discovers := by
    intro el discovers u hu
    rw [List.mem_singleton.mp hu]
    exact ⟨discovers, rfl⟩
  -- Only in its turn does a call look up anything.
  have hnothing : ∀ {q}, Promised found q → Promised (found ++ []) q := fun hq =>
    (List.append_nil found).symm ▸ hq
  cases a with
  | turn call => exact h.turn call
  | discover el => exact hnothing (h.congr tasks_discover stock_discover)
  | handle el => exact hnothing (h.recalls (recalls_startTask p el true) hstarted (stock_enqueue _))
  | activate el =>
    exact hnothing (h.recalls (recalls_startTask p el false) hstarted (stock_enqueue _))
  | abort call => exact hnothing (h.recalls (recalls_abort p call) nofun stock_abort)
  | outside change =>
    have hundisturbed := houtside change rfl
    have hact : Undisturbed p (p.act (.outside change)) :=
      ⟨hundisturbed.entry, hundisturbed.module, hundisturbed.bindings, hundisturbed.sound⟩
    exact hnothing (h.undisturbed hact rfl)

/-! ## Courses -/

variable {actions : List Action}

theorem lookups_concat (p : Page) (actions : List Action) (a : Action) :
    p.lookups (actions ++ [a]) = p.lookups actions ++ (p.course actions).lookupsOf a :=
  trace_concat ..

/-- **A course** keeps what its calls promise. -/
theorem promised_course (hstart : p.stock.Sound)
    (houtside : ∀ before change, before ++ [.outside change] <+: actions →
      Undisturbed (p.course before) (change (p.course before))) :
    Promised (p.lookups actions) (p.course actions) := by
  induction actions using List.reverseRecOn with
  | nil => exact promised_opened hstart
  | append_singleton actions a ih =>
    have hprefix : actions <+: actions ++ [a] := List.prefix_append _ _
    have hpromised := ih fun before change h => houtside before change (h.trans hprefix)
    rw [course_concat, lookups_concat]
    refine hpromised.act a ?_
    rintro change rfl
    exact houtside actions change List.prefix_rfl

end Page

end Hydration
