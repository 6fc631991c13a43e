import Hydration.Proofs.Module.Prompt
import Hydration.Proofs.Page.Flags
import Hydration.Proofs.Strategy.Account

/-!
# How far an activation is

On a page with the built-in strategies and prompt modules, nothing but its requirement
holds an activation up.  `Stage` says what the task of an element has come to when the
moment `seen` has been taken into account: it waits, with waits that stand for the triggers
of its conditions and no outcome yet, or it has ended as its requirement says, unless the
requirement cannot be read or the module cannot be had.

A turn brings an activation from any earlier moment to the present one
(`Turned.resumeActivation`), and so does the first turn on a page that begins
(`Turned.beginActivation`).  It leaves all other activations alone (`Leaves`), and other
waits stand for what they did.
-/

namespace Hydration.Page

variable {p q r : Page} {el x : ElementRef}

/-! ## What a turn leaves alone -/

/-- What a turn of the activation of `el` leaves alone. -/
structure Leaves (el : ElementRef) (p q : Page) : Prop where
  component : ∀ x, x ≠ el → q.component? x = p.component? x
  skeleton : q.document.skeleton = p.document.skeleton
  cloning : q.document.cloning = p.document.cloning
  tasks : q.tasks = p.tasks
  queue : q.queue = p.queue
  options : q.options = p.options
  strategies : q.strategies = p.strategies
  modules : p.modules.Prompt → q.modules.Prompt

theorem Leaves.trans (hpq : Leaves el p q) (hqr : Leaves el q r) : Leaves el p r where
  component x hx := (hqr.component x hx).trans (hpq.component x hx)
  skeleton := hqr.skeleton.trans hpq.skeleton
  cloning := hqr.cloning.trans hpq.cloning
  tasks := hqr.tasks.trans hpq.tasks
  queue := hqr.queue.trans hpq.queue
  options := hqr.options.trans hpq.options
  strategies := hqr.strategies.trans hpq.strategies
  modules h := hqr.modules (hpq.modules h)

theorem Leaves.of_records (h : q.records = p.records) (hqueue : q.queue = p.queue)
    (hoptions : q.options = p.options) (hstrategies : q.strategies = p.strategies)
    (hmodules : p.modules.Prompt → q.modules.Prompt) : Leaves el p q where
  component _ _ := component?_congr h
  skeleton := (Keeps.of_records h).skeleton
  cloning := congrArg Records.cloning h
  tasks := tasks_congr h
  queue := hqueue
  options := hoptions
  strategies := hstrategies
  modules := hmodules

theorem leaves_surroundings (s : Surroundings) : Leaves el p { p with surroundings := s } :=
  .of_records rfl rfl rfl rfl id

theorem leaves_handBack : Leaves el p (p.handBack el).2 := by
  refine ⟨fun x hx => ?_, skeleton_handBack, cloning_handBack, tasks_handBack, ?_, ?_, ?_, ?_⟩
  · rw [component?_handBack, if_neg hx]
  all_goals
    rcases handBack_cases p el with ⟨h, -⟩ | ⟨h, -⟩
    · rw [h]
      first | rfl | exact id
    · rw [h]
      first | rfl | exact id

theorem Claimed.leaves {f : Component → Component} (h : Claimed p el f q) : Leaves el p q where
  component x hx := by
    rw [component?_congr h.records, component?_modifyComponent h.element, if_neg hx]
  skeleton := (Keeps.of_records (p := p.modifyComponent el f) h.records).skeleton
  cloning := congrArg Records.cloning h.records
  tasks := tasks_congr (p := p.modifyComponent el f) h.records
  queue := h.queue
  options := h.options
  strategies := h.strategies
  modules hp := by
    rcases h.modules with hq | ⟨name, url, taken, hq⟩
    · rw [hq]
      exact hp
    · exact hp.registerUrl hq

/-- The requirement of an element is a matter of the tree and the options. -/
theorem requirementFor_congr (hskeleton : q.document.skeleton = p.document.skeleton)
    (hoptions : q.options = p.options) : q.requirementFor el = p.requirementFor el := by
  rw [requirementFor, requirementFor, hoptions, Document.attribute?_congr hskeleton]

/-! ## Downloads -/

theorem leaves_receiveModule (name : String) (answer : Except ModuleError ComponentModule) :
    Leaves el p (p.receiveModule name answer).2 :=
  .of_records (records_receiveModule name answer) rfl rfl rfl fun h => h.receive answer

/-- **A download from prompt modules** is settled when it is begun. -/
theorem beginDownload_prompt (el : ElementRef) (name : String) (h : p.modules.Prompt) : ∃ result q,
    p.beginDownload name = (.settled result, q) ∧ Leaves el p q ∧
      q.surroundings = p.surroundings := by
  have hrequest := h.request name p.options
  rw [beginDownload]
  generalize p.modules.request name p.options = r at hrequest
  obtain ⟨request, modules⟩ := r
  obtain ⟨hprompt, hdelay⟩ := hrequest
  have hleaves : Leaves el p { p with modules } := .of_records rfl rfl rfl rfl fun _ => hprompt
  cases request with
  | settled result => exact ⟨result, _, rfl, hleaves, rfl⟩
  | answered delay answer =>
    obtain rfl := hdelay delay answer rfl
    exact ⟨_, _, rfl, hleaves.trans (leaves_receiveModule name answer), rfl⟩

/-! ## Stages -/

/-- What a status waits for. -/
def waitsOf : TaskStatus → List NamedWait
  | .awaiting _ _ requirement _ => requirement.waits
  | _ => []

/-- **How far the activation of an element is** when the moment `seen` has been taken into account.
The waits stand for what they should in the surroundings `s` at the moment `now`; `text` is the
requirement of the element and `record` its component. -/
inductive Stage (platform : Platform) (el : ElementRef) (text : String) (record : Option Component)
    (seen now : Moment) (s : Surroundings) : TaskStatus → Prop where
  | awaiting {c : Component} {id name : String} {t : Requirement} {e : Evaluation NamedWait}
      {loaded : Bool} (hrecord : record = some c) (hstate : c.state ≠ .activated)
      (hid : c.id = some id) (hparse : Requirement.parse text = .ok t)
      (htracks : (Trigger.account s.platform ⟨el, id⟩ now).Lags
        (Condition.trigger platform ⟨el, id⟩)
        (fun a => Trigger.known seen (a.trigger platform ⟨el, id⟩)) s t e)
      (hopen : e.outcome? = none)
      (happart : e.waits.Pairwise (Apart fun v => v.wait.subscription?)) :
      Stage platform el text record seen now s (.awaiting ⟨el, id⟩ name e (.settled (.ok loaded)))
  | activated {c : Component} {id : String} {t : Requirement} {outcome : Outcome}
      (hrecord : record = some c) (hstate : c.state = .activated) (hid : c.id = some id)
      (hparse : Requirement.parse text = .ok t)
      (houtcome :
        t.outcome (fun a => Trigger.known seen (a.trigger platform ⟨el, id⟩)) = some true) :
      Stage platform el text record seen now s (.ended (.ok outcome))
  | failed {c : Component} {id : String} {t : Requirement} {error : RequirementError}
      (hrecord : record = some c) (hstate : c.state ≠ .activated) (hid : c.id = some id)
      (hparse : Requirement.parse text = .ok t)
      (houtcome :
        t.outcome (fun a => Trigger.known seen (a.trigger platform ⟨el, id⟩)) = some false) :
      Stage platform el text record seen now s (.ended (.error (.requirement error)))
  | unread {error : ParseError} (hparse : Requirement.parse text = .error error) :
      Stage platform el text record seen now s (.ended (.error (.parse error)))
  | unloaded {error : ModuleError} :
      Stage platform el text record seen now s (.ended (.error (.module error)))

section Stages

variable {platform : Platform} {text : String} {record : Option Component} {seen now now' : Moment}
  {s s' : Surroundings} {status : TaskStatus}

/-- A stage stays what it is as long as the waits stand for their triggers. -/
theorem Stage.keeps (h : Stage platform el text record seen now s status)
    (hkeeps : ∀ (trigger : Trigger) v, v ∈ waitsOf status → trigger.known seen = none →
      trigger.Stands now s v.wait → trigger.Stands now' s' v.wait) :
    Stage platform el text record seen now' s' status := by
  cases h with
  | awaiting hrecord hstate hid hparse htracks hopen happart =>
    refine .awaiting hrecord hstate hid hparse ?_ hopen happart
    exact htracks.change (fun _ => .inr rfl) fun a v hv hnone hw =>
      ⟨hnone, hkeeps _ v hv hnone hw⟩
  | activated hrecord hstate hid hparse houtcome =>
    exact .activated hrecord hstate hid hparse houtcome
  | failed hrecord hstate hid hparse houtcome => exact .failed hrecord hstate hid hparse houtcome
  | unread hparse => exact .unread hparse
  | unloaded => exact .unloaded

/-- An activation without a ready wait is as far as it can be. -/
theorem Stage.catchUp (h : Stage platform el text record seen now s status)
    (hchanges : seen.changes <+: now.changes) (hclock : seen.clock ≤ now.clock)
    (hready : ∀ v ∈ waitsOf status, v.wait.isReady s = false) :
    Stage platform el text record now now s status := by
  have hext : ∀ (id : String) (a : Condition), Join.Extends
      ((a.trigger platform ⟨el, id⟩).known now) ((a.trigger platform ⟨el, id⟩).known seen) :=
    fun id a => Trigger.known_extends hchanges hclock _
  cases h with
  | awaiting hrecord hstate hid hparse htracks hopen happart =>
    refine .awaiting hrecord hstate hid hparse ?_ hopen happart
    refine htracks.change (hext _) fun a v hv _ hw => ⟨?_, hw⟩
    rw [Trigger.known_eq_none, ← hw.ready]
    exact hready v hv
  | activated hrecord hstate hid hparse houtcome =>
    exact .activated hrecord hstate hid hparse ((Formula.outcome_mono (hext _) _).of_some houtcome)
  | failed hrecord hstate hid hparse houtcome =>
    exact .failed hrecord hstate hid hparse ((Formula.outcome_mono (hext _) _).of_some houtcome)
  | unread hparse => exact .unread hparse
  | unloaded => exact .unloaded

/-- The waits of a stage stand for triggers of which nothing was known. -/
theorem Stage.exists_trigger (h : Stage platform el text record seen now s status) {v : NamedWait}
    (hv : v ∈ waitsOf status) : ∃ (c : Condition) (id : String),
      (c.trigger platform ⟨el, id⟩).known seen = none ∧
      (c.trigger platform ⟨el, id⟩).Stands now s v.wait := by
  cases h with
  | awaiting hrecord hstate hid hparse htracks hopen happart =>
    obtain ⟨c, -, hnone, hstands⟩ := htracks.exists_leaf hv
    exact ⟨c, _, hnone, hstands⟩
  | _ => cases hv

/-- **The stage tells whether the element is activated**, if its requirement can be read and its
module can be had. -/
theorem Stage.activated_iff (h : Stage platform el text record seen now s status) {t : Requirement}
    (hparse : Requirement.parse text = .ok t)
    (hmodule : ∀ error : ModuleError, status ≠ .ended (.error (.module error))) :
    ∃ c id, record = some c ∧ c.id = some id ∧ (c.state = .activated ↔
      t.outcome (fun a => Trigger.known seen (a.trigger platform ⟨el, id⟩)) = some true) := by
  cases h with
  | @awaiting c id _ t' e _ hrecord hstate hid hparse' htracks hopen _ =>
    obtain rfl : t' = t := Except.ok.inj (hparse'.symm.trans hparse)
    refine ⟨c, id, hrecord, hid, iff_of_false hstate ?_⟩
    rw [htracks.outcome_eq, hopen]
    simp
  | @activated c id t' _ hrecord hstate hid hparse' houtcome =>
    obtain rfl : t' = t := Except.ok.inj (hparse'.symm.trans hparse)
    exact ⟨c, id, hrecord, hid, iff_of_true hstate houtcome⟩
  | @failed c id t' _ hrecord hstate hid hparse' houtcome =>
    obtain rfl : t' = t := Except.ok.inj (hparse'.symm.trans hparse)
    refine ⟨c, id, hrecord, hid, iff_of_false hstate ?_⟩
    rw [houtcome]
    simp
  | unread hparse' =>
    rw [hparse] at hparse'
    cases hparse'
  | unloaded => exact absurd rfl (hmodule _)

end Stages

/-! ## Turns -/

/-- **What a turn of the activation of `el` comes to** at the moment `now`, where `waits` is what it
has waited for: it is at the stage of the moment, and waits that are apart from its own stay so. -/
structure Turned (platform : Platform) (text : String) (now : Moment) (waits : List NamedWait)
    (el : ElementRef) (p : Page) (turn : TaskStatus × Page) : Prop where
  stage : Stage platform el text (turn.2.component? el) now now turn.2.surroundings turn.1
  leaves : Leaves el p turn.2
  clock : turn.2.surroundings.now = now.clock
  platform : turn.2.surroundings.platform = p.surroundings.platform
  numbered : turn.2.surroundings.bus.Numbered
  keeps : ∀ (trigger : Trigger) (u : Wait), trigger.Stands now p.surroundings u →
    (∀ v ∈ waits, Apart Wait.subscription? v.wait u) → trigger.Stands now turn.2.surroundings u ∧
      ∀ v ∈ waitsOf turn.1, Apart Wait.subscription? v.wait u

section Turns

variable {platform : Platform} {text : String} {now : Moment} {waits waits' : List NamedWait}
  {c : Component} {id name : String} {t : Requirement} {e : Evaluation NamedWait}
  {turn : TaskStatus × Page}

theorem Turned.after (h : Turned platform text now waits' el q turn) (hleaves : Leaves el p q)
    (hplatform : q.surroundings.platform = p.surroundings.platform)
    (hkeeps : ∀ (trigger : Trigger) (u : Wait), trigger.Stands now p.surroundings u →
      (∀ v ∈ waits, Apart Wait.subscription? v.wait u) → trigger.Stands now q.surroundings u ∧
        ∀ v ∈ waits', Apart Wait.subscription? v.wait u) :
    Turned platform text now waits el p turn where
  stage := h.stage
  leaves := hleaves.trans h.leaves
  clock := h.clock
  platform := h.platform.trans hplatform
  numbered := h.numbered
  keeps trigger u hu hapart := by
    obtain ⟨hq, hapart'⟩ := hkeeps trigger u hu hapart
    exact h.keeps trigger u hq hapart'

/-- The account of an activation on a page. -/
abbrev accountOf (p : Page) (component : ComponentHandle) (now : Moment) :
    Account (Requirement.rules .builtIn component) (Trigger.known now) :=
  Trigger.account p.surroundings.platform component now

/-- A turn that ends without having changed the surroundings. -/
theorem turned_ended {result : Except Failure Outcome}
    (hstage : Stage platform el text (q.component? el) now now q.surroundings (.ended result))
    (hleaves : Leaves el p q) (hsurroundings : q.surroundings = p.surroundings)
    (hvalid : (accountOf p ⟨el, id⟩ now).Valid p.surroundings) :
    Turned platform text now waits el p (.ended result, q) where
  stage := hstage
  leaves := hleaves
  clock := by rw [hsurroundings, hvalid.1]
  platform := by rw [hsurroundings]
  numbered := by
    rw [hsurroundings]
    exact hvalid.2.2
  keeps trigger u hu _ := by
    rw [hsurroundings]
    exact ⟨hu, fun v hv => by cases hv⟩

/-- The end of a turn in which the requirement has not failed and the download is settled. -/
theorem turned_proceed {result : Except ModuleError Bool} (hrecord : p.component? el = some c)
    (hstate : c.state ≠ .activated) (hid : c.id = some id)
    (hparse : Requirement.parse text = .ok t)
    (hvalid : (accountOf p ⟨el, id⟩ now).Valid p.surroundings)
    (htracks : (accountOf p ⟨el, id⟩ now).Tracks (Condition.trigger platform ⟨el, id⟩)
      p.surroundings t e)
    (happart : e.waits.Pairwise (Apart fun v => v.wait.subscription?))
    (hfailed : e.outcome? ≠ some false) :
    Turned platform text now e.waits el p (p.proceed ⟨el, id⟩ name e (.settled result)) := by
  cases result with
  | error error =>
    -- The module cannot be had: the waits are given up.
    have hproceed : p.proceed ⟨el, id⟩ name e (.settled (.error error)) =
        (.ended (.error (.module error)), p.releaseRequirement e) := by
      cases e <;> rfl
    rw [hproceed]
    have hreleased : (accountOf p ⟨el, id⟩ now).Valid (p.releaseRequirement e).surroundings :=
      Account.releaseAll_valid hvalid
    refine ⟨.unloaded, .of_records (records_releaseRequirement e) rfl rfl rfl fun h => h,
      hreleased.1, hreleased.2.1, hreleased.2.2,
      fun trigger u hu hu' => ⟨?_, fun v hv => by cases hv⟩⟩
    exact Account.releaseAll_keeps (A := accountOf p ⟨el, id⟩ now) (u := ⟨"", u⟩) hvalid hu hu'
  | ok loaded =>
    have hwaiting : e.outcome? = none → Turned platform text now e.waits el p
        (.awaiting ⟨el, id⟩ name e (.settled (.ok loaded)), p) := fun hopen =>
      ⟨.awaiting hrecord hstate hid hparse htracks hopen happart,
        leaves_surroundings p.surroundings, hvalid.1, hvalid.2.1, hvalid.2.2,
        fun trigger u hu hu' => ⟨hu, hu'⟩⟩
    cases e with
    | succeeded =>
      have hactivated : (p.handBack el).2.component? el = some { c with state := .activated } := by
        rw [component?_handBack, if_pos rfl, hrecord]
        rfl
      exact turned_ended (.activated hactivated rfl hid hparse htracks.outcome_eq) leaves_handBack
        surroundings_handBack hvalid
    | failed error => exact absurd rfl hfailed
    | waiting wait => exact hwaiting rfl
    | joining join operands => exact hwaiting rfl

/-- **A turn of an activation that waits.** -/
theorem turned_resumeActivation {component : ComponentHandle} {download : Download} {seen : Moment}
    (h : Stage platform el text (p.component? el) seen now p.surroundings
      (.awaiting component name e download))
    (hchanges : seen.changes <+: now.changes) (hclock : seen.clock ≤ now.clock)
    (hnow : p.surroundings.now = now.clock) (hnumbered : p.surroundings.bus.Numbered)
    (hstrategies : p.strategies = .builtIn) :
    Turned platform text now e.waits el p (p.resumeActivation component name e download) := by
  cases h with
  | @awaiting c id _ t _ loaded hrecord hstate hid hparse htracks hopen happart =>
    have hvalid : (accountOf p ⟨el, id⟩ now).Valid p.surroundings := ⟨hnow, rfl, hnumbered⟩
    obtain ⟨htracks', hresumed⟩ := Account.resume_tracks (Condition.trigger platform ⟨el, id⟩)
      (fun a => Trigger.known_extends hchanges hclock _) t htracks hvalid happart
    have hrules : Requirement.rules p.strategies ⟨el, id⟩ =
        Requirement.rules .builtIn ⟨el, id⟩ := by
      rw [hstrategies]
    rw [resumeActivation, hrules]
    generalize e.resume (Requirement.rules .builtIn ⟨el, id⟩) p.surroundings = r
      at htracks' hresumed
    obtain ⟨e', s'⟩ := r
    have hleaves : Leaves el p { p with surroundings := s' } := leaves_surroundings s'
    have hplatform : s'.platform = p.surroundings.platform := hresumed.valid.2.1
    have hvalid' : (accountOf { p with surroundings := s' } ⟨el, id⟩ now).Valid s' :=
      ⟨hresumed.valid.1, rfl, hresumed.valid.2.2⟩
    have hgoes : ∀ turn, Turned platform text now e'.waits el { p with surroundings := s' } turn →
        Turned platform text now e.waits el p turn := fun turn hturn =>
      hturn.after hleaves hplatform fun trigger u hu hapart =>
        ⟨hresumed.keeps trigger ⟨"", u⟩ hu hapart, fun v hv => hapart v (hresumed.sublist.mem hv)⟩
    have hproceed : e'.outcome? ≠ some false → Turned platform text now e'.waits el
        { p with surroundings := s' }
        (proceed { p with surroundings := s' } ⟨el, id⟩ name e' (.settled (.ok loaded))) :=
      turned_proceed hrecord hstate hid hparse hvalid' htracks' (happart.sublist hresumed.sublist)
    cases e' with
    | failed error =>
      exact hgoes _ (turned_ended (.failed hrecord hstate hid hparse htracks'.outcome_eq)
        (leaves_surroundings s') rfl hvalid')
    | succeeded => exact hgoes _ (hproceed (by simp [Evaluation.outcome?]))
    | waiting wait => exact hgoes _ (hproceed (by simp [Evaluation.outcome?]))
    | joining join operands => exact hgoes _ (hproceed (by simp [Evaluation.outcome?]))

/-- **An activation that begins to wait** on a page that begins. -/
theorem turned_await (hrecord : p.component? el = some c) (hstate : c.state ≠ .activated)
    (hid : c.id = some id) (hparse : Requirement.parse text = .ok t)
    (hidle : p.surroundings.platform.idlePeriods = 0) (hnow : p.surroundings.now = 0)
    (hnumbered : p.surroundings.bus.Numbered) (hstrategies : p.strategies = .builtIn)
    (hmodules : p.modules.Prompt) :
    Turned p.surroundings.platform text ⟨[], 0⟩ [] el p (p.await ⟨el, id⟩ name t) := by
  have hvalid : (accountOf p ⟨el, id⟩ ⟨[], 0⟩).Valid p.surroundings := ⟨hnow, rfl, hnumbered⟩
  obtain ⟨htracks, hbegun⟩ :=
    Account.start_tracks (Trigger.starts_account ⟨el, id⟩ hidle) t hvalid
  have hrules : Requirement.rules p.strategies ⟨el, id⟩ = Requirement.rules .builtIn ⟨el, id⟩ := by
    rw [hstrategies]
  rw [await, hrules]
  generalize t.start (Requirement.rules .builtIn ⟨el, id⟩) p.surroundings = r at htracks hbegun
  obtain ⟨e, s'⟩ := r
  dsimp only at htracks hbegun ⊢
  have hplatform : s'.platform = p.surroundings.platform := hbegun.valid.2.1
  obtain ⟨result, q, hdownload, hleaves, hsurroundings⟩ :=
    beginDownload_prompt (p := { p with surroundings := s' }) el name hmodules
  have hgoes : ∀ {r : Page} {turn : TaskStatus × Page}, Leaves el p r → r.surroundings = s' →
      Turned p.surroundings.platform text ⟨[], 0⟩ e.waits el r turn →
      Turned p.surroundings.platform text ⟨[], 0⟩ [] el p turn := fun hr hs hturn =>
    hturn.after hr (by rw [hs, hplatform]) fun trigger u hu _ => by
      rw [hs]
      exact ⟨hbegun.keeps trigger ⟨"", u⟩ hu, fun v hv => hbegun.apart v hv trigger ⟨"", u⟩ hu⟩
  have hstarted : Leaves el p { p with surroundings := s' } := leaves_surroundings s'
  have hvalid' : ∀ {r : Page}, r.surroundings = s' →
      (accountOf r ⟨el, id⟩ ⟨[], 0⟩).Valid r.surroundings := fun hs => by
    rw [hs]
    exact ⟨hbegun.valid.1, hs ▸ rfl, hbegun.valid.2.2⟩
  have hrecords := records_beginDownload (p := { p with surroundings := s' }) name
  rw [hdownload] at hrecords
  have hproceed : e.outcome? ≠ some false → Turned p.surroundings.platform text ⟨[], 0⟩ [] el p
      (q.proceed ⟨el, id⟩ name e (.settled result)) := fun hfailed => by
    refine hgoes (hstarted.trans hleaves) hsurroundings ?_
    refine turned_proceed ((component?_congr hrecords).trans hrecord) hstate hid hparse
      (hvalid' hsurroundings) ?_ hbegun.pairwise hfailed
    rw [hsurroundings]
    exact htracks
  cases e with
  | failed error =>
    exact hgoes hstarted rfl (turned_ended (.failed hrecord hstate hid hparse htracks.outcome_eq)
      (leaves_surroundings s') rfl (hvalid' rfl))
  | _ =>
    rw [hdownload]
    exact hproceed (by simp [Evaluation.outcome?])

/-- **The first turn of an activation** on a page that begins. -/
theorem turned_beginActivation (hrecord : p.component? el = some c) (hstate : c.state = .discovered)
    (hcloning : p.document.cloning = false) (hidle : p.surroundings.platform.idlePeriods = 0)
    (hnow : p.surroundings.now = 0) (hnumbered : p.surroundings.bus.Numbered)
    (hstrategies : p.strategies = .builtIn) (hmodules : p.modules.Prompt) :
    Turned p.surroundings.platform (p.requirementFor el) ⟨[], 0⟩ [] el p
      (p.beginActivation el) := by
  have hbegins : ∀ {f : Component → Component} {q : Page} {turn : TaskStatus × Page},
      Claimed p el f q →
      Turned p.surroundings.platform (p.requirementFor el) ⟨[], 0⟩ [] el q turn →
      Turned p.surroundings.platform (p.requirementFor el) ⟨[], 0⟩ [] el p turn :=
    fun hq hturn => hturn.after hq.leaves (by rw [hq.surroundings]) fun trigger u hu _ => by
      rw [hq.surroundings]
      exact ⟨hu, fun v hv => by cases hv⟩
  have hvalid : ∀ {f : Component → Component} {q : Page} (id : String), Claimed p el f q →
      (accountOf q ⟨el, id⟩ ⟨[], 0⟩).Valid q.surroundings := fun id hq => by
    refine ⟨?_, rfl, ?_⟩
    · rw [hq.surroundings, hnow]
    · rw [hq.surroundings]
      exact hnumbered
  have hbeginning := beginActivation_cases p el
  generalize p.beginActivation el = turn at hbeginning ⊢
  cases hbeginning with
  | skipped h =>
    rcases h with h | h
    · rw [hcloning] at h
      cases h
    · rw [state?, hrecord] at h
      exact absurd (congrArg some hstate) h
  | unregistered h =>
    exact hbegins h (turned_ended .unloaded (leaves_surroundings _) rfl (hvalid "" h))
  | unread h hparse =>
    exact hbegins h (turned_ended (.unread hparse) (leaves_surroundings _) rfl (hvalid "" h))
  | @begun f q id name t h hid hparse =>
    refine hbegins h ?_
    have hfilled : q.component? el = some (f c) := by
      rw [component?_congr (p := p.modifyComponent el f) h.records,
        component?_modifyComponent h.element, if_pos rfl, hrecord]
      rfl
    have hstate' : (f c).state ≠ .activated := by
      rw [h.state]
      decide
    rw [← h.surroundings] at hidle hnow hnumbered ⊢
    exact turned_await hfilled hstate' (hid c) hparse hidle hnow hnumbered
      (h.strategies.trans hstrategies) (h.leaves.modules hmodules)

end Turns

end Hydration.Page
