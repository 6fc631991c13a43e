import Hydration.CommandLine.Answer
import Hydration.Proofs.Page.Clock
import Hydration.Proofs.Page.Identity
import Hydration.Proofs.Scenario.Setup
import Hydration.Url.Parse

/-!
# The default requirement

An element that declares no requirement, or a blank one, has the default requirement of the
options, so that one must not be blank.  A file of options and an update of the options are
refused if it is.  The options in the file of a scenario are taken as they are.

What happens to a page changes its options by updates only, and a component is given
the requirement of its element (`Gives`).  So neither the default requirement of a page nor
the requirement of a component is ever blank, whatever happens (`default_never_blank`), if the
page does not begin with the options of a scenario that has a blank one (`default_blank`).
-/

namespace Hydration

/-! ## Options -/

namespace Options

variable {o o' : Options} {u : OptionsUpdate} {text : String}

/-- The default requirement is not blank. -/
def Usable (o : Options) : Prop :=
  Text.isBlankText o.defaultStrategy = false

/-- A file is refused if its default requirement is blank. -/
theorem ofFile_eq (text : String) : ofFile text =
    match Yaml.Decode.run? decode text with
    | none => .error .yaml
    | some o =>
      if Text.isBlankText o.defaultStrategy then .error (.config .blankDefaultStrategy)
      else .ok o := by
  rw [ofFile]
  cases Yaml.Decode.run? decode text with
  | none => rfl
  | some o =>
    dsimp only
    rw [checkDefaultStrategy]
    split
    · rfl
    · rfl

theorem usable_of_ofFile (h : ofFile text = .ok o) : o.Usable := by
  rw [ofFile_eq] at h
  split at h
  · cases h
  · split at h
    · cases h
    · next hblank =>
      cases h
      exact (Bool.not_eq_true _).mp hblank

/-- What a file is refused for with a configuration error is a blank default requirement. -/
theorem ofFile_eq_error {error : ConfigError} : ofFile text = .error (.config error) ↔
    error = .blankDefaultStrategy ∧
      ∃ o, Yaml.Decode.run? decode text = some o ∧ ¬o.Usable := by
  rw [ofFile_eq]
  constructor
  · intro h
    split at h
    · cases h
    · next o hread =>
      split at h
      · next hblank =>
        cases h
        exact ⟨rfl, o, hread, ne_false_of_eq_true hblank⟩
      · cases h
  · rintro ⟨rfl, o, hread, hblank⟩
    rw [hread]
    exact if_pos ((Bool.not_eq_false _).mp hblank)

/-- An update is refused if its default requirement is blank. -/
theorem merge_eq : o.merge u =
    if u.defaultStrategy.any Text.isBlankText then .error .blankDefaultStrategy
    else .ok (o.overlay u) := by
  rw [merge]
  cases u.defaultStrategy with
  | none => rfl
  | some text =>
    simp only [Option.map_some, Option.any_some, checkDefaultStrategy]
    by_cases hblank : Text.isBlankText text = true
    · rw [if_pos hblank, if_pos hblank]
    · rw [if_neg hblank, if_neg hblank]

theorem Usable.merge (h : o.Usable) (hmerge : o.merge u = .ok o') : o'.Usable := by
  rw [merge_eq] at hmerge
  split at hmerge
  · cases hmerge
  · next hblank =>
    cases hmerge
    show Text.isBlankText (u.defaultStrategy.getD o.defaultStrategy) = false
    cases hu : u.defaultStrategy with
    | none => exact h
    | some text =>
      rw [hu] at hblank
      exact (Bool.not_eq_true _).mp hblank

end Options

namespace Page

variable {p q r : Page} {el : ElementRef} {component : ComponentHandle} {name : String} {i : Nat}

/-- **The requirement of an element** is blank only if the default requirement is. -/
theorem isBlankText_requirementFor (h : p.options.Usable) :
    Text.isBlankText (p.requirementFor el) = false := by
  rw [requirementFor]
  cases hload : (p.document.attribute? el (p.options.attributeName "load")).filter
      (!Text.isBlankText ·) with
  | none => exact h
  | some load => simpa using (Option.filter_eq_some_iff.mp hload).2

/-! ## What a turn gives -/

/-- The requirements that the components have been given. -/
def requirements (p : Page) : List String :=
  p.components.filterMap (·.requirement)

/-- The options stay, and what a component is given is the requirement of an element. -/
structure Gives (p q : Page) : Prop where
  options : q.options = p.options
  requirements : ∀ text ∈ q.requirements, text ∈ p.requirements ∨ ∃ el, text = p.requirementFor el

theorem requirements_congr (h : q.components = p.components) : q.requirements = p.requirements :=
  congrArg (List.filterMap Component.requirement) h

theorem Gives.of_same (hoptions : q.options = p.options)
    (hrequirements : q.requirements = p.requirements) : Gives p q :=
  ⟨hoptions, fun _ h => .inl (hrequirements ▸ h)⟩

theorem Gives.setStatus {status : TaskStatus} (h : Gives p q) : Gives p (q.setStatus i status) :=
  ⟨h.options, h.requirements⟩

/-- What is given to the components of a page with the same elements and options. -/
theorem Gives.congr (h : Gives q r) (hoptions : q.options = p.options)
    (hrequirements : q.requirements = p.requirements)
    (hsame : ∀ el, q.requirementFor el = p.requirementFor el) : Gives p r where
  options := h.options.trans hoptions
  requirements text htext := by
    rcases h.requirements text htext with hold | ⟨el, rfl⟩
    · exact .inl (hrequirements ▸ hold)
    · exact .inr ⟨el, hsame el⟩

theorem requirements_modifyComponent {f : Component → Component}
    (hf : ∀ c, (f c).requirement = c.requirement) :
    (p.modifyComponent el f).requirements = p.requirements := by
  rw [requirements, modifyComponent, List.filterMap_map, requirements]
  refine List.filterMap_congr fun c _ => ?_
  dsimp only [Function.comp_apply]
  split
  · exact hf c
  · rfl

theorem requirements_insertComponent {c : Component} (h : c.requirement = none)
    (cs : List Component) :
    (insertComponent c cs).filterMap (·.requirement) = cs.filterMap (·.requirement) := by
  induction cs with
  | nil =>
    rw [insertComponent, List.filterMap_cons, h]
  | cons d cs ih =>
    rw [insertComponent]
    split
    · rw [List.filterMap_cons, h]
    · rw [List.filterMap_cons, List.filterMap_cons, ih]

theorem requirements_discover : (p.discover el).2.requirements = p.requirements := by
  rw [discover]
  split
  · rfl
  · exact requirements_insertComponent rfl p.components

theorem gives_discover : Gives p (p.discover el).2 :=
  .of_same (congrArg Settings.options settings_discover) requirements_discover

theorem requirements_handBack : (p.handBack el).2.requirements = p.requirements := by
  have hreleased : (p.released el).requirements = p.requirements :=
    requirements_modifyComponent fun _ => rfl
  rcases handBack_cases p el with ⟨h, -⟩ | ⟨h, -⟩
  · rw [h, hreleased]
  · rw [h]
    exact hreleased

theorem Progress.requirements {turn : TaskStatus × Page} (h : Progress p component turn) :
    turn.2.requirements = p.requirements := by
  cases h with
  | failed hq => exact requirements_congr (congrArg Records.components hq)
  | waiting hq => exact requirements_congr (congrArg Records.components hq)
  | done hq =>
    exact requirements_handBack.trans (requirements_congr (congrArg Records.components hq))

theorem Claimed.gives {f : Component → Component} (h : Claimed p el f q) : Gives p q where
  options := h.options
  requirements text htext := by
    have hcomponents : q.components = (p.modifyComponent el f).components :=
      congrArg Records.components h.records
    rw [requirements_congr hcomponents] at htext
    obtain ⟨_, hmapped, htext⟩ := List.mem_filterMap.mp htext
    obtain ⟨c, hc, rfl⟩ := List.mem_map.mp hmapped
    have hold : c.requirement = some text → text ∈ p.requirements := fun hc' =>
      List.mem_filterMap.mpr ⟨c, hc, hc'⟩
    split at htext
    · rcases h.requirement c with hsame | hgiven
      · exact .inl (hold (hsame.symm.trans htext))
      · exact .inr ⟨el, Option.some.inj (htext.symm.trans hgiven)⟩
    · exact .inl (hold htext)

/-- **The first turn** of a call gives the element's component the element's requirement. -/
theorem gives_beginActivation (p : Page) (el : ElementRef) : Gives p (p.beginActivation el).2 := by
  have hbeginning := beginActivation_cases p el
  generalize p.beginActivation el = turn at hbeginning ⊢
  cases hbeginning with
  | skipped => exact .of_same rfl rfl
  | unregistered h => exact h.gives
  | unread h => exact h.gives
  | begun h =>
    refine ⟨(congrArg Settings.options settings_await).trans h.options, fun text htext => ?_⟩
    rw [(await_progress).requirements] at htext
    exact h.gives.requirements text htext

theorem gives_runTask (p : Page) (i : Nat) : Gives p (p.runTask i) := by
  rw [runTask]
  cases ht : p.tasks[i]? with
  | none => exact .of_same rfl rfl
  | some t =>
    dsimp only
    cases hstatus : t.status with
    | ended result => exact .of_same rfl rfl
    | dropped => exact .of_same rfl rfl
    | fresh discovers =>
      dsimp only
      by_cases hcancelled : t.cancelled = true
      · rw [if_pos hcancelled]
        exact .of_same rfl rfl
      · rw [if_neg hcancelled]
        have hprepared : Gives p (p.prepared t discovers) ∧
            (p.prepared t discovers).requirements = p.requirements := by
          rw [prepared]
          split
          · exact ⟨gives_discover, requirements_discover⟩
          · exact ⟨.of_same rfl rfl, rfl⟩
        obtain ⟨hgives, hsame⟩ := hprepared
        have hturn := gives_beginActivation (p.prepared t discovers) t.element
        exact (hturn.congr hgives.options hsame fun el =>
          requirementFor_congr (skeleton_prepared t discovers) hgives.options).setStatus
    | awaiting component name requirement download =>
      dsimp only
      by_cases hcancelled : t.cancelled = true
      · rw [if_pos hcancelled]
        exact .of_same rfl rfl
      · rw [if_neg hcancelled]
        exact .of_same (congrArg Settings.options settings_resumeActivation)
          (resumeActivation_progress).requirements

/-! ## What happens to a page -/

/-- **What may happen to a page**: apart from updates of the options, anything may happen that
leaves the options and the components as they are. -/
inductive Happens (p : Page) : Page → Prop where
  | discover (el : ElementRef) : Happens p (p.discover el).2
  | turn (task : Nat) : Happens p (p.runTask task)
  | merge (update : OptionsUpdate) : Happens p (p.perform (.mergeOptions update)).2
  | outside {q : Page} (hoptions : q.options = p.options)
      (hcomponents : q.components = p.components) : Happens p q

/-- A page comes to be another one. -/
def Reaches : Page → Page → Prop :=
  Relation.ReflTransGen Happens

/-- **Neither the default requirement nor that of a component is blank.** -/
structure Required (p : Page) : Prop where
  usable : p.options.Usable
  given : ∀ text ∈ p.requirements, Text.isBlankText text = false

theorem Required.gives (h : Required p) (hq : Gives p q) : Required q where
  usable := by
    rw [hq.options]
    exact h.usable
  given text htext := by
    rcases hq.requirements text htext with hold | ⟨el, rfl⟩
    · exact h.given text hold
    · exact isBlankText_requirementFor h.usable

/-- A refused update leaves the page as it is. -/
theorem perform_mergeOptions (p : Page) (update : OptionsUpdate) :
    p.perform (.mergeOptions update) = (.failure (.config .blankDefaultStrategy), p) ∧
        update.defaultStrategy.any Text.isBlankText = true ∨
      ∃ options, p.perform (.mergeOptions update) = (.options options, { p with options }) ∧
        p.options.merge update = .ok options := by
  rw [perform]
  cases hmerge : p.options.merge update with
  | ok options => exact .inr ⟨options, rfl, rfl⟩
  | error error =>
    rw [Options.merge_eq] at hmerge
    split at hmerge
    · next hblank =>
      cases hmerge
      exact .inl ⟨rfl, hblank⟩
    · cases hmerge

theorem Required.happens (h : Required p) (hq : Happens p q) : Required q := by
  cases hq with
  | discover el => exact h.gives gives_discover
  | turn task => exact h.gives (gives_runTask p task)
  | merge update =>
    rcases perform_mergeOptions p update with ⟨hrefused, -⟩ | ⟨options, hmerged, hmerge⟩
    · rw [hrefused]
      exact h
    · rw [hmerged]
      exact ⟨h.usable.merge hmerge, h.given⟩
  | outside hoptions hcomponents =>
    exact h.gives (.of_same hoptions (requirements_congr hcomponents))

theorem Required.reaches (h : Required p) (hq : p.Reaches q) : Required q := by
  induction hq with
  | refl => exact h
  | tail _ hlast ih => exact ih.happens hlast

/-! ## Commands and scenarios -/

theorem SameTasks.happens (h : SameTasks p q) : Happens p q :=
  .outside h.options (congrArg Records.components h.records)

theorem happens_startTask (el : ElementRef) (discovers : Bool) :
    Happens p (p.startTask el discovers).2 :=
  .outside (sameTasks_enqueue _).options (components_enqueue _)

theorem happens_abort (task : Nat) : Happens p (p.abort task).2 := by
  obtain ⟨tasks, queue, h⟩ := abort_eq p task
  rw [h]
  exact .outside rfl rfl

theorem happens_change (c : Change) : Happens p (p.change c) :=
  (change_cases c).1.happens

theorem reaches_turns (tasks : List Nat) : p.Reaches (tasks.foldl runTask p) := by
  induction tasks generalizing p with
  | nil => exact .refl
  | cons task tasks ih => exact .head (.turn task) ih

theorem reaches_settle : p.Reaches p.settle := by
  have hemptied : p.Reaches { p with queue := [] } := .single (.outside rfl rfl)
  exact hemptied.trans (reaches_turns p.queue)

theorem reaches_advance (duration : Nat) : p.Reaches (p.advance duration) := by
  rw [advance]
  split
  · exact .refl
  · refine .tail (reaches_settle.trans ?_) (setClock_cases _).1.happens
    generalize p.settle.dueBefore _ = times
    generalize p.settle = settled
    induction times generalizing settled with
    | nil => exact .refl
    | cons time times ih =>
      have hsettled : settled.Reaches (settled.settleAt time) :=
        .head (setClock_cases time).1.happens reaches_settle
      exact hsettled.trans (ih _)

/-- **Every command** is something that may happen to a page. -/
theorem reaches_perform (p : Page) (command : Command) : p.Reaches (p.perform command).2 := by
  have hsame : ∀ {q : Page}, q.options = p.options → q.components = p.components → p.Reaches q :=
    fun hoptions hcomponents => .single (.outside hoptions hcomponents)
  cases command with
  | discover el => exact .single (.discover el)
  | handle el => exact .single (happens_startTask el true)
  | activate el => exact .single (happens_startTask el false)
  | abort task => exact .single (happens_abort task)
  | mergeOptions update => exact .single (.merge update)
  | registerUrl name url =>
    rw [perform]
    split
    · exact hsame rfl rfl
    · exact .refl
  | publish e =>
    show p.Reaches (p.publish e).2
    rw [publish_eq]
    exact .single (happens_change _)
  | setVisible el on =>
    show p.Reaches (p.setVisible el on)
    rw [setVisible_eq]
    exact .single (happens_change _)
  | setMedia query on =>
    show p.Reaches (p.setMedia query on)
    rw [setMedia_eq]
    exact .single (happens_change _)
  | triggerIdle =>
    show p.Reaches p.triggerIdle
    rw [triggerIdle_eq]
    exact .single (happens_change _)
  | wait duration => exact reaches_advance duration
  | _ => exact hsame rfl rfl

theorem reaches_step (p : Page) (command : Command) (settles : Bool) :
    p.Reaches (p.step command settles).2.2 := by
  have hperformed := reaches_perform p command
  cases settles with
  | true => exact (hperformed.trans reaches_settle).tail (.outside rfl rfl)
  | false => exact hperformed.tail (.outside rfl rfl)

end Page

namespace Scenario

variable {s : Scenario} {join : Url.Joiner} {p q : Page}

theorem reaches_start (s : Scenario) (p : Page) : p.Reaches (s.start p) := by
  have hdiscovered : ∀ els : List ElementRef, ∀ p : Page,
      p.Reaches (els.foldl (fun p el => (p.discover el).2) p) := by
    intro els
    induction els with
    | nil => exact fun p => .refl
    | cons el els ih => exact fun p => .head (.discover el) (ih _)
  have hstarted : ∀ els : List ElementRef, ∀ p : Page,
      p.Reaches (els.foldl (fun p el => (p.startTask el true).2) p) := by
    intro els
    induction els with
    | nil => exact fun p => .refl
    | cons el els ih => exact fun p => .head (Page.happens_startTask el true) (ih _)
  have hopened : (s.discovered p).Reaches (s.opened p) := .single (.outside rfl rfl)
  exact ((hdiscovered s.deferred p).trans hopened).trans (hstarted s.deferred (s.opened p))

theorem reaches_apply {step : ScenarioStep} (h : s.apply p step = .ok q) : p.Reaches q := by
  have hvisible : ∀ key on, (do return p.setVisible (← s.element key) on) = .ok q →
      p.Reaches q := by
    intro key on h
    obtain ⟨el, -, rfl⟩ := setVisible_ok h
    exact Page.reaches_perform p (.setVisible el on)
  cases step with
  | wait duration =>
    cases h
    exact Page.reaches_advance duration
  | visible key => exact hvisible key true h
  | hidden key => exact hvisible key false h
  | media query on =>
    cases h
    exact Page.reaches_perform p (.setMedia query on)
  | idle happens =>
    cases h
    cases happens with
    | false => exact .refl
    | true => exact Page.reaches_perform p .triggerIdle
  | event name =>
    cases h
    exact Page.reaches_perform p (.publish _)
  | load id =>
    cases h
    exact Page.reaches_perform p (.publish _)

theorem reaches_steps {steps : List ScenarioStep}
    (h : steps.foldlM (fun p step => s.apply (p.advance stepGap) step) p = .ok q) :
    p.Reaches q := by
  induction steps generalizing p with
  | nil =>
    cases h
    exact .refl
  | cons step steps ih =>
    rw [List.foldlM_cons] at h
    obtain ⟨p', happly, h⟩ := bind_eq_ok h
    exact ((Page.reaches_advance stepGap).trans (reaches_apply happly)).trans (ih h)

theorem reaches_play (h : s.play p = .ok q) : p.Reaches q := by
  rw [play] at h
  obtain ⟨p', hsteps, h⟩ := bind_eq_ok h
  cases h
  exact (reaches_steps hsteps).trans (Page.reaches_advance s.settleTime)

/-- A run goes on from the page of the scenario to the page that is reported on. -/
theorem reaches_of_run {report : Report} (h : s.run join = .ok report) :
    ∃ p q, s.page join = .ok p ∧ p.Reaches q ∧ report = s.report q := by
  rw [run] at h
  obtain ⟨p, hpage, h⟩ := bind_eq_ok h
  obtain ⟨q, hplay, h⟩ := bind_eq_ok h
  have hplayed : p.Reaches q := (reaches_start s p).trans (reaches_play (mapError_eq_ok hplay))
  exact ⟨p, q, hpage, hplayed, (Except.ok.inj h).symm⟩

end Scenario

/-! ## Runs of the program -/

namespace CommandLine.Request

open Scenario (bind_eq_ok)

variable {join : Url.Joiner} {files : String → Option String} {path optionsPath text : String}
  {json : Bool} {scenario : Scenario}

theorem fileText_eq_ok : fileText files path = .ok text ↔ files path = some text := by
  rw [fileText]
  cases files path with
  | none => exact ⟨nofun, nofun⟩
  | some text' => simp

/-- A run with a file of options needs the options in it. -/
theorem options_of_runScenario {output : String}
    (h : runScenario join files path (some optionsPath) json = .ok output) :
    ∃ (scenario : Scenario) (text : String) (options : Options) (report : Report),
      files optionsPath = some text ∧ Options.ofFile text = .ok options ∧
        Scenario.run { scenario with options } join = .ok report := by
  rw [runScenario] at h
  obtain ⟨_, -, h⟩ := bind_eq_ok h
  obtain ⟨scenario, -, h⟩ := bind_eq_ok h
  obtain ⟨text, htext, h⟩ := bind_eq_ok h
  obtain ⟨options, hoptions, h⟩ := bind_eq_ok h
  obtain ⟨report, hreport, -⟩ := bind_eq_ok h
  exact ⟨scenario, text, options, report, fileText_eq_ok.mp htext, hoptions, hreport⟩

/-- Without these options nothing is run. -/
theorem runScenario_refused {error : Failure}
    (hscenario : (do Scenario.ofFile (← fileText files path)) = .ok scenario)
    (htext : files optionsPath = some text) (herror : Options.ofFile text = .error error) :
    runScenario join files path (some optionsPath) json = .error error := by
  obtain ⟨scenarioText, hread, hscenario⟩ := bind_eq_ok hscenario
  rw [runScenario, hread]
  show (Scenario.ofFile scenarioText >>= _) = _
  rw [hscenario]
  show (fileText files optionsPath >>= fun text => Options.ofFile text >>= _) = _
  rw [fileText_eq_ok.mpr htext]
  show (Options.ofFile text >>= _) = _
  rw [herror]
  rfl

end CommandLine.Request

/-! ## Pages whose options have been checked -/

namespace Page

/-- **A page that begins** with the default options, with those of a file, or with those of a
scenario, if these are usable. -/
inductive Configured : Page → Prop where
  | default {p : Page} (hoptions : p.options = {}) (hcomponents : p.components = []) : Configured p
  | file {p : Page} {text : String} (hoptions : Options.ofFile text = .ok p.options)
      (hcomponents : p.components = []) : Configured p
  | scenario {p : Page} {s : Scenario} {join : Url.Joiner} (hpage : s.page join = .ok p)
      (husable : s.options.Usable) : Configured p

theorem Configured.required {p : Page} (h : Configured p) : Required p := by
  have hnothing : p.components = [] → ∀ text ∈ p.requirements, Text.isBlankText text = false := by
    intro hcomponents text htext
    rw [requirements, hcomponents] at htext
    cases htext
  cases h with
  | default hoptions hcomponents =>
    have husable : Options.Usable {} := by rw [Options.Usable]; decide +kernel
    exact ⟨hoptions ▸ husable, hnothing hcomponents⟩
  | file hoptions hcomponents => exact ⟨Options.usable_of_ofFile hoptions, hnothing hcomponents⟩
  | scenario hpage husable =>
    obtain ⟨_, _, _, -, -, -, rfl⟩ := Scenario.page_eq hpage
    exact ⟨husable, hnothing rfl⟩

/-- **The default requirement is never blank** on a page that begins with options that have been
checked, whatever happens to it, and no component is ever given a blank requirement.

* Whatever commands are carried out, and whatever a scenario does, is something that may happen.
* An update with a blank default requirement is refused with a configuration error and leaves the
  page as it is, and a file of options with one is refused as well.
* A run of the program with a file of options is a run of a scenario with the options in it, and
  there is none if the file is refused. -/
theorem default_never_blank (p q : Page) (hconfigured : Configured p) (hreached : p.Reaches q) :
    (q.options.Usable ∧ (∀ el, Text.isBlankText (q.requirementFor el) = false) ∧
      ∀ c ∈ q.components, ∀ text, c.requirement = some text → Text.isBlankText text = false) ∧
    ((∀ command settles, p.Reaches (q.perform command).2 ∧
        p.Reaches (q.step command settles).2.2) ∧
      ∀ s join report, Scenario.run s join = .ok report →
        ∃ begun ended, s.page join = .ok begun ∧ begun.Reaches ended ∧ report = s.report ended) ∧
    ((∀ update : OptionsUpdate, q.perform (.mergeOptions update) =
            (.failure (.config .blankDefaultStrategy), q) ∧
          update.defaultStrategy.any Text.isBlankText = true ∨
        ∃ options, q.perform (.mergeOptions update) = (.options options, { q with options }) ∧
          q.options.merge update = .ok options) ∧
      ∀ text error, Options.ofFile text = .error (.config error) ↔
        error = .blankDefaultStrategy ∧
          ∃ options, Yaml.Decode.run? Options.decode text = some options ∧ ¬options.Usable) ∧
    ∀ join files path optionsPath json,
      (∀ output,
        CommandLine.Request.runScenario join files path (some optionsPath) json = .ok output →
        ∃ (scenario : Scenario) (text : String) (options : Options) (report : Report),
          files optionsPath = some text ∧ Options.ofFile text = .ok options ∧
          Scenario.run { scenario with options } join = .ok report ∧
          ∀ begun, Scenario.page { scenario with options } join = .ok begun → Configured begun) ∧
      ∀ scenario text error,
        (do Scenario.ofFile (← CommandLine.fileText files path)) = .ok scenario →
        files optionsPath = some text → Options.ofFile text = .error error →
        CommandLine.Request.runScenario join files path (some optionsPath) json = .error error := by
  have hrequired := hconfigured.required.reaches hreached
  refine ⟨⟨hrequired.usable, fun el => isBlankText_requirementFor hrequired.usable, ?_⟩,
    ⟨fun command settles => ?_, fun s join report => Scenario.reaches_of_run⟩,
    ⟨perform_mergeOptions q, fun text error => Options.ofFile_eq_error⟩,
    fun join files path optionsPath json => ⟨fun output h => ?_, fun scenario text error => ?_⟩⟩
  · exact fun c hc text htext => hrequired.given text (List.mem_filterMap.mpr ⟨c, hc, htext⟩)
  · exact ⟨hreached.trans (reaches_perform q command),
      hreached.trans (reaches_step q command settles)⟩
  · obtain ⟨scenario, text, options, report, htext, hoptions, hrun⟩ :=
      CommandLine.Request.options_of_runScenario h
    exact ⟨scenario, text, options, report, htext, hoptions, hrun, fun begun hpage =>
      .scenario hpage (Options.usable_of_ofFile hoptions)⟩
  · exact CommandLine.Request.runScenario_refused

/-- A page with an element whose requirement is blank. -/
def blankLoadPage : Page :=
  { modules := { join := Url.joinTexts }
    document := { elements := [{ parent := none, attributes := [("x-load", " ")] }] } }

/-- The element is given the default requirement, and an update that makes this one blank is refused
before. -/
theorem default_never_blank_blankLoadPage :
    let refused := (blankLoadPage.perform (.mergeOptions { defaultStrategy := some "\t" })).2
    let q := (refused.step (.handle ⟨0⟩) true).2.2
    Configured blankLoadPage ∧ blankLoadPage.Reaches q ∧ q.requirements = ["eager"] ∧
      q.options.Usable ∧ ∀ el, Text.isBlankText (q.requirementFor el) = false := by
  intro refused q
  have hconfigured : Configured blankLoadPage := .default rfl rfl
  have hreaches : blankLoadPage.Reaches q :=
    (reaches_perform blankLoadPage _).trans (reaches_step refused _ true)
  obtain ⟨⟨husable, hnotBlank, -⟩, -⟩ := default_never_blank blankLoadPage q hconfigured hreaches
  exact ⟨hconfigured, hreaches, by decide +kernel, husable, hnotBlank⟩

/-- The file of a scenario whose own options have a blank default requirement. -/
def blankDefaultFile : String :=
  "options: \x7bdefault_strategy: ' '\x7d\nelements: [\x7bkey: a, load: ''\x7d]\n"

/-- **The file is accepted**, and the blank default requirement is given to its element. -/
theorem default_blank :
    let accepted := (Scenario.ofFile blankDefaultFile).toOption
    accepted.map (·.options.defaultStrategy) = some " " ∧
      (accepted.bind fun s => (s.page Url.joinTexts).toOption.map fun p =>
        ((s.start p).settle.options.defaultStrategy, (s.start p).settle.requirements)) =
        some (" ", [" "]) ∧
      (accepted.bind fun s => (s.run Url.joinTexts).toOption.map fun r =>
        r.components.map fun c => (c.key, c.error)) =
        some [("a", some "Invalid requirement: requirement is empty")] := by
  decide +kernel

end Page

end Hydration
