import Hydration.Page.Basic

/-!
# Activation

An activation claims its element, names it, and then waits for two things at once:
the requirement and the module.  Whenever its turn comes it looks at the requirement
first and at the download second, and the first failure of either ends it; a
requirement that fails at once therefore leaves the download unbegun.  When both are
there the element is **handed back**: what the framework may have attached to it is
destroyed, the inert mark goes, and unless an ancestor is still inert the subtree is
initialized.

Data is bound as soon as a download is complete, whatever the requirement does.
-/

namespace Hydration.Page

variable (p : Page)

/-- Takes the answer of a module's source and binds the data. -/
def receiveModule (name : String) (answer : Except ModuleError ComponentModule) :
    Download × Page :=
  let (result, data, modules) := p.modules.receive name answer
  let document :=
    match data with
    | some data => p.document.bind name data
    | none => p.document
  (.settled result, { p with modules, document })

/-- Begins to download the module called `name`. -/
def beginDownload (name : String) : Download × Page :=
  let (request, modules) := p.modules.request name p.options
  let p := { p with modules }
  match request with
  | .settled result => (.settled result, p)
  | .answered (some 0) answer => p.receiveModule name answer
  | .answered delay answer =>
    let ticket := p.surroundings.nextTicket
    (.arriving ticket (delay.map (p.surroundings.now + ·)) answer,
      { p with surroundings := { p.surroundings with nextTicket := ticket + 1 } })

/-- Looks again at a download. -/
def resumeDownload (name : String) (download : Download) : Download × Page :=
  match download with
  | .settled result => (.settled result, p)
  | .arriving ticket due answer =>
    if due.any (· ≤ p.surroundings.now) then p.receiveModule name answer
    else (.arriving ticket due answer, p)

/-- Hands an element back to the framework. -/
def handBack (el : ElementRef) : Outcome × Page :=
  let p := { p with document := (p.document.destroyTree el).clearInert el }
  let p := p.modifyComponent el fun c => { c with state := .activated }
  if p.document.hasInertAncestor el then (.nested, p)
  else (.activated, { p with document := p.document.initTree el })

/-- Gives up the waits of a requirement. -/
def releaseRequirement (requirement : Evaluation NamedWait) : Page :=
  { p with
    surroundings := requirement.waits.foldl (fun s w => w.wait.release s) p.surroundings }

/-- Goes on when the requirement has not failed and the download has been looked at. -/
def proceed (component : ComponentHandle) (name : String) (requirement : Evaluation NamedWait)
    (download : Download) : TaskStatus × Page :=
  match download, requirement with
  | .settled (.error error), requirement =>
    (.ended (.error (.module error)), p.releaseRequirement requirement)
  | .settled (.ok _), .succeeded =>
    let (outcome, p) := p.handBack component.element
    (.ended (.ok outcome), p)
  | download, requirement => (.awaiting component name requirement download, p)

/-- Begins to wait for a requirement that has been read, and for the module. -/
def await (component : ComponentHandle) (name : String) (requirement : Requirement) :
    TaskStatus × Page :=
  let rules := Requirement.rules p.strategies component
  let (evaluation, surroundings) := requirement.start rules p.surroundings
  let p := { p with surroundings }
  match evaluation with
  | .failed error => (.ended (.error (.requirement error)), p)
  | evaluation =>
    let (download, p) := p.beginDownload name
    p.proceed component name evaluation download

/-- Begins the activation of an element. -/
def beginActivation (el : ElementRef) : TaskStatus × Page :=
  match p.claim? el with
  | none => (.ended (.ok .skipped), p)
  | some p =>
    let (name, p) := p.nameFor el
    let requirement := p.requirementFor el
    match p.registerSource el name with
    | .error error => (.ended (.error (.module error)), p)
    | .ok p =>
      let (id, p) := p.idFor el
      let p := p.modifyComponent el fun c =>
        { c with id := some id, name := some name, requirement := some requirement }
      match Requirement.parse requirement with
      | .error error => (.ended (.error (.parse error)), p)
      | .ok tree => p.await ⟨el, id⟩ name tree

/-- Goes on with an activation that waits. -/
def resumeActivation (component : ComponentHandle) (name : String)
    (requirement : Evaluation NamedWait) (download : Download) : TaskStatus × Page :=
  let rules := Requirement.rules p.strategies component
  let (evaluation, surroundings) := requirement.resume rules p.surroundings
  let p := { p with surroundings }
  match evaluation with
  | .failed error => (.ended (.error (.requirement error)), p)
  | evaluation =>
    let (download, p) := p.resumeDownload name download
    p.proceed component name evaluation download

end Hydration.Page
