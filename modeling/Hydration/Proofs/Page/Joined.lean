import Hydration.Proofs.Document.Circle
import Hydration.Proofs.Page.Claim
import Hydration.Proofs.Page.Ensuing
import Hydration.Url.Parse

/-!
# Activations that join a requirement and a download

The turn in which an activation claims its element makes a claim (`Page.claimOf?`), and from then on
the task is at the stage of which the claim tells (`Pursued`).  What happens between two looks
leaves it there (`Pursued.occurs`), and each look takes it on (`Pursued.settle`): if the task is
queued it has its turn (`Pursued.answers_turn`), and else nothing that it waits for has happened, as
the page is in order (`Pursued.answers_idle`).

So the activation comes to what its requirement and its module come to, each alone
(`activation_joins`).
-/

namespace Hydration

namespace Page

variable {allowed : Page → Command → Prop} {p q m : Page} {el : ElementRef} {c : Claim} {i : Nat}
  {t u : Task} {looks : List Page} {before after : List Nat}

/-! ## Claims -/

/-- **The claim** that the activation of an element makes, if it can claim the element and the URL
that the element declares is accepted. -/
def claimOf? (p : Page) (el : ElementRef) : Option Claim :=
  match p.claim? el with
  | none => none
  | some claimed =>
    let (name, named) := claimed.nameFor el
    match named.registerSource el name with
    | .error _ => none
    | .ok registered =>
      some {
        component := ⟨el, (registered.idFor el).1⟩
        name
        parsed := Requirement.parse (named.requirementFor el)
        request := (registered.modules.request name registered.options).1
        strategies := registered.strategies
        document := registered.document
        surroundings := registered.surroundings }

/-- **A page on which an element is claimed**: what is left before the activation begins to wait. -/
structure Underway (p : Page) (el : ElementRef) (c : Claim) (q : Page) : Prop where
  element : c.component.element = el
  surroundings : c.surroundings = p.surroundings
  same : q.surroundings = c.surroundings
  document : q.document = c.document
  strategies : q.strategies = c.strategies
  request : (q.modules.request c.name q.options).1 = c.request
  fetched : q.modules.fetched = p.modules.fetched
  consulted : q.modules.consulted = p.modules.consulted

theorem sources_registerUrl {t t' : ModuleTable} {name url : String} {options : Options}
    {taken : Bool} (h : t.registerUrl name url options = .ok (taken, t')) :
    t'.fetched = t.fetched ∧ t'.consulted = t.consulted := by
  obtain ⟨offered, hoffer, -⟩ := ModuleTable.exists_offer_of_registerUrl h
  obtain rfl : t' = (t.offer name offered).2 := congrArg Prod.snd hoffer
  rw [ModuleTable.offer.eq_def]
  split
  · exact ⟨rfl, rfl⟩
  · exact ⟨rfl, rfl⟩

theorem idFor_eq (p : Page) (el : ElementRef) : ∃ n, (p.idFor el).2 = { p with counter := n } := by
  rw [idFor]
  split
  · exact ⟨_, rfl⟩
  · exact ⟨_, rfl⟩

/-- **The first turn** of an activation that makes a claim. -/
theorem beginActivation_of_claimOf (h : p.claimOf? el = some c) : ∃ q, Underway p el c q ∧
    p.beginActivation el = match c.parsed with
      | .error error => (.ended (.error (.parse error)), q)
      | .ok tree => q.await c.component c.name tree := by
  rw [claimOf?] at h
  cases hclaim : p.claim? el with
  | none =>
    rw [hclaim] at h
    cases h
  | some claimed =>
    rw [hclaim] at h
    obtain ⟨-, hdiscovered, hclaimed⟩ := claim?_eq_some.mp hclaim
    have hrecord : Claimed p el (fun c => { c with state := .awaitingRequirements }) claimed :=
      hclaimed ▸ claimed_of_discovered hdiscovered
    have hnamed := hrecord.nameFor
    have hmodules : (claimed.nameFor el).2.modules = p.modules := by
      rw [modules_nameFor, hclaimed]
      rfl
    rw [beginActivation, hclaim]
    dsimp only at h ⊢
    generalize claimed.nameFor el = named at h hnamed hmodules ⊢
    obtain ⟨name, named⟩ := named
    dsimp only at h hnamed hmodules ⊢
    cases hregistered : named.registerSource el name with
    | error error =>
      rw [hregistered] at h
      cases h
    | ok registered =>
      rw [hregistered] at h
      have hsourced := hnamed.registerSource hmodules hregistered
      have hsources : registered.modules.fetched = p.modules.fetched ∧
          registered.modules.consulted = p.modules.consulted := by
        rcases hsourced.modules with hsame | ⟨_, _, _, hregister⟩
        · rw [hsame]
          exact ⟨rfl, rfl⟩
        · exact sources_registerUrl hregister
      obtain ⟨n, hid⟩ := idFor_eq registered el
      dsimp only at h ⊢
      rw [hid]
      generalize (registered.idFor el).1 = id at h ⊢
      generalize named.requirementFor el = text at h ⊢
      obtain rfl := Option.some.inj h
      refine ⟨modifyComponent { registered with counter := n } el fun c => { c with
          id := some id, name := some name, requirement := some text },
        ⟨rfl, hsourced.surroundings, rfl, rfl, rfl, rfl, hsources.1, hsources.2⟩, ?_⟩
      cases Requirement.parse text with
      | error error => rfl
      | ok tree => rfl

/-- **In the turn of the task `i`** the element is claimed, when the page `p` settles; `m` is the
page on which the task has its turn. -/
structure ClaimsIn (p m : Page) (i : Nat) (el : ElementRef) (c : Claim) : Prop where
  queue : ∃ before after, p.queue = before ++ i :: after ∧
    m = before.foldl runTask { p with queue := [] }
  task : ∃ t discovers, m.tasks[i]? = some t ∧ t.element = el ∧ t.status = .fresh discovers ∧
    t.cancelled = false ∧ (m.prepared t discovers).claimOf? el = some c

/-! ## Settling -/

/-- Turns leave the tree as it is. -/
theorem skeleton_turns (tasks : List Nat) :
    (tasks.foldl runTask p).document.skeleton = p.document.skeleton := by
  induction tasks generalizing p with
  | nil => rfl
  | cons i tasks ih => exact ih.trans (skeleton_act (a := .turn i) nofun)

/-- **A task that is queued** has its turn once when the page settles, and the turns of others leave
it and what it owns alone. -/
theorem Orderly.settle_split (h : Orderly (· ∈ p.queue) p)
    (hqueue : p.queue = before ++ i :: after)
    (hm : m = before.foldl Page.runTask { p with queue := [] }) :
    Orderly (fun _ => True) m ∧ m.surroundings.now = p.surroundings.now ∧
      (∀ t, p.tasks[i]? = some t →
        m.tasks[i]? = some t ∧ p.surroundings.Alike (ownedBy t.status) m.surroundings) ∧
      ∀ u, (m.runTask i).tasks[i]? = some u → p.settle.tasks[i]? = some u := by
  have hbegun : Orderly (fun _ => True) { p with queue := [] } :=
    h.unqueued.redue fun _ _ _ _ => .inr trivial
  have hnodup := h.queue
  rw [hqueue, List.nodup_append, List.nodup_cons] at hnodup
  have hbefore : i ∉ before := fun hi => hnodup.2.2 i hi i List.mem_cons_self rfl
  have hreached : Orderly (fun _ => True) m :=
    hm ▸ (Orderly.turns (hbegun.redue fun _ _ _ _ => .inr (.inr trivial))).1
  refine ⟨hreached, hm ▸ hbegun.now_turns, fun t ht => hm ▸ hbegun.others hbefore ht,
    fun u hu => ?_⟩
  have hsettle : p.settle = after.foldl Page.runTask (m.runTask i) := by
    rw [Page.settle, hqueue, List.foldl_append, List.foldl_cons, ← hm]
  rw [hsettle]
  exact ((hreached.next i).others hnodup.2.1.1 hu).1

/-! ## Courses -/

/-- **The activation has come as far** as its claim says. -/
structure Pursued (c : Claim) (i : Nat) (looks : List Page) (q : Page) : Prop where
  task : ∃ t, q.tasks[i]? = some t ∧ t.element = c.component.element ∧ c.Stage looks t.status ∧
    (c.outcome looks = none → t.cancelled = false)
  clock : c.clock looks ≤ q.surroundings.now
  ordered : c.Ordered looks
  punctual : c.Punctual looks

/-- **The turn of the claim.** -/
theorem ClaimsIn.pursued (h : ClaimsIn p m i el c) (hp : Orderly (· ∈ p.queue) p) :
    Pursued c i [] p.settle := by
  obtain ⟨before, after, hqueue, hm⟩ := h.queue
  obtain ⟨t, discovers, ht, rfl, hfresh, hopen, hclaim⟩ := h.task
  obtain ⟨hmiddle, hnow, -, hrest⟩ := hp.settle_split hqueue hm
  obtain ⟨q, hunderway, hbegin⟩ := beginActivation_of_claimOf hclaim
  have hclock : c.surroundings.now = p.surroundings.now := by
    rw [hunderway.surroundings, (surroundings_prepared m t discovers).1, hnow]
  have hturn : (m.runTask i).tasks[i]? =
      some { t with status := ((m.prepared t discovers).beginActivation t.element).1 } := by
    have hrun : m.runTask i = ((m.prepared t discovers).beginActivation t.element).2.setStatus i
        ((m.prepared t discovers).beginActivation t.element).1 := by
      simp only [runTask, ht, hfresh, hopen, Bool.false_eq_true, if_false, prepared]
    rw [hrun, getElem?_setStatus, if_pos rfl, tasks_beginActivation, tasks_prepared, ht]
    rfl
  have hstage : c.Stage [] ((m.prepared t discovers).beginActivation t.element).1 := by
    cases hparsed : c.parsed with
    | error error =>
      rw [hbegin, hparsed]
      have hfailed : c.requirement [] = some (.error (.parse error)) := by
        rw [Claim.requirement, hparsed]
      rw [Claim.Stage, Claim.outcome_of_failed hfailed]
    | ok tree =>
      rw [hbegin, hparsed]
      have hanswers := Claim.answers_await tree hunderway.same hunderway.strategies
        hunderway.request
      rw [hunderway.document] at hanswers
      exact hanswers.stage hparsed c.outcome_nil
  refine ⟨⟨_, hrest _ hturn, hunderway.element.symm, hstage, fun _ => hopen⟩, ?_,
    fun k l _ => ?_, c.punctual_nil⟩
  · rw [hp.now_settle, ← hclock]
    exact Nat.le_refl _
  · rw [List.take_nil, List.take_nil]

theorem Pursued.occurs (h : Pursued c i looks p) (habort : ¬allowed p (.abort i))
    (hq : Occurs allowed p q) : Pursued c i looks q := by
  obtain ⟨t, ht, helement, hstage, hopen⟩ := h.task
  obtain ⟨u, hu, helement', hstatus, hcancelled⟩ := hq.task ht
  refine ⟨⟨u, hu, helement'.trans helement, hstatus ▸ hstage, fun hnone => ?_⟩,
    Nat.le_trans h.clock hq.now_le, h.ordered, h.punctual⟩
  rw [hcancelled habort]
  exact hopen hnone

/-- Whatever the requirement waits for, its next look is at what has happened. -/
theorem evaluation_looked {tree : Requirement} {d : Download} (h : InOrder p.surroundings
    (.awaiting c.component c.name (c.evaluation tree looks) d)) :
    c.evaluation tree (looks ++ [p]) =
      (c.evaluation tree looks).looked (·.isReady p.surroundings) := by
  rw [Claim.evaluation_concat]
  exact resume_eq_looked id (fun a => c.strategies.get? a.name) c.component
    (fun v hv => ⟨h.served v hv, rfl⟩) h.nodup

/-- **A look in which the task has its turn.**  The turns before it have made no difference to what
the task waits for. -/
theorem Pursued.answers_turn {tree : Requirement} {d : Download} (h : Pursued c i looks p)
    (hp : Orderly (· ∈ p.queue) p) (hi : i ∈ p.queue) (ht : p.tasks[i]? = some t)
    (hopen : t.cancelled = false) (hd : c.Fetches (c.clock looks) d)
    (hstatus : t.status = .awaiting c.component c.name (c.evaluation tree looks) d) :
    ∃ status, p.settle.tasks[i]? = some { t with status } ∧
      c.Answers p.surroundings.now p.document (c.evaluation tree (looks ++ [p])) status := by
  obtain ⟨before, after, hqueue⟩ := List.append_of_mem hi
  obtain ⟨hmiddle, hnow, hkept, hrest⟩ := hp.settle_split hqueue rfl
  have hskeleton := skeleton_turns (p := { p with queue := [] }) before
  generalize before.foldl Page.runTask { p with queue := [] } = m
    at hmiddle hnow hkept hrest hskeleton
  obtain ⟨htm, halike⟩ := hkept t ht
  have hinOrder := hmiddle.inOrder i t htm
  rw [hstatus] at hinOrder halike
  have hresumed : ((c.evaluation tree looks).resume (Requirement.rules m.strategies c.component)
      m.surroundings).1 = c.evaluation tree (looks ++ [p]) := by
    rw [evaluation_looked (hstatus ▸ hp.inOrder i t ht)]
    exact resume_eq_looked id (fun a => m.strategies.get? a.name) c.component
      (fun v hv => ⟨hinOrder.served v hv, halike.isReady fun n hn => owned_of_wait hv hn⟩)
      hinOrder.nodup
  refine ⟨(m.resumeActivation c.component c.name (c.evaluation tree looks) d).1, hrest _ ?_, ?_⟩
  · rw [runTask_awaiting htm hstatus hopen, getElem?_setStatus, if_pos rfl,
      resumeActivation_progress.tasks, htm]
    rfl
  · rw [← hresumed, ← hnow]
    exact (Claim.answers_resumeActivation hd (hnow.symm ▸ h.clock)).congr hskeleton

/-- **A look without a turn**: nothing that is waited for has happened. -/
theorem Pursued.answers_idle {tree : Requirement} {d : Download} (h : Pursued c i looks p)
    (hp : Orderly (· ∈ p.queue) p) (hi : i ∉ p.queue) (houtcome : c.outcome looks = none)
    (ht : p.tasks[i]? = some t) (hparsed : c.parsed = .ok tree) (hd : c.Fetches (c.clock looks) d)
    (hstatus : t.status = .awaiting c.component c.name (c.evaluation tree looks) d) :
    p.settle.tasks[i]? = some t ∧
      c.Answers p.surroundings.now p.document (c.evaluation tree (looks ++ [p])) t.status := by
  have hidle := (hp.idle i t ht).resolve_right hi
  rw [hstatus] at hidle
  have hsame : c.evaluation tree (looks ++ [p]) = c.evaluation tree looks := by
    rw [evaluation_looked (hstatus ▸ hp.inOrder i t ht)]
    exact Evaluation.looked_of_quiet (undecided_run _ tree _ _) hidle.1
  obtain ⟨hd', hdownload⟩ := hd.idle h.clock hidle.2
  refine ⟨(hp.unqueued.others hi ht).1, ?_⟩
  have hverdict := Claim.verdict_of_outcome_none h.ordered houtcome
  rw [Claim.requirement, hparsed, Claim.download, ← hdownload] at hverdict
  rw [hsame, Claim.Answers, hverdict]
  exact ⟨d, hd', hstatus⟩

/-- The answer of the module is not due in the past. -/
theorem Pursued.timely (h : Pursued c i looks p) (hp : Orderly (· ∈ p.queue) p)
    (houtcome : c.outcome looks = none) (hdownload : c.download looks = none) {delay : Nat}
    {answer : Except ModuleError ComponentModule}
    (hrequest : c.request = .answered (some delay) answer) :
    p.surroundings.now ≤ c.surroundings.now + delay := by
  obtain ⟨t, ht, -, hstage, -⟩ := h.task
  rw [Claim.Stage, houtcome] at hstage
  obtain ⟨tree, d, -, hd, hstatus⟩ := hstage
  cases hd with
  | settled hsome =>
    have hclash := hdownload.symm.trans hsome
    cases hclash
  | @arriving ticket delay' answer' hrequest' =>
    obtain ⟨rfl, -⟩ := ModuleRequest.answered.inj (hrequest.symm.trans hrequest')
    refine hp.timely i t ht (.timer ticket (c.surroundings.now + delay) (.ok ())) ?_ _ rfl
    rw [Task.waits, hstatus]
    exact List.mem_append_right _ (List.mem_singleton_self _)

/-- **The page settles.** -/
theorem Pursued.settle (h : Pursued c i looks p) (hp : Orderly (· ∈ p.queue) p) :
    Pursued c i (looks ++ [p]) p.settle := by
  have hclock : c.clock (looks ++ [p]) = p.surroundings.now := Claim.clock_concat looks p
  refine ⟨?_, ?_, h.ordered.concat h.clock,
    h.punctual.concat fun houtcome hdownload _ _ => h.timely hp houtcome hdownload⟩
  · obtain ⟨t, ht, helement, hstage, hopen⟩ := h.task
    cases houtcome : c.outcome looks with
    | some found =>
      obtain ⟨k, x⟩ := found
      have hstable := Claim.outcome_stable (q := p) houtcome
      -- Whatever has ended stays so.
      obtain ⟨u, hu, hbecomes⟩ : ∃ u, p.settle.tasks[i]? = some u ∧ Becomes t u := by
        have hturns := exists_becomes_foldl (p := { p with queue := [] }) ht (p.queue.map .turn)
        rw [List.foldl_map] at hturns
        exact hturns
      refine ⟨u, hu, hbecomes.element.trans helement, ?_,
        fun hnone => (Option.some_ne_none _ (hstable.symm.trans hnone)).elim⟩
      obtain ⟨result, hended⟩ := hstage.ended houtcome
      rw [Claim.Stage, houtcome, hended] at hstage
      rw [Claim.Stage, hstable, hbecomes.ended result hended]
      rcases x with failure | ⟨⟨⟩⟩
      · exact hstage
      · dsimp only at hstage ⊢
        rwa [List.take_append_of_le_length (Claim.le_of_outcome houtcome)]
    | none =>
      have hstage' := hstage
      rw [Claim.Stage, houtcome] at hstage'
      obtain ⟨tree, d, hparsed, hd, hstatus⟩ := hstage'
      obtain ⟨status, hu, hanswers⟩ : ∃ status, p.settle.tasks[i]? = some { t with status } ∧
          c.Answers p.surroundings.now p.document (c.evaluation tree (looks ++ [p])) status := by
        by_cases hi : i ∈ p.queue
        · exact h.answers_turn hp hi ht (hopen houtcome) hd hstatus
        · exact ⟨_, h.answers_idle hp hi houtcome ht hparsed hd hstatus⟩
      refine ⟨_, hu, helement, ?_, fun _ => hopen houtcome⟩
      rw [← hclock, ← Claim.documentAt_concat looks p] at hanswers
      refine hanswers.stage hparsed ?_
      rw [List.length_append, List.length_singleton]
      exact Claim.outcome_concat h.ordered h.clock houtcome
  · rw [hclock, hp.now_settle]

theorem Ensues.pursued (h : Ensues allowed p looks q) (hp : Orderly (· ∈ p.queue) p)
    (habort : ∀ r, ¬allowed r (.abort i)) (hclaim : Pursued c i [] p) : Pursued c i looks q := by
  induction h with
  | refl => exact hclaim
  | @occurs _ r _ _ hr ih => exact ih.occurs (habort r) hr
  | settle hq ih => exact ih.settle (hq.orderly hp)

theorem ClaimsIn.element (h : ClaimsIn p m i el c) : c.component.element = el := by
  obtain ⟨t, discovers, -, rfl, -, -, hclaim⟩ := h.task
  obtain ⟨_, hunderway, -⟩ := beginActivation_of_claimOf hclaim
  exact hunderway.element

/-- **No source is asked** if the requirement fails at once. -/
theorem ClaimsIn.sources (h : ClaimsIn p m i el c) {failure : Failure}
    (hfailed : c.requirement [] = some (.error failure)) :
    (m.runTask i).modules.fetched = m.modules.fetched ∧
      (m.runTask i).modules.consulted = m.modules.consulted := by
  obtain ⟨t, discovers, ht, rfl, hfresh, hopen, hclaim⟩ := h.task
  obtain ⟨q, hunderway, hbegin⟩ := beginActivation_of_claimOf hclaim
  have hrun : (m.runTask i).modules =
      ((m.prepared t discovers).beginActivation t.element).2.modules := by
    simp only [runTask, ht, hfresh, hopen, Bool.false_eq_true, if_false, prepared]
    rfl
  have hprepared : (m.prepared t discovers).modules = m.modules := by
    rw [prepared]
    split
    · rw [discover]
      split
      · rfl
      · rfl
    · rfl
  have hmodules : ((m.prepared t discovers).beginActivation t.element).2.modules = q.modules := by
    rw [hbegin]
    rw [Claim.requirement] at hfailed
    cases hparsed : c.parsed with
    | error error => rfl
    | ok tree =>
      rw [hparsed] at hfailed
      exact Claim.modules_await tree hunderway.same hunderway.strategies hfailed
  rw [hrun, hmodules, hunderway.fetched, hunderway.consulted, hprepared]
  exact ⟨rfl, rfl⟩

/-! ## From the beginning -/

/-- **A page that begins**: nothing has been discovered or started. -/
structure Blank (p : Page) : Prop where
  components : p.components = []
  tasks : p.tasks = []
  queue : p.queue = []
  numbered : p.surroundings.bus.Numbered

theorem Blank.orderly (h : Blank p) : Orderly (· ∈ p.queue) p := by
  have hnone : ∀ (i : Nat) (t : Task), p.tasks[i]? ≠ some t := by
    intro i t ht
    rw [h.tasks] at ht
    cases ht
  exact ⟨h.numbered, h.queue ▸ List.nodup_nil, fun i t ht => absurd ht (hnone i t),
    fun i _ t _ ht => absurd ht (hnone i t), fun i t ht => absurd ht (hnone i t),
    fun i t ht => absurd ht (hnone i t)⟩

theorem Blank.kept (h : Blank p) : ∃ log handed, Kept log handed p := by
  refine ⟨[], [], (kept_opened p).congr h.tasks fun x => ?_⟩
  rw [state?, component?, h.components]
  rfl

theorem Blank.watched (h : Blank p) : Watched el p where
  guarded s hs := by
    rw [state?, component?, h.components] at hs
    cases hs
  present t ht := by
    rw [h.tasks] at ht
    cases ht

/-- **The loops of handing an element back** come to an end: the one that destroys its tree and,
when the mark is gone, the one that looks for an inert ancestor and the one that initializes it. -/
def HandBackEnds (p : Page) (el : ElementRef) : Prop :=
  p.document.EndsWithin el p.document.enoughSteps .destroyTree ∧
    ∀ t, (p.document.release el).EndsWithin el (p.document.release el).enoughSteps t

theorem handBackEnds_of_loopsEnd {d : Document} (h : d.LoopsEnd el)
    (hsame : p.document.skeleton = d.skeleton) : p.HandBackEnds el :=
  ⟨h _ hsame _, h _ (Document.skeleton_release.trans hsame)⟩

/-- **An activation joins its requirement and its module.**  On a page that begins blank the task
`i` claims the element `el` when the page `p` settles, and the page `q` ensues after some looks,
without the task having been given up.  What the requirement and the module come to, each alone,
says what becomes of the activation (`Claim.outcome`).  If it is to complete, the loops on the
element have to end at that moment: where parents go in a circle the element is never handed back.

* It has completed, has failed, or waits still, and while it waits nothing that it waits for has
  happened unless its turn is to come.  It has completed by handing the element back at its moment,
  with loops that have come to an end.
* Unless it has completed the element waits, and it is inert if the commands respect it.
* It has come to nothing before its moment.  It completes at the later of the two times, and it
  fails at the moment of the earlier failure, that of the requirement if they are at one moment; the
  module comes to something at the time at which its answer is due.
* If the requirement fails at once, its text being no requirement included, no source is asked, and
  later turns do nothing. -/
theorem activation_joins (allowed : Page → Command → Prop) (start p m q : Page)
    (earlier looks : List Page) (i : Nat) (el : ElementRef) (c : Claim) (hstart : start.Blank)
    (hearlier : Ensues allowed start earlier p) (hclaim : ClaimsIn p m i el c)
    (hlater : Ensues allowed p.settle looks q) (habort : ∀ r, ¬allowed r (.abort i))
    (hends : ∀ k, c.outcome looks = some (k, .ok ()) →
      (c.documentAt (looks.take k)).LoopsEnd el) :
    (∃ t, q.tasks[i]? = some t ∧ t.element = el ∧
      match c.outcome looks with
      | none => (∃ e d, t.status = .awaiting c.component c.name e d) ∧
          (i ∈ q.queue ∨ Idle q.surroundings t.status)
      | some (k, .ok ()) => ∃ (r : Page) (outcome : Outcome),
          r.surroundings.now = c.clock (looks.take k) ∧
          r.document.skeleton = (c.documentAt (looks.take k)).skeleton ∧ r.HandBackEnds el ∧
          outcome = (r.handBack el).1 ∧ outcome ≠ .skipped ∧ t.status = .ended (.ok outcome)
      | some (_, .error failure) => t.status = .ended (.error failure)) ∧
    ((∀ k, c.outcome looks ≠ some (k, .ok ())) →
      q.state? el = some .awaitingRequirements ∧
        (Respects allowed el → q.document.isInert el = true)) ∧
    (∀ k result, c.outcome looks = some (k, result) →
      (∀ l < k, c.outcome (looks.take l) = none) ∧
      (result = .ok () → ∃ r due, firstAt c.requirement looks = some (r, .ok ()) ∧
        c.due? = some due ∧ c.clock (looks.take k) = max (c.clock (looks.take r)) due) ∧
      ∀ failure, result = .error failure →
        (firstAt c.requirement looks = some (k, .error failure) ∧
          ∀ m e, firstAt c.download looks = some (m, .error e) → k ≤ m) ∨
        (firstAt c.download looks = some (k, .error failure) ∧
          c.due? = some (c.clock (looks.take k)) ∧
          ∀ r e, firstAt c.requirement looks = some (r, .error e) → k < r)) ∧
    ∀ failure, c.requirement [] = some (.error failure) →
      (m.runTask i).modules.fetched = m.modules.fetched ∧
      (m.runTask i).modules.consulted = m.modules.consulted ∧ q.runTask i = q := by
  have hp := hearlier.orderly hstart.orderly
  have hsettled : Orderly (· ∈ p.settle.queue) p.settle :=
    hp.settle.1.redue fun _ _ _ hi => hi.elim
  have hpursued := hlater.pursued hsettled habort (hclaim.pursued hp)
  have hq := hlater.orderly hsettled
  obtain ⟨t, ht, helement, hstage, -⟩ := hpursued.task
  obtain rfl : t.element = el := helement.trans hclaim.element
  refine ⟨⟨t, ht, rfl, ?_⟩, fun hopen => ?_,
    fun k result h => ⟨fun l => Claim.outcome_take h, ?_, ?_⟩, fun failure hfailed => ?_⟩
  · rw [Claim.Stage] at hstage
    rcases houtcome : c.outcome looks with _ | ⟨k, failure | ⟨⟨⟩⟩⟩
    · rw [houtcome] at hstage
      obtain ⟨tree, d, -, -, hstatus⟩ := hstage
      exact ⟨⟨_, d, hstatus⟩, (hq.idle i t ht).symm⟩
    · rw [houtcome] at hstage
      exact hstage
    · rw [houtcome] at hstage
      obtain ⟨r, hnow, hskeleton, hstatus⟩ := hstage
      rw [hclaim.element] at hstatus
      exact ⟨r, _, hnow, hskeleton, handBackEnds_of_loopsEnd (hends k houtcome) hskeleton, rfl,
        (handBack_spec r t.element).2.1, hstatus⟩
  · -- The whole course has begun on the blank page.
    have hcourse : Ensues allowed start (earlier ++ [p] ++ looks) q :=
      hearlier.settle.trans hlater
    obtain ⟨log, handed, hkept⟩ := hcourse.exists_kept hstart.kept
    have hwaits : q.state? t.element = some .awaitingRequirements := by
      rw [Claim.Stage] at hstage
      rcases houtcome : c.outcome looks with _ | ⟨k, failure | ⟨⟨⟩⟩⟩
      · rw [houtcome] at hstage
        obtain ⟨tree, d, -, -, hstatus⟩ := hstage
        exact (hkept.awaits i t _ _ _ _ ht hstatus).2.1
      · rw [houtcome] at hstage
        exact hkept.state?_of_failed ht hstage
      · exact absurd houtcome (hopen k)
    exact ⟨hwaits, fun hrespects => (hcourse.watched hrespects hstart.watched).inert hwaits⟩
  · rintro rfl
    exact Claim.time_of_ok hpursued.ordered hpursued.punctual h
  · rintro failure rfl
    exact Claim.time_of_error hpursued.punctual h
  · obtain ⟨hfetched, hconsulted⟩ := hclaim.sources hfailed
    refine ⟨hfetched, hconsulted, ?_⟩
    obtain ⟨result, hended⟩ := hstage.ended (Claim.outcome_of_failed hfailed)
    simp only [runTask, ht, hended]

/-- A page with an element whose requirement takes twenty milliseconds and whose module arrives
after thirty. -/
def slowBox : Page :=
  { strategies := StrategyTable.builtIn.register "soon" (.custom ⟨some 20, .ok ()⟩)
    document :=
      { elements := [{ parent := none, attributes := [("x-data", "box"), ("x-load", "soon")] }] }
    modules :=
      ModuleTable.register { join := Url.joinTexts } "box" ⟨some 30, .ok (.component (.int 1))⟩ }

/-- No timer is passed over if none is due before. -/
theorem timers_of_dueBefore {time : Nat} (h : p.dueBefore time = []) :
    ∀ t ∈ p.tasks, ∀ wait ∈ t.waits, ∀ due, wait.due? = some due → time ≤ due := by
  intro t ht wait hwait due hdue
  by_contra hlt
  have hmem : due ∈ p.dueBefore time :=
    mem_dueBefore.mpr ⟨Nat.not_le.mp hlt, t, ht, wait, hwait, hdue⟩
  rw [h] at hmem
  cases hmem

/-- The element waits for its module when its requirement has succeeded, and it is activated when
the module is there. -/
theorem activation_joins_slowBox :
    let p := (slowBox.perform (.handle ⟨0⟩)).2
    let first := p.settle.setClock 20
    let second := first.settle.setClock 30
    ∃ c, ClaimsIn p { p with queue := [] } 0 ⟨0⟩ c ∧
      c.outcome [first] = none ∧ first.settle.document.isInert ⟨0⟩ = true ∧
      c.outcome [first, second] = some (2, .ok ()) ∧
      ∃ t outcome, second.settle.tasks[0]? = some t ∧ t.status = .ended (.ok outcome) := by
  intro p first second
  -- The only command is the call, and the element is there.
  let allowed : Page → Command → Prop := fun r command =>
    command = .handle ⟨0⟩ ∧ r.document.Exists ⟨0⟩
  have habort : ∀ r, ¬allowed r (.abort 0) := fun _ h => nomatch h.1
  have hrespects : Respects allowed ⟨0⟩ :=
    ⟨fun _ h => (nomatch h.1), fun _ h => h.elim (·.2) (·.2)⟩
  have hstart : slowBox.Blank := ⟨rfl, rfl, rfl, nofun⟩
  have hexists : slowBox.document.Exists ⟨0⟩ := Document.exists_iff.mpr (by decide)
  have hearlier : Ensues allowed slowBox [] p :=
    .occurs .refl (.perform (.handle ⟨0⟩) ⟨rfl, hexists⟩ nofun)
  have hfirst : Ensues allowed p.settle [first] first.settle :=
    .settle (.occurs .refl (.clock 20 (by decide +kernel) (by decide +kernel)
      (timers_of_dueBefore (by decide +kernel))))
  have hsecond : Ensues allowed p.settle [first, second] second.settle :=
    .settle (.occurs hfirst (.clock 30 (by decide +kernel) (by decide +kernel)
      (timers_of_dueBefore (by decide +kernel))))
  let t : Task := { element := ⟨0⟩, status := .fresh true }
  obtain ⟨c, hc⟩ : ∃ c, (prepared { p with queue := [] } t true).claimOf? ⟨0⟩ = some c :=
    Option.isSome_iff_exists.mp (by decide +kernel)
  have hclaim : ClaimsIn p { p with queue := [] } 0 ⟨0⟩ c :=
    ⟨⟨[], [], rfl, rfl⟩, t, true, rfl, rfl, rfl, rfl, hc⟩
  have houtcomes : ((prepared { p with queue := [] } t true).claimOf? ⟨0⟩).any (fun c =>
      (c.outcome [first]).isNone && (c.outcome [first, second]).any fun o =>
        o.1 == 2 && o.2.isOk) = true := by decide +kernel
  rw [hc, Option.any_some, Bool.and_eq_true, Option.isNone_iff_eq_none, Option.any_eq_true]
    at houtcomes
  obtain ⟨hnone, ⟨k, x⟩, hsome, hok⟩ := houtcomes
  -- The element has no parent still, so there is no circle.
  have hskeleton : second.document.skeleton = slowBox.document.skeleton := by decide +kernel
  have hgrounded : second.document.Grounded := by
    intro a x hp
    rw [Document.parent_congr hskeleton] at hp
    obtain ⟨e, he, hparent⟩ := hp
    obtain rfl := List.mem_singleton.mp (List.mem_of_getElem? he)
    cases hparent
  rw [Bool.and_eq_true, beq_iff_eq] at hok
  obtain ⟨rfl, hok⟩ := hok
  rcases x with error | ⟨⟨⟩⟩
  · cases hok
  · obtain ⟨-, hinert, -⟩ := activation_joins allowed slowBox p _ first.settle []
      [first] 0 ⟨0⟩ c hstart hearlier hclaim hfirst habort fun k hk => by
        rw [hnone] at hk
        cases hk
    obtain ⟨⟨t, ht, -, hended⟩, -⟩ := activation_joins allowed slowBox p _ second.settle []
      [first, second] 0 ⟨0⟩ c hstart hearlier hclaim hsecond habort fun k hk => by
        rw [hsome] at hk
        cases hk
        exact hgrounded.loopsEnd
    rw [hsome] at hended
    obtain ⟨r, outcome, -, -, -, -, -, hended⟩ := hended
    have hopen : ∀ k, c.outcome [first] ≠ some (k, .ok ()) := fun k h => by
      rw [hnone] at h
      cases h
    exact ⟨c, hclaim, hnone, (hinert hopen).2 hrespects, hsome, t, outcome, ht, hended⟩

end Page

end Hydration
