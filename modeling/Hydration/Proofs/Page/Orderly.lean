import Hydration.Proofs.Page.Failure
import Hydration.Proofs.Page.Idle

/-!
# Pages in order

A page is **in order** if its tasks are, if no two of them own a subscription in common, if no timer
has been passed over, and if a task whose turn is not to come has nothing to do (`Orderly`).  A turn
leaves its task with nothing to do and the others as they are (`Orderly.runTask`), so on a page that
has settled all tasks are idle (`Orderly.settle`).

What else happens keeps a page in order as long as it queues the tasks that come to have something
to do (`Orderly.keep`).  Calls, changes and the clock do so, the clock as long as it passes over no
timer (`Orderly.recalls`, `Orderly.change`, `Orderly.setClock`).
-/

namespace Hydration.Page

open NamedWait

variable {p q r : Page} {i j : Nat} {t u : Task} {due : Nat → Prop}
  {turn : TaskStatus × Page}

/-- **A page is in order**, where `due` tells which tasks may have something to do. -/
structure Orderly (due : Nat → Prop) (p : Page) : Prop where
  numbered : p.surroundings.bus.Numbered
  queue : p.queue.Nodup
  inOrder : ∀ (i : Nat) (t : Task), p.tasks[i]? = some t → InOrder p.surroundings t.status
  apart : ∀ (i j : Nat) (t u : Task), p.tasks[i]? = some t → p.tasks[j]? = some u → i ≠ j →
    ∀ n ∈ ownedBy t.status, n ∉ ownedBy u.status
  timely : ∀ (i : Nat) (t : Task), p.tasks[i]? = some t → ∀ wait ∈ t.waits, ∀ time,
    wait.due? = some time → p.surroundings.now ≤ time
  idle : ∀ (i : Nat) (t : Task), p.tasks[i]? = some t → Idle p.surroundings t.status ∨ due i

/-! ## Turns -/

theorem queue_beginActivation {el : ElementRef} : (p.beginActivation el).2.queue = p.queue := by
  have hbeginning := beginActivation_cases p el
  generalize p.beginActivation el = turn at hbeginning ⊢
  cases hbeginning with
  | skipped _ => rfl
  | unregistered hf => exact hf.queue
  | unread hf _ => exact hf.queue
  | begun hf _ _ => exact (congrArg Settings.queue settings_await).trans hf.queue

/-- An activation that has waited waits for nothing new. -/
theorem waits_resumeActivation {component : ComponentHandle} {name : String}
    {e : Evaluation NamedWait} {download : Download}
    (h : InOrder p.surroundings (.awaiting component name e download)) {wait : Wait}
    (hwait : wait ∈ ({ t with status := (p.resumeActivation component name e download).1 } :
      Task).waits) : wait ∈ e.waits.map (·.wait) ++ download.waits := by
  have hrequirement : ∀ v ∈ (e.resume (Requirement.rules p.strategies component)
      p.surroundings).1.waits, v ∈ e.waits := by
    intro v hv
    have hlooked : (e.resume (Requirement.rules p.strategies component) p.surroundings).1 =
        e.looked (·.isReady p.surroundings) :=
      resume_eq_looked id (fun c => p.strategies.get? c.name) component
        (fun v hv => ⟨h.served v hv, rfl⟩) h.nodup
    rw [hlooked] at hv
    exact (Evaluation.looked_sublist _ e).mem hv
  have hdownload : ∀ q : Page, ∀ w ∈ (q.resumeDownload name download).1.waits,
      w ∈ download.waits := by
    intro q w hw
    cases download with
    | settled result => cases hw
    | arriving ticket due answer =>
      rw [resumeDownload] at hw
      split at hw
      · cases hw
      · exact hw
  rw [resumeActivation] at hwait
  dsimp only at hwait
  split at hwait
  · cases hwait
  · rw [proceed.eq_def] at hwait
    split at hwait
    · cases hwait
    · cases hwait
    · refine (List.mem_append.mp hwait).elim (fun hwait => List.mem_append_left _ ?_)
        fun hwait => List.mem_append_right _ (hdownload _ wait hwait)
      obtain ⟨v, hv, rfl⟩ := List.mem_map.mp hwait
      exact List.mem_map_of_mem (hrequirement v hv)

/-- **What the turn of a task comes to** that may do something. -/
structure Turnover (p : Page) (t : Task) (turn : TaskStatus × Page) : Prop where
  tasks : turn.2.tasks = p.tasks
  queue : turn.2.queue = p.queue
  rebooks : Rebooks (ownedBy t.status) p.surroundings turn
  waits : (∀ discovers, t.status ≠ .fresh discovers) →
    ∀ wait ∈ ({ t with status := turn.1 } : Task).waits, wait ∈ t.waits

theorem turnover_dropped (hs : p.surroundings.bus.Numbered) {e : Evaluation NamedWait}
    (hown : ownedBy t.status = numbers e.waits) :
    Turnover p t (.dropped, p.releaseRequirement e) where
  tasks := rfl
  queue := rfl
  rebooks := by
    refine ⟨?_, fun owned howned => ?_, inOrder_of_no_waits nofun, List.forall_mem_nil _, trivial⟩
    · exact Formula.subscribing_rules (α := Condition) id (fun _ => none) ⟨⟨0⟩, ""⟩
        |>.numbered_releaseAll e.waits hs
    · exact alike_release (α := Condition) id (fun _ => none) ⟨⟨0⟩, ""⟩
        fun n hn hmem => (howned n hmem).2 (hown ▸ hn)
  waits _ := List.forall_mem_nil _

theorem surroundings_prepared (p : Page) (t : Task) (discovers : Bool) :
    (p.prepared t discovers).surroundings = p.surroundings ∧
      (p.prepared t discovers).queue = p.queue := by
  rw [prepared]
  split
  · rw [discover]
    split
    · exact ⟨rfl, rfl⟩
    · exact ⟨rfl, rfl⟩
  · exact ⟨rfl, rfl⟩

/-- **A turn** has nothing to do, or it turns its task over. -/
theorem runTask_turnover (hs : p.surroundings.bus.Numbered)
    (h : ∀ t, p.tasks[i]? = some t → InOrder p.surroundings t.status) :
    (p.runTask i = p ∧ ∀ t, p.tasks[i]? = some t → Idle p.surroundings t.status) ∨
      ∃ t turn, p.tasks[i]? = some t ∧ Turnover p t turn ∧
        p.runTask i = turn.2.setStatus i turn.1 := by
  rw [runTask]
  cases ht : p.tasks[i]? with
  | none => exact .inl ⟨rfl, fun t ht => by cases ht⟩
  | some t =>
    dsimp only
    cases hstatus : t.status with
    | ended result => exact .inl ⟨rfl, fun t' ht' => by cases ht'; rw [hstatus]; trivial⟩
    | dropped => exact .inl ⟨rfl, fun t' ht' => by cases ht'; rw [hstatus]; trivial⟩
    | fresh discovers =>
      dsimp only
      by_cases hcancelled : t.cancelled = true
      · rw [if_pos hcancelled]
        exact .inr ⟨t, _, rfl, turnover_dropped (e := .succeeded) hs (by rw [hstatus]; rfl), rfl⟩
      · rw [if_neg hcancelled]
        obtain ⟨hsurroundings, hqueue⟩ := surroundings_prepared p t discovers
        refine .inr ⟨t, (p.prepared t discovers).beginActivation t.element, rfl,
          ⟨?_, ?_, ?_, fun hnot => absurd hstatus (hnot discovers)⟩, rfl⟩
        · exact tasks_beginActivation.trans (tasks_prepared discovers)
        · exact queue_beginActivation.trans hqueue
        · rw [hstatus, ← hsurroundings]
          exact rebooks_beginActivation (hsurroundings ▸ hs) t.element
    | awaiting component name e download =>
      dsimp only
      by_cases hcancelled : t.cancelled = true
      · rw [if_pos hcancelled]
        exact .inr ⟨t, _, rfl, turnover_dropped hs (by rw [hstatus]; rfl), rfl⟩
      · rw [if_neg hcancelled]
        refine .inr ⟨t, _, rfl, ⟨resumeActivation_progress.tasks,
          congrArg Settings.queue settings_resumeActivation, ?_, fun _ wait hwait => ?_⟩, rfl⟩
        · have hinOrder := h t ht
          rw [hstatus] at hinOrder ⊢
          exact rebooks_resumeActivation hs hinOrder
        · rw [Task.waits, hstatus]
          exact waits_resumeActivation (hstatus ▸ h t ht) hwait

theorem Rebooks.now {before : List Nat} {s : Surroundings} (h : Rebooks before s turn) :
    turn.2.surroundings.now = s.now :=
  (h.others [] (List.forall_mem_nil _)).now

/-- A task is idle if it is under way and nothing that it waits for has happened. -/
theorem idle_iff {s : Surroundings} : Idle s t.status ↔
    (∀ discovers, t.status ≠ .fresh discovers) ∧ ∀ wait ∈ t.waits, wait.isReady s = false := by
  rw [Task.waits]
  cases t.status with
  | fresh discovers => exact iff_of_false id fun h => h.1 discovers rfl
  | awaiting component name e download =>
    rw [List.forall_mem_append, List.forall_mem_map]
    exact (and_iff_right fun _ => TaskStatus.noConfusion).symm
  | ended result =>
    exact iff_of_true trivial ⟨fun _ => TaskStatus.noConfusion, List.forall_mem_nil _⟩
  | dropped =>
    exact iff_of_true trivial ⟨fun _ => TaskStatus.noConfusion, List.forall_mem_nil _⟩

/-- What an idle task waits for on the clock is still to come. -/
theorem Idle.lt_due {s : Surroundings} (h : Idle s t.status) {wait : Wait} (hwait : wait ∈ t.waits)
    {time : Nat} (htime : wait.due? = some time) : s.now < time := by
  have hready := (idle_iff.mp h).2 wait hwait
  cases wait with
  | timer ticket due outcome =>
    obtain rfl := Option.some.inj htime
    rw [Wait.isReady, decide_eq_false_iff_not] at hready
    exact Nat.not_le.mp hready
  | _ => cases htime

/-- A turn leaves what other tasks own alike. -/
theorem Turnover.alike (h : Turnover p t turn) (hp : Orderly due p) (ht : p.tasks[i]? = some t)
    (hj : j ≠ i) (hu : p.tasks[j]? = some u) :
    p.surroundings.Alike (ownedBy u.status) turn.2.surroundings :=
  h.rebooks.others _ fun n hn =>
    ⟨(hp.inOrder j u hu).lt_next hp.numbered hn, hp.apart j i u t hu ht hj n hn⟩

/-- What a task owns after its turn is not owned by others. -/
theorem Turnover.apart (h : Turnover p t turn) (hp : Orderly due p) (ht : p.tasks[i]? = some t)
    (hj : j ≠ i) (hu : p.tasks[j]? = some u) : ∀ n ∈ ownedBy turn.1, n ∉ ownedBy u.status := by
  intro n hn hmem
  rcases h.rebooks.own n hn with hbefore | hnew
  · exact hp.apart j i u t hu ht hj n hmem hbefore
  · exact absurd ((hp.inOrder j u hu).lt_next hp.numbered hmem) (Nat.not_lt.mpr hnew)

/-- **A task that has its turn** has nothing to do afterwards. -/
theorem Turnover.orderly (h : Turnover p t turn) (hp : Orderly (fun j => j = i ∨ due j) p)
    (ht : p.tasks[i]? = some t) : Orderly due (turn.2.setStatus i turn.1) where
  numbered := h.rebooks.numbered
  queue := h.queue ▸ hp.queue
  inOrder j u hu := by
    rcases getElem?_turned ht h.tasks hu with ⟨rfl, rfl⟩ | ⟨hj, hu⟩
    · exact h.rebooks.inOrder
    · exact (hp.inOrder j u hu).alike (h.alike hp ht hj hu)
  apart j k u w hu hw hjk := by
    rcases getElem?_turned ht h.tasks hu with ⟨rfl, rfl⟩ | ⟨hj, hu⟩
    · rcases getElem?_turned ht h.tasks hw with ⟨rfl, -⟩ | ⟨hk, hw⟩
      · exact absurd rfl hjk
      · exact h.apart hp ht hk hw
    · rcases getElem?_turned ht h.tasks hw with ⟨-, rfl⟩ | ⟨-, hw⟩
      · exact fun n hn hmem => h.apart hp ht hj hu n hmem hn
      · exact hp.apart j k u w hu hw hjk
  timely j u hu wait hwait time htime := by
    rcases getElem?_turned ht h.tasks hu with ⟨rfl, rfl⟩ | ⟨hj, hu⟩
    · exact Nat.le_of_lt (Idle.lt_due (t := { t with status := turn.1 }) h.rebooks.idle hwait htime)
    · rw [show (turn.2.setStatus i turn.1).surroundings.now = _ from h.rebooks.now]
      exact hp.timely j u hu wait hwait time htime
  idle j u hu := by
    rcases getElem?_turned ht h.tasks hu with ⟨rfl, rfl⟩ | ⟨hj, hu⟩
    · exact .inl h.rebooks.idle
    · rcases hp.idle j u hu with hidle | rfl | hdue
      · exact .inl (hidle.alike (h.alike hp ht hj hu))
      · exact absurd rfl hj
      · exact .inr hdue

/-- What is due may be counted differently. -/
theorem Orderly.redue {due' : Nat → Prop} (h : Orderly due p)
    (hdue : ∀ (i : Nat) (t : Task), p.tasks[i]? = some t → due i →
      Idle p.surroundings t.status ∨ due' i) : Orderly due' p where
  numbered := h.numbered
  queue := h.queue
  inOrder := h.inOrder
  apart := h.apart
  timely := h.timely
  idle i t ht := (h.idle i t ht).elim .inl (hdue i t ht)

/-- **A turn** keeps a page in order. -/
theorem Orderly.runTask (h : Orderly (fun j => j = i ∨ due j) p) : Orderly due (p.runTask i) := by
  rcases runTask_turnover h.numbered (h.inOrder i) with
    ⟨hsame, hidle⟩ | ⟨t, turn, ht, hturn, hrun⟩
  · rw [hsame]
    refine h.redue fun j u hu hj => ?_
    rcases hj with rfl | hj
    · exact .inl (hidle u hu)
    · exact .inr hj
  · rw [hrun]
    exact hturn.orderly h ht

theorem Orderly.next (h : Orderly due p) (i : Nat) : Orderly due (p.runTask i) :=
  Orderly.runTask (h.redue fun _ _ _ hk => .inr (.inr hk))

/-- A turn leaves another task as it is, and what it owns alike. -/
theorem Orderly.other (h : Orderly due p) (hj : j ≠ i) (hu : p.tasks[j]? = some u) :
    (p.runTask i).tasks[j]? = some u ∧
      p.surroundings.Alike (ownedBy u.status) (p.runTask i).surroundings := by
  rcases runTask_turnover h.numbered (h.inOrder i) with ⟨hsame, -⟩ | ⟨t, turn, ht, hturn, hrun⟩
  · rw [hsame]
    exact ⟨hu, .refl _ _⟩
  · rw [hrun]
    refine ⟨?_, hturn.alike h ht hj hu⟩
    rw [getElem?_setStatus, if_neg (Ne.symm hj), hturn.tasks]
    exact hu

theorem Orderly.queue_runTask (h : Orderly due p) : (p.runTask i).queue = p.queue := by
  rcases runTask_turnover h.numbered (h.inOrder i) with ⟨hsame, -⟩ | ⟨t, turn, ht, hturn, hrun⟩
  · rw [hsame]
  · rw [hrun]
    exact hturn.queue

/-- **Turns** of tasks that are due. -/
theorem Orderly.turns {tasks : List Nat} (h : Orderly (fun j => j ∈ tasks ∨ due j) p) :
    Orderly due (tasks.foldl Page.runTask p) ∧ (tasks.foldl Page.runTask p).queue = p.queue := by
  induction tasks generalizing p with
  | nil => exact ⟨h.redue fun j u _ hj => hj.elim nofun .inr, rfl⟩
  | cons i tasks ih =>
    have hturn : Orderly (fun j => j ∈ tasks ∨ due j) (p.runTask i) :=
      Orderly.runTask (h.redue fun j u _ hj => .inr (by rwa [← or_assoc, ← List.mem_cons]))
    exact ⟨(ih hturn).1, (ih hturn).2.trans h.queue_runTask⟩

/-- Turns of other tasks leave a task as it is. -/
theorem Orderly.others {tasks : List Nat} (h : Orderly due p) (hj : j ∉ tasks)
    (hu : p.tasks[j]? = some u) : (tasks.foldl Page.runTask p).tasks[j]? = some u ∧
      p.surroundings.Alike (ownedBy u.status) (tasks.foldl Page.runTask p).surroundings := by
  induction tasks generalizing p with
  | nil => exact ⟨hu, .refl _ _⟩
  | cons i tasks ih =>
    rw [List.mem_cons, not_or] at hj
    obtain ⟨hkept, halike⟩ := h.other hj.1 hu
    obtain ⟨hkept', halike'⟩ := ih (h.next i) hj.2 hkept
    exact ⟨hkept', halike.trans halike'⟩

/-- The page whose tasks are about to have their turns. -/
theorem Orderly.unqueued (h : Orderly due p) : Orderly due { p with queue := [] } where
  numbered := h.numbered
  queue := List.nodup_nil
  inOrder := h.inOrder
  apart := h.apart
  timely := h.timely
  idle := h.idle

/-- **On a page that has settled** every task is idle, and the queue is empty. -/
theorem Orderly.settle (h : Orderly (· ∈ p.queue) p) :
    Orderly (fun _ => False) p.settle ∧ p.settle.queue = [] :=
  Orderly.turns (p := { p with queue := [] }) (h.unqueued.redue fun _ _ _ hi => .inr (.inl hi))

/-- **A page that settles** has its tasks wait for nothing new, if none is fresh. -/
theorem Orderly.waits_turns {tasks : List Nat} (h : Orderly due p)
    (hnone : ∀ (i : Nat) (t : Task), p.tasks[i]? = some t →
      ∀ discovers, t.status ≠ .fresh discovers)
    (hu : (tasks.foldl Page.runTask p).tasks[j]? = some u) :
    ∃ t, p.tasks[j]? = some t ∧ ∀ wait ∈ u.waits, wait ∈ t.waits := by
  induction tasks generalizing p with
  | nil => exact ⟨u, hu, fun _ => id⟩
  | cons i tasks ih =>
    have hnext : Orderly due (p.runTask i) := h.next i
    -- What the turn makes of the tasks.
    have hback : ∀ (k : Nat) (w : Task), (p.runTask i).tasks[k]? = some w →
        ∃ t, p.tasks[k]? = some t ∧ (∀ discovers, w.status ≠ .fresh discovers) ∧
          ∀ wait ∈ w.waits, wait ∈ t.waits := by
      rcases runTask_turnover h.numbered (h.inOrder i) with
        ⟨hsame, -⟩ | ⟨t, turn, ht, hturn, hrun⟩
      · rw [hsame]
        exact fun k w hw => ⟨w, hw, hnone k w hw, fun _ => id⟩
      · rw [hrun]
        intro k w hw
        rcases getElem?_turned ht hturn.tasks hw with ⟨rfl, rfl⟩ | ⟨-, hw⟩
        · exact ⟨t, ht, (idle_iff (t := { t with status := turn.1 }).mp hturn.rebooks.idle).1,
            hturn.waits (hnone k t ht)⟩
        · exact ⟨w, hw, hnone k w hw, fun _ => id⟩
    obtain ⟨w, hw, hwaits⟩ := ih hnext (fun k w hw => (hback k w hw).choose_spec.2.1) hu
    obtain ⟨t, ht, -, hwaits'⟩ := hback j w hw
    exact ⟨t, ht, fun wait hwait => hwaits' wait (hwaits wait hwait)⟩

theorem Orderly.waits_settle (h : Orderly (· ∈ p.queue) p)
    (hnone : ∀ (i : Nat) (t : Task), p.tasks[i]? = some t →
      ∀ discovers, t.status ≠ .fresh discovers)
    (hu : p.settle.tasks[j]? = some u) :
    ∃ t, p.tasks[j]? = some t ∧ ∀ wait ∈ u.waits, wait ∈ t.waits :=
  h.unqueued.waits_turns hnone hu

theorem Orderly.now_turns {tasks : List Nat} (h : Orderly due p) :
    (tasks.foldl Page.runTask p).surroundings.now = p.surroundings.now := by
  induction tasks generalizing p with
  | nil => rfl
  | cons i tasks ih =>
    refine (ih (h.next i)).trans ?_
    rcases runTask_turnover h.numbered (h.inOrder i) with ⟨hsame, -⟩ | ⟨t, turn, -, hturn, hrun⟩
    · rw [hsame]
    · rw [hrun]
      exact hturn.rebooks.now

/-- Settling takes no time. -/
theorem Orderly.now_settle (h : Orderly due p) :
    p.settle.surroundings.now = p.surroundings.now :=
  h.unqueued.now_turns

/-! ## What else happens -/

/-- **Something else happens** than a turn: tasks may be started, and what comes to have something
to do is queued. -/
theorem Orderly.keep (h : Orderly (· ∈ p.queue) p) (hnumbered : q.surroundings.bus.Numbered)
    (hnodup : q.queue.Nodup) (hqueue : ∀ i ∈ p.queue, i ∈ q.queue)
    (htasks : ∀ (i : Nat) (u : Task), q.tasks[i]? = some u →
      (∃ t, p.tasks[i]? = some t ∧ u.status = t.status) ∨
        (∃ discovers, u.status = .fresh discovers) ∧ i ∈ q.queue)
    (hserved : ∀ wait : Wait, wait.isServed p.surroundings = true →
      wait.isServed q.surroundings = true)
    (htimely : ∀ (i : Nat) (t : Task), p.tasks[i]? = some t → ∀ wait ∈ t.waits, ∀ time,
      wait.due? = some time → q.surroundings.now ≤ time)
    (hidle : ∀ (i : Nat) (t : Task), p.tasks[i]? = some t → Idle p.surroundings t.status →
      Idle q.surroundings t.status ∨ i ∈ q.queue) : Orderly (· ∈ q.queue) q where
  numbered := hnumbered
  queue := hnodup
  inOrder i u hu := by
    rcases htasks i u hu with ⟨t, ht, hstatus⟩ | ⟨⟨discovers, hfresh⟩, -⟩
    · have hinOrder := h.inOrder i t ht
      rw [hstatus]
      exact ⟨fun v hv => hserved v.wait (hinOrder.served v hv), hinOrder.nodup, hinOrder.undecided⟩
    · rw [hfresh]
      exact inOrder_of_no_waits nofun
  apart i j t u ht hu hij := by
    rcases htasks i t ht with ⟨t', ht', hstatus⟩ | ⟨⟨discovers, hfresh⟩, -⟩
    · rcases htasks j u hu with ⟨u', hu', hstatus'⟩ | ⟨⟨discovers, hfresh⟩, -⟩
      · rw [hstatus, hstatus']
        exact h.apart i j t' u' ht' hu' hij
      · rw [hfresh]
        exact fun _ _ => List.not_mem_nil
    · rw [hfresh]
      exact List.forall_mem_nil _
  timely i u hu wait hwait time htime := by
    rcases htasks i u hu with ⟨t, ht, hstatus⟩ | ⟨⟨discovers, hfresh⟩, -⟩
    · refine htimely i t ht wait ?_ time htime
      rwa [Task.waits, ← hstatus]
    · rw [Task.waits, hfresh] at hwait
      cases hwait
  idle i u hu := by
    rcases htasks i u hu with ⟨t, ht, hstatus⟩ | ⟨-, hi⟩
    · rw [hstatus]
      exact (h.idle i t ht).elim (hidle i t ht) fun hi => .inr (hqueue i hi)
    · exact .inr hi

/-- What is done neither to the tasks nor to the surroundings does not matter. -/
theorem Orderly.congr (h : Orderly (· ∈ p.queue) p) (htasks : q.tasks = p.tasks)
    (hqueue : q.queue = p.queue) (hsurroundings : q.surroundings = p.surroundings) :
    Orderly (· ∈ q.queue) q := by
  refine h.keep (hsurroundings ▸ h.numbered) (hqueue ▸ h.queue) (fun i hi => hqueue ▸ hi)
    (fun i u hu => .inl ⟨u, htasks ▸ hu, rfl⟩) (fun wait => hsurroundings ▸ id)
    (hsurroundings ▸ h.timely) fun i t _ hidle => .inl (hsurroundings ▸ hidle)

theorem nodup_enqueue (h : p.queue.Nodup) (task : Nat) : (p.enqueue task).queue.Nodup := by
  rw [enqueue]
  split
  · exact h
  · next hnot => exact List.Nodup.append h (List.nodup_singleton _) (by simpa using hnot)

theorem nodup_wake (h : p.queue.Nodup) (key : Wait → Option Nat) : (p.wake key).queue.Nodup := by
  obtain ⟨keyed, hwake, -⟩ := wake_eq (p := p) key
  rw [hwake]
  clear hwake
  induction keyed generalizing p with
  | nil => exact h
  | cons k keyed ih => exact ih (nodup_enqueue h k.2)

/-- **Calls** are made and given up. -/
theorem Orderly.recalls {started : List Task} (h : Orderly (· ∈ p.queue) p)
    (hq : Recalls started p q) (hstarted : ∀ t ∈ started, ∃ discovers, t.status = .fresh discovers)
    (hnew : ∀ (i : Nat) (u : Task), q.tasks[i]? = some u → p.tasks[i]? = none → i ∈ q.queue)
    (hnodup : q.queue.Nodup) (hqueue : ∀ i ∈ p.queue, i ∈ q.queue)
    (hsurroundings : q.surroundings = p.surroundings) : Orderly (· ∈ q.queue) q := by
  refine h.keep (hsurroundings ▸ h.numbered) hnodup hqueue (fun i u hu => ?_)
    (fun wait => hsurroundings ▸ id) (hsurroundings ▸ h.timely)
    fun i t _ hidle => .inl (hsurroundings ▸ hidle)
  cases ht : p.tasks[i]? with
  | some t =>
    obtain ⟨u', hu', -, hstatus⟩ := hq.old i t ht
    obtain rfl := Option.some.inj (hu.symm.trans hu')
    exact .inl ⟨t, rfl, hstatus⟩
  | none =>
    refine .inr ⟨?_, hnew i u hu ht⟩
    rcases hq.new i u hu with ⟨t, ht', -⟩ | hmem
    · rw [ht] at ht'
      cases ht'
    · exact hstarted u hmem

theorem Orderly.startTask (h : Orderly (· ∈ p.queue) p) (el : ElementRef) (discovers : Bool) :
    Orderly (· ∈ (p.startTask el discovers).2.queue) (p.startTask el discovers).2 := by
  have hqueue : ∀ i, i ∈ (p.startTask el discovers).2.queue ↔ i ∈ p.queue ∨ i = p.tasks.length :=
    fun i => mem_queue_enqueue
  refine h.recalls (recalls_startTask p el discovers)
    (fun t ht => ⟨discovers, by rw [List.mem_singleton.mp ht]⟩) (fun i u hu hnone => ?_)
    ?_ (fun i hi => (hqueue i).mpr (.inl hi)) (surroundings_enqueue _)
  swap
  · exact nodup_enqueue (by exact h.queue) _
  rw [tasks_startTask] at hu
  have hlt := (List.getElem?_eq_some_iff.mp hu).1
  rw [List.length_append, List.length_singleton] at hlt
  rw [List.getElem?_eq_none_iff] at hnone
  exact (hqueue i).mpr (.inr (by omega))

theorem Orderly.abort (h : Orderly (· ∈ p.queue) p) (task : Nat) :
    Orderly (· ∈ (p.abort task).2.queue) (p.abort task).2 := by
  have hrest : (p.abort task).2.surroundings = p.surroundings ∧ (p.abort task).2.queue.Nodup ∧
      ∀ i ∈ p.queue, i ∈ (p.abort task).2.queue := by
    rw [Page.abort]
    split
    · exact ⟨rfl, h.queue, fun _ => id⟩
    · split
      · exact ⟨rfl, h.queue, fun _ => id⟩
      · exact ⟨surroundings_enqueue _, nodup_enqueue (by exact h.queue) _,
          fun i hi => mem_queue_enqueue.mpr (.inl hi)⟩
  refine h.recalls (recalls_abort p task) (List.forall_mem_nil _) (fun i u hu hnone => ?_)
    hrest.2.1 hrest.2.2 hrest.1
  rcases (recalls_abort p task).new i u hu with ⟨t, ht, -⟩ | hmem
  · rw [hnone] at ht
    cases ht
  · cases hmem

/-- **A change** queues the tasks for which it matters. -/
theorem Orderly.change (h : Orderly (· ∈ p.queue) p) (c : Change) :
    Orderly (· ∈ (p.change c).queue) (p.change c) := by
  obtain ⟨hsame, hsurroundings, hqueue⟩ := change_cases (p := p) c
  have hnow : (p.surroundings.after c).now = p.surroundings.now := by cases c <;> rfl
  refine h.keep ?_ (nodup_wake (by exact h.queue) _)
    (fun i hi => (hqueue i).mpr (.inl hi))
    (fun i u hu => .inl ⟨u, tasks_congr hsame.records ▸ hu, rfl⟩)
    (fun wait hserved => ?_) (fun i t ht wait hwait time htime => ?_) fun i t ht hidle => ?_
  · rw [hsurroundings]
    cases c with
    | event e => exact h.numbered.publish e
    | _ => exact h.numbered
  · rw [hsurroundings]
    cases c with
    | event e =>
      cases wait with
      | event number awaited =>
        rw [Wait.isServed, Bus.serves] at hserved ⊢
        show (Option.isSome ((p.surroundings.bus.publish e).find? number)) = true
        rw [Bus.find?_publish, Option.isSome_map]
        exact hserved
      | _ => rfl
    | _ => exact hserved
  · rw [hsurroundings, hnow]
    exact h.timely i t ht wait hwait time htime
  · rw [hsurroundings]
    obtain ⟨hfresh, hready⟩ := idle_iff.mp hidle
    by_cases hafter : ∃ wait ∈ t.waits, wait.isReady (p.surroundings.after c) = true
    · obtain ⟨wait, hwait, hafter⟩ := hafter
      exact .inr ((hqueue i).mpr (.inr ⟨t, ht, wait, hwait,
        Change.isSome_key (hready wait hwait) hafter⟩))
    · refine .inl (idle_iff.mpr ⟨hfresh, fun wait hwait => ?_⟩)
      exact (Bool.not_eq_true _).mp fun hwait' => hafter ⟨wait, hwait, hwait'⟩

/-- **The clock** may move as long as it passes over no timer. -/
theorem Orderly.setClock (h : Orderly (· ∈ p.queue) p) {time : Nat}
    (htimers : ∀ t ∈ p.tasks, ∀ wait ∈ t.waits, ∀ due, wait.due? = some due → time ≤ due) :
    Orderly (· ∈ (p.setClock time).queue) (p.setClock time) := by
  obtain ⟨hsame, hsurroundings, hqueue⟩ := setClock_cases (p := p) time
  have htimely : ∀ (i : Nat) (t : Task), p.tasks[i]? = some t → ∀ wait ∈ t.waits, ∀ due,
      wait.due? = some due → time ≤ due := fun i t ht => htimers t (List.mem_of_getElem? ht)
  refine h.keep ?_ ?_ (fun i hi => (hqueue i).mpr (.inl hi))
    (fun i u hu => .inl ⟨u, tasks_congr hsame.records ▸ hu, rfl⟩) (fun wait hserved => ?_)
    (by rw [hsurroundings]; exact htimely) fun i t ht hidle => ?_
  · rw [hsurroundings]
    exact h.numbered
  · rw [setClock_eq]
    exact nodup_wake (by exact h.queue) _
  · rw [hsurroundings]
    exact hserved
  · rw [hsurroundings]
    obtain ⟨hfresh, hready⟩ := idle_iff.mp hidle
    by_cases hafter : ∃ wait ∈ t.waits, wait.isReady { p.surroundings with now := time } = true
    · obtain ⟨wait, hwait, hafter⟩ := hafter
      -- A wait that only the clock makes ready is a timer that is due at this very time.
      obtain ⟨ticket, due, outcome, rfl, hdue⟩ :=
        Wait.exists_timer_of_isReady (hready wait hwait) hafter
      have hlater := htimely i t ht _ hwait due rfl
      refine .inr ((hqueue i).mpr (.inr ⟨t, ht, _, hwait, ?_⟩))
      rw [dueKey, if_pos (Nat.le_antisymm hdue hlater)]
      rfl
    · refine .inl (idle_iff.mpr ⟨hfresh, fun wait hwait => ?_⟩)
      exact (Bool.not_eq_true _).mp fun hwait' => hafter ⟨wait, hwait, hwait'⟩

end Hydration.Page
