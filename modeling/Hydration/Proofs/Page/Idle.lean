import Hydration.Proofs.Page.Clock
import Hydration.Proofs.Page.Progress
import Hydration.Proofs.Strategy.Looking

/-!
# Idle tasks

A task is idle if none of its waits is ready (`Idle`).  A turn that goes on waiting rebooks what it
waits for: it leaves the task idle and waits with subscriptions that the task has owned before or
that are new (`Rebooks`, `rebooks_resumeActivation`, `rebooks_await`).

The tasks of a page share a bus.  Each owns the subscriptions that it waits with (`ownedBy`), and a
task that rebooks leaves those of the others alike.
-/

namespace Hydration

open NamedWait

variable {s s' : Surroundings} {status : TaskStatus} {before : List Nat}

/-- **A task with this status has nothing to do.** -/
def Idle (s : Surroundings) : TaskStatus → Prop
  | .fresh _ => False
  | .awaiting _ _ requirement download =>
    (∀ v ∈ requirement.waits, v.wait.isReady s = false) ∧
      ∀ wait ∈ download.waits, wait.isReady s = false
  | .ended _ => True
  | .dropped => True

/-- The subscriptions that a task with this status owns. -/
def ownedBy (status : TaskStatus) : List Nat :=
  numbers (Page.waitsOf status)

/-- **A task is in order**: what it waits with is served, nothing twice, and no node of its
requirement has overlooked what its operands have come to. -/
structure InOrder (s : Surroundings) (status : TaskStatus) : Prop where
  served : ∀ v ∈ Page.waitsOf status, v.wait.isServed s = true
  nodup : (ownedBy status).Nodup
  undecided : ∀ component name requirement download,
    status = .awaiting component name requirement download → requirement.Undecided

theorem owned_of_wait {v : NamedWait} {n : Nat} (hv : v ∈ Page.waitsOf status)
    (hn : v.wait.subscription? = some n) : n ∈ ownedBy status :=
  List.mem_filterMap.mpr ⟨v, hv, hn⟩

/-- What is owned has been given. -/
theorem InOrder.lt_next (h : InOrder s status) (hs : s.bus.Numbered) {n : Nat}
    (hn : n ∈ ownedBy status) : n < s.bus.next := by
  obtain ⟨v, hv, hown⟩ := List.mem_filterMap.mp hn
  have hserved := h.served v hv
  obtain ⟨name, wait⟩ := v
  cases wait with
  | event number awaited =>
    cases hown
    obtain ⟨sub, hsub⟩ := Option.isSome_iff_exists.mp hserved
    obtain ⟨hmem, rfl, -⟩ := Bus.mem_of_find? hsub
    exact hs sub hmem
  | _ => cases hown

/-- A status that waits for nothing is in order. -/
theorem inOrder_of_no_waits (h : ∀ component name requirement download,
    status ≠ .awaiting component name requirement download) : InOrder s status := by
  cases status with
  | awaiting component name requirement download => exact absurd rfl (h _ _ _ _)
  | _ => exact ⟨nofun, List.nodup_nil, nofun⟩

theorem InOrder.alike (h : InOrder s status) (hs : s.Alike (ownedBy status) s') :
    InOrder s' status where
  served v hv := by
    rw [hs.isServed fun n hn => owned_of_wait hv hn]
    exact h.served v hv
  nodup := h.nodup
  undecided := h.undecided

theorem Idle.alike (h : Idle s status) (hs : s.Alike (ownedBy status) s') : Idle s' status := by
  cases status with
  | awaiting component name requirement download =>
    refine ⟨fun v hv => ?_, fun wait hwait => ?_⟩
    · have hown : ∀ n, v.wait.subscription? = some n →
          n ∈ ownedBy (.awaiting component name requirement download) :=
        fun n hn => owned_of_wait hv hn
      rw [hs.isReady hown]
      exact h.1 v hv
    · have hown : ∀ n, wait.subscription? = some n →
          n ∈ ownedBy (.awaiting component name requirement download) := by
        intro n hn
        cases download with
        | settled result => cases hwait
        | arriving ticket due answer =>
          cases due with
          | none =>
            obtain rfl := List.mem_singleton.mp hwait
            cases hn
          | some due =>
            obtain rfl := List.mem_singleton.mp hwait
            cases hn
      rw [hs.isReady hown]
      exact h.2 wait hwait
  | _ => exact h

/-! ## Turns -/

namespace Page

variable {p q : Page} {t : Task} {i : Nat} {component : ComponentHandle} {name : String}
  {e : Evaluation NamedWait} {download download' : Download} {turn : TaskStatus × Page}

/-- **What a turn comes to** that has begun in the surroundings `s`, where `before` is what the task
has owned: what it owns is its own still or new, all else is as before, and there is nothing left to
do. -/
structure Rebooks (before : List Nat) (s : Surroundings) (turn : TaskStatus × Page) : Prop where
  numbered : turn.2.surroundings.bus.Numbered
  others : ∀ owned : List Nat, (∀ n ∈ owned, n < s.bus.next ∧ n ∉ before) →
    s.Alike owned turn.2.surroundings
  inOrder : InOrder turn.2.surroundings turn.1
  own : ∀ n ∈ ownedBy turn.1, n ∈ before ∨ s.bus.next ≤ n
  idle : Idle turn.2.surroundings turn.1

/-- A turn that ends. -/
theorem rebooks_ended {result : Except Failure Outcome} (hnumbered : p.surroundings.bus.Numbered)
    (hothers : ∀ owned : List Nat, (∀ n ∈ owned, n < s.bus.next ∧ n ∉ before) →
      s.Alike owned p.surroundings) : Rebooks before s (.ended result, p) :=
  ⟨hnumbered, hothers, inOrder_of_no_waits nofun, List.forall_mem_nil _, trivial⟩

theorem Rebooks.ended (h : Rebooks before s (status, p)) (result : Except Failure Outcome) :
    Rebooks before s (.ended result, p) :=
  rebooks_ended h.numbered h.others

/-- The download has gone on beside the requirement. -/
theorem Rebooks.beside (h : Rebooks before s (.awaiting component name e download, p))
    (ticket : Nat) (hq : q.surroundings = { p.surroundings with nextTicket := ticket })
    (hidle : ∀ wait ∈ download'.waits, wait.isReady q.surroundings = false) :
    Rebooks before s (.awaiting component name e download', q) := by
  have halike : ∀ owned, p.surroundings.Alike owned q.surroundings := fun owned => by
    rw [hq]
    exact ⟨rfl, rfl, fun _ _ => rfl⟩
  have hready := h.idle.alike (halike _)
  refine ⟨?_, fun owned howned => (h.others owned howned).trans (halike owned), ?_, h.own,
    hready.1, hidle⟩
  · show q.surroundings.bus.Numbered
    rw [hq]
    exact h.numbered
  · have hinOrder := h.inOrder.alike (halike _)
    refine ⟨hinOrder.served, hinOrder.nodup, fun _ _ _ _ hstatus => ?_⟩
    cases hstatus
    exact hinOrder.undecided _ _ _ _ rfl

theorem Rebooks.proceed (h : Rebooks before s (.awaiting component name e download, p)) :
    Rebooks before s (p.proceed component name e download) := by
  rw [proceed.eq_def]
  split
  · refine rebooks_ended ?_ fun owned howned => (h.others owned howned).trans ?_
    · exact Formula.subscribing_rules (α := Condition) id (fun _ => none) component
        |>.numbered_releaseAll e.waits h.numbered
    · -- What is given up is not owned by others.
      refine alike_release (α := Condition) id (fun _ => none) component fun n hn hown => ?_
      rcases h.own n hn with hbefore | hnew
      · exact (howned n hown).2 hbefore
      · exact absurd (howned n hown).1 (Nat.not_lt.mpr hnew)
  · have hsame : (p.handBack component.element).2.surroundings = p.surroundings :=
      surroundings_handBack
    have hended : Rebooks before s (.ended (.ok (p.handBack component.element).1),
        (p.handBack component.element).2) := by
      refine rebooks_ended ?_ ?_
      · rw [hsame]
        exact h.numbered
      · rw [hsame]
        exact h.others
    exact hended
  · exact h

/-- A requirement that has been started. -/
theorem rebooks_start (table : StrategyTable) (tree : Requirement) (hs : s.bus.Numbered)
    {result : Except ModuleError Bool}
    (hq : q.surroundings = (tree.start (Requirement.rules table component) s).2) :
    Rebooks [] s (.awaiting component name (tree.start (Requirement.rules table component) s).1
      (.settled result), q) := by
  have hbegins := (Formula.subscribing_rules id (fun c => table.get? c.name) component).begins_start
    tree hs
  have hlistening := fun v hv => listening_start id (fun c => table.get? c.name) component
    (t := tree) (v := v) hs hv
  refine ⟨hq ▸ hbegins.numbered, fun owned howned => ?_, ⟨fun v hv => ?_, ?_, ?_⟩, fun n hn => ?_,
    fun v hv => ?_, nofun⟩
  · show s.Alike owned q.surroundings
    rw [hq]
    exact alike_start id (fun c => table.get? c.name) component tree fun n hn => (howned n hn).1
  · show v.wait.isServed q.surroundings = true
    rw [hq]
    exact (hlistening v hv).1
  · exact hbegins.ascending.imp Nat.ne_of_lt
  · rintro _ _ _ _ hstatus
    cases hstatus
    exact undecided_start tree s
  · exact .inr (hbegins.new n hn)
  · show v.wait.isReady q.surroundings = false
    rw [hq]
    exact (hlistening v hv).2

/-- A requirement that has been resumed. -/
theorem rebooks_resume (table : StrategyTable) (hs : s.bus.Numbered)
    (h : InOrder s (.awaiting component name e download)) {result : Except ModuleError Bool}
    (hq : q.surroundings = (e.resume (Requirement.rules table component) s).2) :
    Rebooks (numbers e.waits) s (.awaiting component name
      (e.resume (Requirement.rules table component) s).1 (.settled result), q) := by
  have hends := (Formula.subscribing_rules id (fun c => table.get? c.name) component).ends_resume
    e s h.nodup
  refine ⟨?_, fun owned howned => ?_, ⟨fun v hv => ?_, hends.sublist.nodup h.nodup, ?_⟩,
    fun n hn => .inl (hends.sublist.mem hn), fun v hv => ?_, nofun⟩
  · show q.surroundings.bus.Numbered
    rw [hq]
    exact resume_keeps (Q := fun s' : Surroundings => s'.bus.Numbered)
      (fun _ _ => Wait.numbered_resume) (fun _ _ => Wait.numbered_release) e hs
  · show s.Alike owned q.surroundings
    rw [hq]
    exact alike_resume id (fun c => table.get? c.name) component
      fun n hn hown => (howned n hown).2 hn
  · show v.wait.isServed q.surroundings = true
    rw [hq]
    obtain ⟨strategy, wait⟩ := v
    cases wait with
    | event number awaited =>
      have hleft : number ∈ numbers (e.resume (Requirement.rules table component) s).1.waits :=
        List.mem_filterMap.mpr ⟨_, hv, rfl⟩
      obtain ⟨u, hu, hown⟩ := List.mem_filterMap.mp (hends.sublist.mem hleft)
      have hserved := h.served u hu
      obtain ⟨strategy', wait'⟩ := u
      cases wait' with
      | event number' awaited' =>
        cases hown
        have hlive : number ∈ (e.resume (Requirement.rules table component) s).2.bus.live := by
          refine hends.live ▸ List.mem_filter.mpr ⟨?_, decide_eq_true (.inr hleft)⟩
          exact Bus.mem_live.mpr (Option.isSome_iff_exists.mp hserved)
        exact Option.isSome_iff_exists.mpr (Bus.mem_live.mp hlive)
      | _ => cases hown
    | _ => rfl
  · rintro _ _ _ _ hstatus
    cases hstatus
    exact undecided_resume (h.undecided _ _ _ _ rfl) s
  · show v.wait.isReady q.surroundings = false
    rw [hq]
    exact not_ready_resume id (fun c => table.get? c.name) component h.served h.nodup hv

/-- **A download that is begun** takes at most a ticket, and its answer is still to come. -/
theorem idle_beginDownload (p : Page) (name : String) :
    ∃ ticket, (p.beginDownload name).2.surroundings =
        { p.surroundings with nextTicket := ticket } ∧
      ∀ wait ∈ (p.beginDownload name).1.waits,
        wait.isReady (p.beginDownload name).2.surroundings = false := by
  rw [beginDownload]
  dsimp only
  split
  · exact ⟨_, rfl, List.forall_mem_nil _⟩
  · exact ⟨_, rfl, List.forall_mem_nil _⟩
  · next delay answer hnonzero _ =>
    refine ⟨_, rfl, fun wait hwait => ?_⟩
    cases delay with
    | none =>
      obtain rfl := List.mem_singleton.mp hwait
      rfl
    | some delay =>
      obtain rfl := List.mem_singleton.mp hwait
      have hpositive : delay ≠ 0 := by
        rintro rfl
        exact hnonzero rfl
      rw [Wait.isReady, decide_eq_false_iff_not]
      show ¬p.surroundings.now + delay ≤ p.surroundings.now
      omega

/-- **A download that goes on** leaves the surroundings alone. -/
theorem idle_resumeDownload (p : Page) (name : String) (download : Download) :
    (p.resumeDownload name download).2.surroundings = p.surroundings ∧
      ∀ wait ∈ (p.resumeDownload name download).1.waits, wait.isReady p.surroundings = false := by
  cases download with
  | settled result => exact ⟨rfl, List.forall_mem_nil _⟩
  | arriving ticket due answer =>
    rw [resumeDownload]
    split
    · exact ⟨rfl, List.forall_mem_nil _⟩
    · next hdue =>
      refine ⟨rfl, fun wait hwait => ?_⟩
      cases due with
      | none =>
        obtain rfl := List.mem_singleton.mp hwait
        rfl
      | some due =>
        obtain rfl := List.mem_singleton.mp hwait
        rw [Wait.isReady]
        exact (Bool.not_eq_true _).mp hdue

theorem rebooks_await (hs : p.surroundings.bus.Numbered) (tree : Requirement) :
    Rebooks [] p.surroundings (p.await component name tree) := by
  rw [await]
  dsimp only
  have hstarted : Rebooks [] p.surroundings (.awaiting component name
      (tree.start (Requirement.rules p.strategies component) p.surroundings).1
      (.settled (.ok true)), { p with
        surroundings := (tree.start (Requirement.rules p.strategies component) p.surroundings).2 }) :=
    rebooks_start p.strategies tree hs rfl
  split
  · exact hstarted.ended _
  · obtain ⟨ticket, hsurroundings, hidle⟩ := idle_beginDownload { p with
      surroundings := (tree.start (Requirement.rules p.strategies component) p.surroundings).2 } name
    exact (hstarted.beside ticket hsurroundings hidle).proceed

theorem rebooks_resumeActivation (hs : p.surroundings.bus.Numbered)
    (h : InOrder p.surroundings (.awaiting component name e download)) :
    Rebooks (numbers e.waits) p.surroundings (p.resumeActivation component name e download) := by
  rw [resumeActivation]
  dsimp only
  have hresumed : Rebooks (numbers e.waits) p.surroundings (.awaiting component name
      (e.resume (Requirement.rules p.strategies component) p.surroundings).1
      (.settled (.ok true)), { p with
        surroundings := (e.resume (Requirement.rules p.strategies component) p.surroundings).2 }) :=
    rebooks_resume p.strategies hs h rfl
  split
  · exact hresumed.ended _
  · obtain ⟨hsurroundings, hidle⟩ := idle_resumeDownload { p with
      surroundings := (e.resume (Requirement.rules p.strategies component) p.surroundings).2 } name
      download
    refine (hresumed.beside _ hsurroundings fun wait hwait => ?_).proceed
    rw [hsurroundings]
    exact hidle wait hwait

theorem rebooks_beginActivation (hs : p.surroundings.bus.Numbered) (el : ElementRef) :
    Rebooks [] p.surroundings (p.beginActivation el) := by
  have hended : ∀ {q : Page} {result}, q.surroundings = p.surroundings →
      Rebooks [] p.surroundings (.ended result, q) := by
    intro q result hq
    exact rebooks_ended (hq ▸ hs) fun owned _ => hq ▸ .refl owned _
  have hbeginning := beginActivation_cases p el
  generalize p.beginActivation el = turn at hbeginning ⊢
  cases hbeginning with
  | skipped _ => exact hended rfl
  | unregistered hf => exact hended hf.surroundings
  | unread hf _ => exact hended hf.surroundings
  | begun hf _ _ =>
    rw [← hf.surroundings] at hs ⊢
    exact rebooks_await hs _

end Page

end Hydration
