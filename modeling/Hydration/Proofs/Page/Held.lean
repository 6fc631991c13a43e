import Hydration.Proofs.Page.Records
import Hydration.Proofs.Requirement.Numbered
import Hydration.Proofs.Requirement.Open
import Hydration.Proofs.Strategy.Subscribed

/-!
# Which subscriptions a requirement holds

An evaluation holds the subscriptions that it waits with, its waits are those of the open leaves,
and each wait has the number that its leaf got when it was started.  So what a requirement holds on
the bus at any moment can be read off the notes of its run: the subscriptions of the leaves with the
strategy `event` that have been started, that have not ended and that stand below no node which has
settled (`Requirement.holds_open`).

On a page the requirement is awaited beside a download.  An activation whose turn has come goes on
with the evaluation as it is then, or it has ended and nothing of the requirement is held any more,
be it that the requirement has failed, that the download has, or that both are there
(`Page.Hands`).
-/

namespace Hydration

open NamedWait

/-! ## Turns of an activation -/

namespace Page

variable {p q : Page} {component : ComponentHandle} {name : String} {lo hi : Nat}
  {e : Evaluation NamedWait} {download : Download}

/-- **What a turn hands on** of a requirement that has come to `r`: an activation that goes on waits
with it, and one that has ended holds nothing. -/
structure Hands (lo hi : Nat) (r : Evaluation NamedWait × Surroundings)
    (turn : TaskStatus × Page) : Prop where
  goesOn : ∀ component name e download, turn.1 = .awaiting component name e download →
    e = r.1 ∧ turn.2.surroundings.bus = r.2.bus
  ends : ∀ result, turn.1 = .ended result → turn.2.surroundings.bus.held lo hi = []

/-- A requirement that has failed has given up everything. -/
theorem hands_of_failed {s : Surroundings} {error : RequirementError}
    {result : Except Failure Outcome}
    (h : (Evaluation.failed error : Evaluation NamedWait).Holds lo hi s)
    (hq : q.surroundings = s) : Hands lo hi (.failed error, s) (.ended result, q) where
  goesOn _ _ _ _ hstatus := by cases hstatus
  ends _ _ := by
    rw [hq]
    exact h.held_of_outcome rfl

/-- **A download that has failed** gives up the requirement; otherwise it goes on until it has
succeeded. -/
theorem hands_proceed {s : Surroundings} (h : e.Holds lo hi s)
    (hbus : p.surroundings.bus = s.bus) :
    Hands lo hi (e, s) (p.proceed component name e download) := by
  have hp : e.Holds lo hi p.surroundings := h.of_bus hbus
  rw [proceed.eq_def]
  split
  · refine ⟨fun _ _ _ _ hstatus => ?_, fun _ _ => ?_⟩
    · cases hstatus
    · exact (hp.release (Formula.subscribing_rules id (fun _ => none) component)).1
  · refine ⟨fun _ _ _ _ hstatus => ?_, fun _ _ => ?_⟩
    · cases hstatus
    · rw [surroundings_handBack]
      exact hp.held_of_outcome rfl
  · refine ⟨fun _ _ _ _ hstatus => ?_, fun _ hstatus => ?_⟩
    · cases hstatus
      exact ⟨rfl, hbus⟩
    · cases hstatus

/-- The first turn of an activation that waits. -/
theorem hands_await {requirement : Requirement}
    (h : (requirement.start (Requirement.rules p.strategies component) p.surroundings).1.Holds lo hi
      (requirement.start (Requirement.rules p.strategies component) p.surroundings).2) :
    Hands lo hi (requirement.start (Requirement.rules p.strategies component) p.surroundings)
      (p.await component name requirement) := by
  rw [await]
  generalize requirement.start (Requirement.rules p.strategies component) p.surroundings = r at h ⊢
  obtain ⟨e, s⟩ := r
  dsimp only
  split
  · exact hands_of_failed h rfl
  · exact hands_proceed h bus_beginDownload

/-- Every other turn of it. -/
theorem hands_resumeActivation
    (h : (e.resume (Requirement.rules p.strategies component) p.surroundings).1.Holds lo hi
      (e.resume (Requirement.rules p.strategies component) p.surroundings).2) :
    Hands lo hi (e.resume (Requirement.rules p.strategies component) p.surroundings)
      (p.resumeActivation component name e download) := by
  rw [resumeActivation]
  generalize e.resume (Requirement.rules p.strategies component) p.surroundings = r at h ⊢
  obtain ⟨e, s⟩ := r
  dsimp only
  split
  · exact hands_of_failed h rfl
  · exact hands_proceed h bus_resumeDownload

end Page

/-! ## What is read off the notes -/

section

variable {α : Type} {condition : α → Condition} {strategy? : α → Option Strategy}
  {component : ComponentHandle}

theorem Formula.reached_sublist (atOnce : Formula α → Option Bool) (t : Formula α) :
    (t.reached atOnce).Sublist t.leaves := by
  rw [reached, ← map_leaf_occurrences]
  exact List.filter_sublist.map _

/-- Leaves are started in order, and none of them twice. -/
theorem Formula.begun_sublist (condition : α → Condition) (strategy? : α → Option Strategy)
    (component : ComponentHandle) (t : Formula α) (s : Surroundings)
    (changes : List (Surroundings → Surroundings)) :
    ((Note.begunOf (t.notes (rules condition strategy? component) s changes)).map (·.1)).Sublist
      t.leaves := by
  rw [begun_run, (steady_rules condition strategy? component s).begun_start t ⟨rfl, rfl⟩]
  exact reached_sublist _ t

theorem Formula.isSome_listens? {a : α} :
    (listens? condition strategy? component a).isSome = true ↔ strategy? a = some .event := by
  rw [listens?]
  cases hstrategy : strategy? a with
  | none => simp
  | some strategy => cases strategy <;> simp [Strategy.listens?]

/-- **The subscriptions that a run waits with** are those of the open leaves with the strategy
`event`, in the order in which they have been started. -/
theorem Formula.exists_holders [DecidableEq α] (condition : α → Condition)
    (strategy? : α → Option Strategy) (component : ComponentHandle) {t : Formula α}
    (ht : t.leaves.Nodup) (s : Surroundings) (changes : List (Surroundings → Surroundings)) :
    let rules := rules condition strategy? component
    let notes := t.notes rules s changes
    ∃ holders : List (α × Surroundings), holders.Sublist (Note.begunOf notes) ∧
      (∀ p ∈ Note.begunOf notes, p ∈ holders ↔ strategy? p.1 = some .event ∧ t.Open notes p.1) ∧
      numbers (t.run rules s changes).1.waits = holders.map (·.2.bus.next) := by
  intro rules notes
  have hbegun := begun_sublist condition strategy? component t s changes
  -- Every wait is that of a leaf that has been started.
  obtain ⟨waiting, hwaiting, hkeys⟩ := List.sublist_map_iff.mp
    ((keyed_subscription condition strategy? component).waits_sublist_begun t s changes)
  have hleaves : (t.noted rules s changes).1.waits.map (·.1) = waiting.map (·.1) := by
    have hfirst := congrArg (List.map Prod.fst) hkeys
    rwa [Keyed.ofWaits, List.map_map, List.map_map] at hfirst
  have hmem : ∀ p ∈ Note.begunOf notes, p ∈ waiting ↔ t.Open notes p.1 := by
    intro p hp
    rw [← mem_waits_iff_open ht rules s changes (hbegun.mem (List.mem_map_of_mem hp)), hleaves]
    refine ⟨fun h => List.mem_map_of_mem h, fun h => ?_⟩
    obtain ⟨p', hp', hsame⟩ := List.mem_map.mp h
    have heq := List.inj_on_of_nodup_map (hbegun.nodup ht) (hwaiting.mem hp') hp hsame
    exact heq ▸ hp'
  refine ⟨waiting.filter fun p => (listens? condition strategy? component p.1).isSome,
    List.filter_sublist.trans hwaiting, fun p hp => ?_, ?_⟩
  · rw [List.mem_filter, hmem p hp, isSome_listens?, and_comm]
  · have hnumbers := congrArg (List.filterMap Prod.snd) hkeys
    rw [Keyed.ofWaits, List.filterMap_map, List.filterMap_map] at hnumbers
    rw [run_noting, Evaluation.waits_map, numbers, List.filterMap_map]
    refine hnumbers.trans ?_
    rw [← List.filterMap_eq_map, List.filterMap_filter]
    congr 1
    funext p
    cases h : listens? condition strategy? component p.1 <;> simp [h]

end

/-! ## What a requirement holds -/

/-- **Which subscriptions a requirement holds on the bus, and when.**  A run starts the requirement
in the state `s` and resumes its evaluation `e` after each of the `changes`; `later` is what has
happened since, up to the moment `now`.  All of this is by others.  What the requirement has begun
bears the numbers from `lo` to before `hi`.  The leaves are told apart by numbers, which makes no
difference to the run.

* What is held are the subscriptions of those leaves that have been started with the strategy
  `event`, have not ended, and stand below no node that has settled: each with the number that was
  the next one when its leaf was started, in this order.
* They and those of others are what publishing and counting count.
* Given up, the evaluation holds nothing, and others lose nothing.
* On a page, an activation that begins or whose turn has come goes on with the evaluation and holds
  what that holds, or it has ended and holds nothing. -/
theorem Requirement.holds_open (requirement : Requirement) (table : StrategyTable)
    (component : ComponentHandle) (s : Surroundings) (hs : s.bus.Numbered)
    (changes : List (Surroundings → Surroundings)) (later : Surroundings → Surroundings)
    (hforeign : ∀ change ∈ later :: changes, Foreign s.bus.next
      (requirement.start (Requirement.rules table component) s).2.bus.next change) :
    let rules := Requirement.rules table component
    let lo := s.bus.next
    let hi := (requirement.start rules s).2.bus.next
    let e := (requirement.run rules s changes).1
    let now := later (requirement.run rules s changes).2
    let t := requirement.numbered
    let numbered := Formula.rules (fun a : Condition × Nat => a.1)
      (fun a => table.get? a.1.name) component
    let notes := t.notes numbered s changes
    (t.map Prod.fst = requirement ∧ t.leaves = requirement.leaves.zipIdx ∧
      t.run numbered s changes = requirement.run rules s changes) ∧
    (∃ holders : List ((Condition × Nat) × Surroundings), holders.Sublist (Note.begunOf notes) ∧
      (∀ p ∈ Note.begunOf notes,
        p ∈ holders ↔ table.get? p.1.1.name = some .event ∧ t.Open notes p.1) ∧
      now.bus.held lo hi = holders.map (·.2.bus.next) ∧
      (∀ event, (now.bus.dispatch event).1 = (now.bus.rest lo hi).length + holders.length) ∧
      now.bus.size = (now.bus.rest lo hi).length + holders.length) ∧
    ((e.release rules now).bus.held lo hi = [] ∧
      (e.release rules now).bus.rest lo hi = now.bus.rest lo hi) ∧
    (∀ p : Page, p.strategies = table → p.surroundings = s → ∀ name,
      Page.Hands lo hi (requirement.start rules s) (p.await component name requirement)) ∧
    (∀ p : Page, p.strategies = table → p.surroundings = now → ∀ name download,
      Page.Hands lo hi (e.resume rules now) (p.resumeActivation component name e download)) := by
  intro rules lo hi e now t numbered notes
  rw [List.forall_mem_cons] at hforeign
  have hrules : rules.Subscribing := Formula.subscribing_rules _ _ component
  have hrun : t.run numbered s changes = requirement.run rules s changes := by
    have hmap := Formula.run_map rules Prod.fst t s changes
    rw [requirement.map_numbered] at hmap
    exact hmap.symm
  have hholds : e.Holds lo hi now :=
    (Evaluation.Holds.run hrules requirement hs hforeign.2).change hforeign.1
  obtain ⟨holders, hsub, hopen, hnumbers⟩ := Formula.exists_holders
    (fun a : Condition × Nat => a.1) (fun a => table.get? a.1.name) component
    requirement.nodup_leaves_numbered s changes
  have hheld : now.bus.held lo hi = holders.map (·.2.bus.next) := by
    rw [hholds.held, ← hnumbers]
    exact congrArg (fun r : Evaluation NamedWait × Surroundings => numbers r.1.waits) hrun.symm
  have hlength : (now.bus.held lo hi).length = holders.length := by
    rw [hheld, List.length_map]
  refine ⟨⟨requirement.map_numbered, requirement.leaves_numbered, hrun⟩,
    ⟨holders, hsub, hopen, hheld, fun event => ?_, ?_⟩, hholds.release hrules, ?_, ?_⟩
  · rw [Bus.dispatch_fst _ _ lo hi, hlength]
  · rw [Bus.size_eq _ lo hi, hlength]
  · rintro p rfl rfl name
    exact Page.hands_await (.of_start hrules requirement hs)
  · rintro p rfl hp name download
    have hresumed := hholds.resume hrules
    rw [← hp] at hresumed ⊢
    exact Page.hands_resumeActivation hresumed

/-- One of two events, and a third one. -/
def eitherAndThird : Requirement :=
  .node .and [.node .or [Requirement.condition "event" (some "a"),
    Requirement.condition "event" (some "b")], Requirement.condition "event" (some "c")]

/-- Once the second event has come, the wait for the first counts no longer, though the third has
still to come; another requirement that waits for the second counts until it is resumed. -/
theorem Requirement.holds_open_either :
    let rules := Requirement.rules .builtIn ⟨⟨0⟩, "1"⟩
    let another := fun s => ((Requirement.condition "event" (some "b")).start rules s).2
    let publish := fun s : Surroundings => { s with bus := (s.bus.dispatch (.named "b")).2 }
    let r := eitherAndThird.run rules {} [another, publish]
    (r.1.result?.isNone = true ∧ r.2.bus.held 0 3 = [2] ∧ r.2.bus.size = 2) ∧
    ∃ holders : List ((Condition × Nat) × Surroundings),
      r.2.bus.held 0 3 = holders.map (·.2.bus.next) ∧
      r.2.bus.size = (r.2.bus.rest 0 3).length + holders.length := by
  intro rules another publish r
  have hnext : (eitherAndThird.start rules {}).2.bus.next = 3 := by decide +kernel
  have hforeign : ∀ change ∈ [id, another, publish],
      Foreign 0 (eitherAndThird.start rules {}).2.bus.next change := by
    simp only [List.forall_mem_cons, List.not_mem_nil, false_implies, implies_true, and_true]
    refine ⟨foreign_of_bus fun _ => rfl, ?_, ?_⟩
    · apply foreign_start
    · apply foreign_dispatch
  obtain ⟨-, ⟨holders, -, -, hheld, -, hsize⟩, -⟩ :=
    Requirement.holds_open eitherAndThird .builtIn ⟨⟨0⟩, "1"⟩ {} nofun [another, publish] id
      hforeign
  rw [hnext] at hheld hsize
  dsimp only [id] at hheld hsize
  refine ⟨by decide +kernel, holders, ?_, ?_⟩
  · simp only [r, rules]
    exact hheld
  · simp only [r, rules]
    exact hsize

end Hydration
