import Hydration.Proofs.Event.Held
import Hydration.Proofs.Requirement.Keyed
import Hydration.Proofs.Strategy.Calls
import Hydration.Proofs.Strategy.Trigger
import Mathlib.Data.List.Nodup

/-!
# The subscriptions of an evaluation

A wait for an event owns a subscription, and what an evaluation waits for so comes to a list of
numbers (`NamedWait.numbers`).

* Starting a formula begins the subscriptions that its evaluation waits with (`begins_start`).
* Resuming an evaluation ends those that it waits with no longer, and no others (`ends_resume`).
* Releasing its waits ends them all (`ends_releaseAll`).

So an evaluation **holds** the subscriptions that it waits with: those that have begun when it was
started and have not ended (`Evaluation.Holds`).  This stays so in a run, whatever others do on the
bus in between (`Holds.run`).  Publishing is such a doing of others, and so are the turns of other
evaluations (`foreign_start`, `foreign_resume`, `foreign_release`).
-/

namespace Hydration

variable {α : Type} {condition : α → Condition} {strategy? : α → Option Strategy}
  {component : ComponentHandle} {s s' : Surroundings} {name : String} {argument : Option String}
  {listens? : Option (Event → Bool)} {signal : Signal Wait} {lo hi : Nat}

/-! ## Calls that subscribe -/

namespace Strategy

/-- **What a call does to the bus**: what is listened for has a subscription of its own from then
on, and nothing else touches the bus. -/
structure Subscribes (listens? : Option (Event → Bool)) (s : Surroundings) (signal : Signal Wait)
    (s' : Surroundings) : Prop where
  bus : s'.bus = listens?.elim s.bus fun accepts => (s.bus.listen accepts).2
  wait : ∀ wait, signal = .waiting wait → wait.subscription? = listens?.map fun _ => s.bus.next
  waits : listens?.isSome = true → ∃ wait, signal = .waiting wait

theorem subscribes_settled (hbus : s'.bus = s.bus)
    (hsettled : (Evaluation.ofSignal signal).waits = []) : Subscribes none s signal s' := by
  refine ⟨hbus, fun wait hwait => ?_, nofun⟩
  rw [← Evaluation.mem_waits_ofSignal, hsettled] at hwait
  cases hwait

theorem subscribes_waiting {wait : Wait} (hbus : s'.bus = s.bus)
    (hnone : wait.subscription? = none) : Subscribes none s (.waiting wait) s' :=
  ⟨hbus, fun _ h => Signal.waiting.inj h ▸ hnone, nofun⟩

theorem start_subscribes (strategy : Strategy) (name : String) (component : ComponentHandle)
    (argument : Option String) (s : Surroundings) :
    Subscribes (strategy.listens? component argument) s (strategy.start name component argument s).1
      (strategy.start name component argument s).2 := by
  cases strategy with
  | eager => exact subscribes_settled rfl rfl
  | event =>
    rw [start_event]
    exact ⟨rfl, fun _ h => Signal.waiting.inj h ▸ rfl, fun _ => ⟨_, rfl⟩⟩
  | idle =>
    rw [start]
    split
    · exact subscribes_waiting rfl rfl
    · exact subscribes_waiting rfl rfl
  | media =>
    rw [start]
    split
    · exact subscribes_settled rfl rfl
    · dsimp only
      split
      · exact subscribes_settled rfl rfl
      · exact subscribes_waiting rfl rfl
  | visible =>
    rw [start]
    split
    · exact subscribes_settled rfl rfl
    · exact subscribes_waiting rfl rfl
  | custom behaviour =>
    rw [start]
    dsimp only
    split
    · exact subscribes_waiting rfl rfl
    · refine subscribes_settled rfl ?_
      cases behaviour.outcome <;> rfl
    · exact subscribes_waiting rfl rfl

end Strategy

/-- The subscriptions that waits own. -/
def NamedWait.numbers (waits : List NamedWait) : List Nat :=
  waits.filterMap (·.wait.subscription?)

namespace NamedWait

variable {waits more : List NamedWait}

theorem numbers_append : numbers (waits ++ more) = numbers waits ++ numbers more :=
  List.filterMap_append

theorem numbers_singleton (v : NamedWait) : numbers [v] = v.wait.subscription?.toList := by
  rw [numbers, List.filterMap_cons]
  cases v.wait.subscription? <;> rfl

theorem numbers_attach (name : String) (signal : Signal Wait) :
    numbers (Evaluation.ofSignal (attach name signal)).waits =
      (Evaluation.ofSignal signal).waits.filterMap Wait.subscription? := by
  cases signal <;> rfl

end NamedWait

open NamedWait

/-- A call that waits owns what it has subscribed. -/
theorem Strategy.Subscribes.begins (h : Strategy.Subscribes listens? s signal s')
    (hbus : s.bus.Numbered) :
    Bus.Begins s.bus s'.bus ((Evaluation.ofSignal signal).waits.filterMap Wait.subscription?) := by
  rw [h.bus]
  cases listens? with
  | none =>
    have hnone : (Evaluation.ofSignal signal).waits.filterMap Wait.subscription? = [] := by
      rw [List.filterMap_eq_nil_iff]
      exact fun wait hwait => h.wait wait (Evaluation.mem_waits_ofSignal.mp hwait)
    rw [hnone]
    exact .refl hbus
  | some accepts =>
    obtain ⟨wait, rfl⟩ := h.waits rfl
    have hown := h.wait wait rfl
    have hnumbers : (Evaluation.ofSignal (.waiting wait)).waits.filterMap Wait.subscription? =
        [s.bus.next] := by
      simp [Evaluation.ofSignal, Evaluation.waits, hown]
    rw [hnumbers]
    exact .listen hbus

/-! ## Leaves that subscribe -/

/-- **Leaves keep the books** of the subscriptions that they wait with. -/
structure LeafRules.Subscribing (rules : LeafRules α NamedWait Surroundings) : Prop where
  start : ∀ a s, s.bus.Numbered →
    Bus.Begins s.bus (rules.start a s).2.bus
      (numbers (Evaluation.ofSignal (rules.start a s).1).waits)
  resume : ∀ v s, Bus.Ends s.bus (rules.resume v s).2.bus (numbers [v])
    (numbers (Evaluation.ofSignal (rules.resume v s).1).waits)
  release : ∀ v s, Bus.Ends s.bus (rules.release v s).bus (numbers [v]) []
  numbered : ∀ v s, s.bus.Numbered → (rules.release v s).bus.Numbered

/-- A wait that is resumed goes on, or its subscription has ended. -/
theorem Wait.ends_resume (wait : Wait) (name : String) (s : Surroundings) :
    Bus.Ends s.bus (wait.resume name s).2.bus wait.subscription?.toList
      ((Evaluation.ofSignal (wait.resume name s).1).waits.filterMap Wait.subscription?) := by
  cases wait with
  | event number awaited =>
    have hends := Bus.ends_run s.bus number
    rw [resume]
    split
    · next hrun =>
      rw [hrun] at hends
      exact hends
    · next hrun =>
      rw [hrun] at hends
      exact hends
    · next hrun =>
      rw [hrun] at hends
      exact hends
  | _ =>
    -- Nothing else touches the bus.
    rw [resume_snd]
    generalize hsignal : resume _ _ _ = r
    obtain ⟨signal, s'⟩ := r
    cases signal with
    | waiting v =>
      rw [eq_of_resume_waiting (congrArg Prod.fst hsignal)]
      exact .refl _ _
    | succeeded => exact .refl _ _
    | failed error => exact .refl _ _

theorem Wait.ends_release (wait : Wait) (s : Surroundings) :
    Bus.Ends s.bus (wait.release s).bus wait.subscription?.toList [] := by
  cases wait with
  | event number awaited => exact Bus.ends_drop
  | _ => exact .refl _ _

namespace Formula

variable (condition strategy? component)

theorem rules_start_begins (a : α) (hbus : s.bus.Numbered) :
    let r := (rules condition strategy? component).start a s
    Bus.Begins s.bus r.2.bus (numbers (Evaluation.ofSignal r.1).waits) := by
  dsimp only
  cases hstrategy : strategy? a with
  | none =>
    rw [rules_start_of_none hstrategy]
    exact .refl hbus
  | some strategy =>
    rw [rules_start_of_some hstrategy, numbers_attach]
    exact (strategy.start_subscribes _ _ _ s).begins hbus

/-- Conditions keep the books of their subscriptions. -/
theorem subscribing_rules : (rules condition strategy? component).Subscribing where
  start a s hs := rules_start_begins condition strategy? component a hs
  resume v s := by
    have hends := v.wait.ends_resume v.strategy s
    rw [← numbers_attach v.strategy] at hends
    rw [numbers_singleton]
    exact hends
  release v s := by
    rw [numbers_singleton]
    exact v.wait.ends_release s
  numbered v s := Wait.numbered_release

/-- **The number of its subscription** is what a wait keeps of its beginning. -/
theorem keyed_subscription : Keyed (rules condition strategy? component)
    (fun v => v.wait.subscription?)
    (fun a s => (Formula.listens? condition strategy? component a).map fun _ => s.bus.next) where
  start {a s v} h := by
    rw [Formula.listens?]
    cases hstrategy : strategy? a with
    | none =>
      rw [rules_start_of_none hstrategy] at h
      cases h
      rfl
    | some strategy =>
      rw [rules_start_of_some hstrategy] at h
      obtain ⟨wait, hwait, rfl⟩ := NamedWait.attach_waiting.mp h
      exact (strategy.start_subscribes _ _ _ s).wait wait hwait
  resume {v s v'} h := by
    obtain ⟨wait, hwait, rfl⟩ := NamedWait.attach_waiting.mp h
    rw [Wait.eq_of_resume_waiting hwait]

end Formula

namespace LeafRules.Subscribing

variable {rules : LeafRules α NamedWait Surroundings}

/-! ## Releasing -/

/-- **Releasing** ends the subscriptions that are waited with. -/
theorem ends_releaseAll (h : rules.Subscribing) (waits : List NamedWait) (s : Surroundings) :
    Bus.Ends s.bus (Evaluation.releaseAll rules waits s).bus (numbers waits) [] := by
  induction waits generalizing s with
  | nil => exact .refl _ _
  | cons v waits ih =>
    have happend := (h.release v s).append (ih (rules.release v s)) nofun nofun
    rw [← numbers_append] at happend
    exact happend

theorem numbered_releaseAll (h : rules.Subscribing) (waits : List NamedWait) {s : Surroundings}
    (hs : s.bus.Numbered) : (Evaluation.releaseAll rules waits s).bus.Numbered := by
  induction waits generalizing s with
  | nil => exact hs
  | cons v waits ih => exact ih (h.numbered v s hs)

/-! ## Starting and resuming -/

theorem starting_begins (h : rules.Subscribing) : Starting rules fun s s' _ waits =>
    s.bus.Numbered → Bus.Begins s.bus s'.bus (numbers waits) where
  nil _ hs := .refl hs
  leaf := h.start
  append hfirst hrest hs := by
    rw [numbers_append]
    exact (hfirst hs).append (hrest (hfirst hs).numbered)
  skip _ hbegins := hbegins
  release hbegins hs := (hbegins hs).ends hs (h.ends_releaseAll _ _)
    (h.numbered_releaseAll _ (hbegins hs).numbered)

/-- **Starting** begins the subscriptions that are waited with. -/
theorem begins_start (h : rules.Subscribing) (t : Formula α) {s : Surroundings}
    (hs : s.bus.Numbered) :
    Bus.Begins s.bus (t.start rules s).2.bus (numbers (t.start rules s).1.waits) :=
  h.starting_begins.start t s hs

theorem resuming_ends (h : rules.Subscribing) : Resuming rules fun s s' waits left =>
    (numbers waits).Nodup → Bus.Ends s.bus s'.bus (numbers waits) (numbers left) where
  refl _ _ _ := .refl _ _
  wait v s _ := h.resume v s
  append hfirst hrest hnodup := by
    rw [numbers_append, List.nodup_append] at hnodup
    obtain ⟨hnodup, hnodup', hapart⟩ := hnodup
    have hends := hfirst hnodup
    have hends' := hrest hnodup'
    rw [numbers_append, numbers_append]
    exact hends.append hends' (fun n hn hn' => hapart n (hends.sublist.mem hn) n hn' rfl)
      fun n hn hn' => hapart n hn' n (hends'.sublist.mem hn) rfl
  release hends hnodup := (hends hnodup).all (h.ends_releaseAll _ _)

/-- **Resuming** ends the subscriptions that are waited with no longer. -/
theorem ends_resume (h : rules.Subscribing) (e : Evaluation NamedWait) (s : Surroundings)
    (hnodup : (numbers e.waits).Nodup) :
    Bus.Ends s.bus (e.resume rules s).2.bus (numbers e.waits)
      (numbers (e.resume rules s).1.waits) :=
  h.resuming_ends.resume e s hnodup

end LeafRules.Subscribing

/-! ## Holding -/

/-- **A change by others**: what happens on the bus is none of the business of those who wait with
numbers from `lo` to before `hi`, which have been given. -/
def Foreign (lo hi : Nat) (change : Surroundings → Surroundings) : Prop :=
  ∀ s, hi ≤ s.bus.next → ∃ happenings : List WaitingRoom.Happening,
    (∀ happening ∈ happenings, happening.Spares lo hi) ∧
      (change s).bus = happenings.foldl Bus.undergo s.bus

/-- **An evaluation holds** exactly the subscriptions that it waits with. -/
structure Evaluation.Holds (e : Evaluation NamedWait) (lo hi : Nat) (s : Surroundings) : Prop where
  held : s.bus.held lo hi = numbers e.waits
  next : hi ≤ s.bus.next
  nodup : (numbers e.waits).Nodup

namespace Evaluation.Holds

variable {rules : LeafRules α NamedWait Surroundings} {e : Evaluation NamedWait}

/-- Only the bus matters. -/
theorem of_bus (h : e.Holds lo hi s) (hbus : s'.bus = s.bus) : e.Holds lo hi s' where
  held := hbus ▸ h.held
  next := hbus ▸ h.next
  nodup := h.nodup

/-- What is started holds what has begun. -/
theorem of_start (hrules : rules.Subscribing) (t : Formula α) (hs : s.bus.Numbered) :
    (t.start rules s).1.Holds s.bus.next (t.start rules s).2.bus.next (t.start rules s).2 where
  held := (hrules.begins_start t hs).held_eq hs
  next := Nat.le_refl _
  nodup := (hrules.begins_start t hs).ascending.imp Nat.ne_of_lt

theorem resume (h : e.Holds lo hi s) (hrules : rules.Subscribing) :
    (e.resume rules s).1.Holds lo hi (e.resume rules s).2 := by
  have hends := hrules.ends_resume e s h.nodup
  refine ⟨?_, hends.next ▸ h.next, hends.sublist.nodup h.nodup⟩
  rw [← h.held] at hends
  exact hends.held_eq (h.held ▸ h.nodup)

theorem change (h : e.Holds lo hi s) {change : Surroundings → Surroundings}
    (hforeign : Foreign lo hi change) : e.Holds lo hi (change s) := by
  obtain ⟨happenings, hspares, hbus⟩ := hforeign s h.next
  obtain ⟨hheld, hnext⟩ := Bus.held_foldl_undergo hspares h.next
  rw [← hbus] at hheld hnext
  exact ⟨hheld.trans h.held, hnext, h.nodup⟩

/-- **In a run** the evaluation holds what it waits with, whatever others do. -/
theorem run (hrules : rules.Subscribing) (t : Formula α) (hs : s.bus.Numbered)
    {changes : List (Surroundings → Surroundings)}
    (hforeign : ∀ change ∈ changes, Foreign s.bus.next (t.start rules s).2.bus.next change) :
    (t.run rules s changes).1.Holds s.bus.next (t.start rules s).2.bus.next
      (t.run rules s changes).2 := by
  induction changes using List.reverseRecOn with
  | nil => exact of_start hrules t hs
  | append_singleton changes change ih =>
    rw [List.forall_mem_append, List.forall_mem_singleton] at hforeign
    rw [Formula.run_concat]
    exact ((ih hforeign.1).change hforeign.2).resume hrules

/-- **What is given up** is held no longer, and others lose nothing. -/
theorem release (h : e.Holds lo hi s) (hrules : rules.Subscribing) :
    (e.release rules s).bus.held lo hi = [] ∧
      (e.release rules s).bus.rest lo hi = s.bus.rest lo hi := by
  have hends := hrules.ends_releaseAll e.waits s
  rw [← h.held] at hends
  exact ⟨hends.held_eq (h.held ▸ h.nodup), hends.rest_eq⟩

/-- What has settled holds nothing. -/
theorem held_of_outcome (h : e.Holds lo hi s) {succeeds : Bool}
    (hsettled : e.outcome? = some succeeds) : s.bus.held lo hi = [] := by
  rw [h.held, Evaluation.waits_of_outcome hsettled]
  rfl

end Evaluation.Holds

/-! ## What others do -/

/-- What has come of a bus on which nothing happens but what spares some numbers. -/
structure Bus.Spared (lo hi : Nat) (b b₁ : Bus) : Prop where
  next : hi ≤ b₁.next
  happened : ∃ happenings : List WaitingRoom.Happening,
    (∀ happening ∈ happenings, happening.Spares lo hi) ∧ b₁ = happenings.foldl undergo b

namespace Bus.Spared

variable {b b₁ : Bus}

theorem refl (h : hi ≤ b.next) : Spared lo hi b b :=
  ⟨h, [], nofun, rfl⟩

/-- One thing more happens. -/
theorem undergo (h : Spared lo hi b b₁) (happening : WaitingRoom.Happening)
    (hspares : happening.Spares lo hi) : Spared lo hi b (b₁.undergo happening) := by
  obtain ⟨happenings, hall, rfl⟩ := h.happened
  refine ⟨(held_undergo hspares h.next).2, happenings ++ [happening], ?_, ?_⟩
  · exact List.forall_mem_append.mpr ⟨hall, List.forall_mem_singleton.mpr hspares⟩
  · rw [List.foldl_concat]

end Bus.Spared

/-- A wait of others owns none of some numbers. -/
def NamedWait.Elsewhere (lo hi : Nat) (v : NamedWait) : Prop :=
  ∀ n, v.wait.subscription? = some n → ¬(lo ≤ n ∧ n < hi)

section

variable {b : Bus}

theorem spared_release {v : NamedWait} (h : Bus.Spared lo hi b s.bus) (hv : v.Elsewhere lo hi) :
    Bus.Spared lo hi b (v.wait.release s).bus := by
  obtain ⟨name, wait⟩ := v
  cases wait with
  | event number awaited => exact h.undergo (.leave number) (hv number rfl)
  | _ => exact h

theorem spared_resume {v : NamedWait} (h : Bus.Spared lo hi b s.bus) (hv : v.Elsewhere lo hi) :
    Bus.Spared lo hi b (v.wait.resume v.strategy s).2.bus := by
  obtain ⟨name, wait⟩ := v
  rw [Wait.resume_snd]
  cases wait with
  | event number awaited =>
    have hrun := h.undergo (.run number) (hv number rfl)
    rw [Bus.undergo, Bus.run_snd] at hrun
    exact hrun
  | _ => exact h

/-- What is begun has numbers that have not been given before. -/
theorem spared_subscribes (h : Bus.Spared lo hi b s.bus)
    (hsubscribes : Strategy.Subscribes listens? s signal s') :
    Bus.Spared lo hi b s'.bus ∧ ∀ wait, signal = .waiting wait → ∀ n, wait.subscription? = some n →
      ¬(lo ≤ n ∧ n < hi) := by
  refine ⟨?_, fun wait hwait n hn hin => ?_⟩
  · rw [hsubscribes.bus]
    cases listens? with
    | none => exact h
    | some accepts => exact h.undergo (.start accepts) trivial
  · rw [hsubscribes.wait wait hwait, Option.map_eq_some_iff] at hn
    obtain ⟨-, -, rfl⟩ := hn
    exact absurd hin.2 (Nat.not_lt.mpr h.next)

variable (condition strategy? component)

theorem upheld_release (v : NamedWait) (s : Surroundings) (h : Bus.Spared lo hi b s.bus)
    (hv : v.Elsewhere lo hi) :
    Upheld (fun s => Bus.Spared lo hi b s.bus) (fun _ (v : NamedWait) => v.Elsewhere lo hi) s
      ((Formula.rules condition strategy? component).release v s) [] :=
  .change (spared_release h hv) fun _ => id

/-- **Another requirement that is started** is none of one's business. -/
theorem foreign_start (t : Formula α) :
    Foreign lo hi fun s => (t.start (Formula.rules condition strategy? component) s).2 := by
  intro s hnext
  refine (start_upholds (W := fun _ (v : NamedWait) => v.Elsewhere lo hi) (fun a s' h => ?_)
    (upheld_release condition strategy? component) t
    (.refl hnext : Bus.Spared lo hi _ _)).state.happened
  cases hstrategy : strategy? a with
  | none =>
    rw [Formula.rules_start_of_none hstrategy]
    refine ⟨h, fun _ => id, fun v hv => ?_⟩
    obtain rfl := List.mem_singleton.mp hv
    exact nofun
  | some strategy =>
    rw [Formula.rules_start_of_some hstrategy]
    obtain ⟨hspared, hwait⟩ := spared_subscribes h
      (strategy.start_subscribes (condition a).name component (condition a).argument s')
    refine ⟨hspared, fun _ => id, fun v hv => ?_⟩
    obtain ⟨wait, hsignal, rfl⟩ := NamedWait.attach_waiting.mp (Evaluation.mem_waits_ofSignal.mp hv)
    exact hwait wait hsignal

/-- **Another evaluation that is resumed** is none of one's business. -/
theorem foreign_resume (e : Evaluation NamedWait) (he : ∀ v ∈ e.waits, v.Elsewhere lo hi) :
    Foreign lo hi fun s => (e.resume (Formula.rules condition strategy? component) s).2 := by
  intro s hnext
  refine (resume_upholds (W := fun _ (v : NamedWait) => v.Elsewhere lo hi) (fun v s' h hv => ?_)
    (upheld_release condition strategy? component) e (.refl hnext : Bus.Spared lo hi _ _)
    he).state.happened
  refine ⟨spared_resume h hv, fun _ => id, fun u hu => ?_⟩
  obtain ⟨wait, hsignal, rfl⟩ := NamedWait.attach_waiting.mp (Evaluation.mem_waits_ofSignal.mp hu)
  rw [Wait.eq_of_resume_waiting hsignal]
  exact hv

/-- **Another evaluation that is given up** is none of one's business. -/
theorem foreign_release (e : Evaluation NamedWait) (he : ∀ v ∈ e.waits, v.Elsewhere lo hi) :
    Foreign lo hi (e.release (Formula.rules condition strategy? component)) := by
  intro s hnext
  exact (Upheld.releaseAll (W := fun _ (v : NamedWait) => v.Elsewhere lo hi)
    (upheld_release condition strategy? component) (.refl hnext : Bus.Spared lo hi _ _)
    he).state.happened

end

/-- Publishing is none of one's business. -/
theorem foreign_dispatch (e : Event) :
    Foreign lo hi fun s => { s with bus := (s.bus.dispatch e).2 } :=
  fun _ _ => ⟨[.publish e], by simp [WaitingRoom.Happening.Spares], rfl⟩

/-- What leaves the bus as it is is none of one's business. -/
theorem foreign_of_bus {change : Surroundings → Surroundings} (h : ∀ s, (change s).bus = s.bus) :
    Foreign lo hi change :=
  fun s _ => ⟨[], nofun, h s⟩

end Hydration
