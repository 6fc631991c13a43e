import Hydration.Proofs.Event.Waiters
import Hydration.Proofs.Strategy.Wait

/-!
# The event strategy in a waiting room

The `event` strategy is a waiter of the page's bus: it starts, runs and is dropped as
waiters do (`start_event`, `resume_of_standing`, `release_event`), and what it accepts is
the event that it awaits (`awaited`).  So what waiters are told says when it ends.
-/

namespace Hydration

namespace Strategy

/-- Whether an event is the one that the `event` strategy awaits: the event that its argument
names, and without an argument the load event for the component. -/
def awaited (component : ComponentHandle) (argument : Option String) (e : Event) : Bool :=
  match argument with
  | none => e == .load component.id
  | some name => if name = "" then e == .load component.id else e.name == name

variable {component : ComponentHandle} {argument : Option String} {name : String}

theorem accepts_named (name : String) :
    (Event.Filter.named name).accepts = fun e => e.name == name := by
  funext e
  simp [Event.Filter.accepts, Event.Filter.named]

theorem accepts_load (id : String) : (Event.Filter.load id).accepts = fun e => e == .load id := by
  funext ⟨name, id'⟩
  rw [Bool.eq_iff_iff]
  simp [Event.Filter.accepts, Event.Filter.load, Event.isLoadFor, Event.load]

theorem accepts_eventFilter :
    (eventFilter component argument).accepts = awaited component argument := by
  funext e
  rw [eventFilter]
  cases argument with
  | none => exact congrFun (accepts_load component.id) e
  | some name =>
    rw [given, Option.filter_some, awaited]
    by_cases hname : name = ""
    · rw [if_pos hname, if_neg (by simp [hname])]
      exact congrFun (accepts_load component.id) e
    · rw [if_neg hname, if_pos (by simp [hname])]
      exact congrFun (accepts_named name) e

theorem awaited_iff {e : Event} : awaited component argument e = true ↔
    (∃ text, argument = some text ∧ text ≠ "" ∧ e.name = text) ∨
      (argument = none ∨ argument = some "") ∧ e = .load component.id := by
  have hload : (argument = none ∨ argument = some "") →
      (awaited component argument e = true ↔ e = .load component.id) := by
    rintro (rfl | rfl)
    · rw [awaited, beq_iff_eq]
    · rw [awaited, if_pos rfl, beq_iff_eq]
  constructor
  · intro he
    by_cases hnone : argument = none ∨ argument = some ""
    · exact .inr ⟨hnone, (hload hnone).mp he⟩
    · obtain ⟨hsome, hempty⟩ := not_or.mp hnone
      obtain ⟨text, rfl⟩ := Option.ne_none_iff_exists'.mp hsome
      have htext : text ≠ "" := fun h => hempty (by rw [h])
      rw [awaited, if_neg htext, beq_iff_eq] at he
      exact .inl ⟨text, rfl, htext, he⟩
  · rintro (⟨text, rfl, htext, he⟩ | ⟨hnone, he⟩)
    · rw [awaited, if_neg htext, beq_iff_eq]
      exact he
    · exact (hload hnone).mpr he

/-- A call of the strategy is the start of a waiter. -/
theorem start_event (s : Surroundings) :
    event.start name component argument s =
      (.waiting (.event s.bus.next (eventName component argument)),
        { s with bus := (s.bus.listen (awaited component argument)).2 }) := by
  rw [← accepts_eventFilter]
  rfl

end Strategy

namespace WaitingRoom

variable {room : WaitingRoom} {n : Nat} {accepts : Event → Bool} {log received : List Event}
  {s : Surroundings}

theorem tell_bus (room : WaitingRoom) (number : Nat) (told : Option Delivery) (bus : Bus) :
    (room.tell number told bus).2.bus = bus := by
  rw [tell.eq_def]
  split <;> rfl

theorem bus_run (hn : n ∈ room.present) : (room.act (.run n)).2.bus = (room.bus.run n).2 := by
  rw [act, if_pos hn]
  exact tell_bus _ _ _ _

theorem bus_leave (hn : n ∈ room.present) : (room.act (.leave n)).2.bus = room.bus.drop n := by
  rw [act, if_pos hn]

/-- A wait of the strategy that is resumed ends if an awaited event has been published. -/
theorem Standing.resume (h : Standing room n accepts log received) (hn : n ∈ room.present)
    (hbus : s.bus = room.bus) (name awaited : String) :
    (Wait.event n awaited).resume name s =
      (if log.any accepts then .succeeded else .waiting (.event n awaited),
        { s with bus := (room.act (.run n)).2.bus }) := by
  cases h with
  | finished e hgone => exact absurd hn hgone
  | waits read inbox hpresent hsub hlog hread hreceived =>
    have hserved : (Wait.event n awaited).isServed s = true := by
      rw [Wait.isServed, Bus.serves, hbus, hsub]
      rfl
    have hready : (Wait.event n awaited).isReady s = log.any accepts := by
      have hpassed : read.any accepts = false := by
        rw [List.any_eq_false]
        simpa using hread
      rw [Wait.isReady, hbus, hsub, Option.any_some, hlog, List.any_append, hpassed,
        Bool.false_or]
    refine Prod.ext ?_ ?_
    · rw [Wait.resume_fst hserved, hready]
      rfl
    · rw [Wait.resume_snd, bus_run hn, Bus.run_snd, hbus]

/-- **Waiters of one bus.**  Whatever has happened before a waiter starts and whatever happens
later, unless the waiter is dropped: once it has been run until it waits it has received the first
event that it accepts of those published since it started, that one only, and it has finished
exactly if there is one.  Whoever publishes or counts is told the number of waiters that have
started and have neither finished nor been dropped, and no waiter is ever told that the channel is
closed.  The `event` strategy is such a waiter: it starts, runs and is dropped as one. -/
theorem receives_first_accepted (opening later : List Happening) (accepts : Event → Bool)
    (hstays : .leave (after opening).bus.next ∉ later) :
    let room := after opening
    let number := room.bus.next
    let ended := room.play (.start accepts :: later ++ [.run number])
    (receipts number ended.1 = ((published later).find? accepts).toList ∧
      (number ∈ ended.2.present ↔ ∀ e ∈ published later, accepts e = false)) ∧
    (room.present.Nodup ∧ (∀ e, (room.act (.publish e)).1 = .counted room.present.length) ∧
      (room.act .count).1 = .counted room.present.length) ∧
    (∀ n, .told n .closed ∉ notices opening) ∧
    ∀ (name : String) (component : ComponentHandle) (argument : Option String),
      let start := Happening.start (Strategy.awaited component argument)
      let standing := (room.play (start :: later)).2
      (∀ e, Strategy.awaited component argument e = true ↔
        (∃ text, argument = some text ∧ text ≠ "" ∧ e.name = text) ∨
          (argument = none ∨ argument = some "") ∧ e = .load component.id) ∧
      ∀ s : Surroundings, s.bus = room.bus →
        ∃ wait, Strategy.event.start name component argument s =
            (.waiting wait, { s with bus := (room.act start).2.bus }) ∧
          ∀ s' : Surroundings, s'.bus = standing.bus → number ∈ standing.present →
            wait.resume name s' =
              (if (published later).any (Strategy.awaited component argument) then .succeeded
                else .waiting wait,
                { s' with bus := (standing.act (.run number)).2.bus }) ∧
            wait.release s' = { s' with bus := (standing.act (.leave number)).2.bus } := by
  have hsound := sound_after opening
  have hstanding := hsound.standing_play
  intro room number ended
  refine ⟨?_, ⟨?_, fun e => (hsound.counted e).1, (hsound.counted (.named "")).2⟩, ?_, ?_⟩
  · have hrun := (hstanding accepts later hstays).run
      ((hsound.act (.start accepts)).play later)
    rw [show ended = _ from play_append _ _ _, receipts_append]
    exact hrun
  · exact hsound.increasing.imp Nat.ne_of_lt
  · exact fun n => Sound.not_closed_play sound_empty opening n
  · intro name component argument start standing
    refine ⟨fun e => Strategy.awaited_iff, fun s hs => ?_⟩
    refine ⟨.event number (Strategy.eventName component argument), ?_, fun s' hs' hn => ⟨?_, ?_⟩⟩
    · rw [Strategy.start_event, hs]
      rfl
    · exact (hstanding _ later hstays).resume hn hs' name _
    · rw [Wait.release, hs', bus_leave hn]

/-- A waiter that is interrupted after one event and only then runs receives its event, also when
another event has come in between. -/
theorem receives_first_accepted_interrupted :
    receipts 1 ((after [.start fun _ => true]).play
        [.start fun e => e.name == "ready", .publish (.named "other"), .publish (.named "ready"),
          .receive 1, .publish (.named "late"), .run 1]).1 = [.named "ready"] :=
  (receives_first_accepted [.start fun _ => true]
    [.publish (.named "other"), .publish (.named "ready"), .receive 1, .publish (.named "late")]
    (fun e => e.name == "ready") (by simp)).1.1

end WaitingRoom

end Hydration
