import Hydration.Proofs.Event.Bus
import Hydration.Strategy.Table

/-!
# Waits

A wait is **ready** when what is awaited has happened.  A wait that is resumed ends if
it is ready and goes on otherwise (`resume_fst`); of the surroundings it changes nothing
but the bus, and that only if it waits for an event (`resume_snd`).
-/

namespace Hydration

namespace Wait

variable {name : String} {wait v : Wait} {s : Surroundings}

/-- Whether what is awaited has happened. -/
def isReady (wait : Wait) (s : Surroundings) : Bool :=
  match wait with
  | timer _ due _ => decide (due ≤ s.now)
  | event number _ => (s.bus.find? number).any fun sub => sub.inbox.any sub.accepts
  | idle _ since => decide (since < s.platform.idlePeriods)
  | media _ query => s.platform.mediaMatches query
  | visible _ element => s.platform.isVisible element
  | never => false

/-- What a wait reports when it is ready. -/
def ending (name : String) : Wait → Signal Wait
  | timer _ _ outcome => Strategy.signalOf name outcome
  | _ => .succeeded

/-- Whether the bus still has the subscription of a wait that needs one. -/
def isServed (wait : Wait) (s : Surroundings) : Bool :=
  match wait with
  | event number _ => s.bus.serves number
  | _ => true

/-- What a waiter that is served is told, as far as it is ready. -/
theorem run_fst {number : Nat} {b : Bus} (h : b.serves number = true) :
    (∃ e, (b.run number).1 = .received e) ∧
        ((b.find? number).any fun sub => sub.inbox.any sub.accepts) = true ∨
      (b.run number).1 = .waiting ∧
        ((b.find? number).any fun sub => sub.inbox.any sub.accepts) = false := by
  obtain ⟨sub, hsub⟩ := Option.isSome_iff_exists.mp h
  rw [Bus.run_fst hsub, hsub, Option.any_some]
  cases hfind : sub.inbox.find? sub.accepts with
  | none =>
    rw [List.find?_eq_none] at hfind
    exact .inr ⟨rfl, by simpa using hfind⟩
  | some e =>
    exact .inl ⟨⟨e, rfl⟩,
      List.any_eq_true.mpr ⟨e, List.mem_of_find?_eq_some hfind, List.find?_some hfind⟩⟩

/-- **A wait that is resumed** ends exactly if it is ready. -/
theorem resume_fst (h : wait.isServed s = true) :
    (wait.resume name s).1 = if wait.isReady s then wait.ending name else .waiting wait := by
  cases wait with
  | timer ticket due outcome =>
    simp only [resume, isReady, ending, decide_eq_true_eq]
    split <;> rfl
  | event number awaited =>
    rcases run_fst h with ⟨⟨e, he⟩, hready⟩ | ⟨he, hready⟩
    · have hrun : s.bus.run number = (.received e, (s.bus.run number).2) := Prod.ext he rfl
      rw [if_pos (show (event number awaited).isReady s = true from hready)]
      simp only [resume]
      rw [hrun]
      rfl
    · have hrun : s.bus.run number = (.waiting, (s.bus.run number).2) := Prod.ext he rfl
      have hnot : ¬ (event number awaited).isReady s = true := by
        rw [isReady, hready]
        decide
      rw [if_neg hnot]
      simp only [resume]
      rw [hrun]
  | idle ticket since =>
    simp only [resume, isReady, ending, decide_eq_true_eq]
    split <;> rfl
  | media ticket query =>
    rw [resume, show (media ticket query).isReady s = s.platform.mediaMatches query from rfl]
    cases s.platform.mediaMatches query <;> rfl
  | visible ticket element =>
    rw [resume, show (visible ticket element).isReady s = s.platform.isVisible element from rfl]
    cases s.platform.isVisible element <;> rfl
  | never => rfl

theorem resume_snd : (wait.resume name s).2 = match wait with
    | event number _ => { s with bus := (s.bus.look number).2 }
    | _ => s := by
  cases wait with
  | event number awaited =>
    simp only [resume, ← Bus.run_snd]
    split
    · next h => rw [h]
    · next h => rw [h]
    · next h => rw [h]
  | never => rfl
  | _ =>
    simp only [resume]
    split <;> rfl

@[simp] theorem now_resume : (wait.resume name s).2.now = s.now := by
  rw [resume_snd]
  split <;> rfl

@[simp] theorem platform_resume : (wait.resume name s).2.platform = s.platform := by
  rw [resume_snd]
  split <;> rfl

@[simp] theorem now_release : (wait.release s).now = s.now := by
  cases wait <;> rfl

@[simp] theorem platform_release : (wait.release s).platform = s.platform := by
  cases wait <;> rfl

theorem numbered_resume (h : s.bus.Numbered) : (wait.resume name s).2.bus.Numbered := by
  rw [resume_snd]
  cases wait with
  | event number awaited => exact h.look
  | _ => exact h

theorem numbered_release (h : s.bus.Numbered) : (wait.release s).bus.Numbered := by
  cases wait with
  | event number awaited => exact h.drop
  | _ => exact h

/-- Nothing but timers takes notice of the clock. -/
theorem exists_timer_of_isReady {time : Nat} (hbefore : wait.isReady s = false)
    (hafter : wait.isReady { s with now := time } = true) :
    ∃ ticket due outcome, wait = timer ticket due outcome ∧ due ≤ time := by
  cases wait with
  | timer ticket due outcome => exact ⟨ticket, due, outcome, rfl, of_decide_eq_true hafter⟩
  | _ => exact absurd (hafter.symm.trans hbefore) (by decide)

/-- A wait that goes on is the same wait. -/
theorem eq_of_resume_waiting (h : (wait.resume name s).1 = .waiting v) : v = wait := by
  rw [resume.eq_def] at h
  split at h
  case h_2 =>
    -- A subscription either delivers, goes on or is closed.
    split at h
    · cases h
    · exact (Signal.waiting.inj h).symm
    · cases h
  case h_6 => exact (Signal.waiting.inj h).symm
  case h_1 ticket due outcome =>
    split at h
    · rcases outcome with _ | _
      · cases h
      · cases h
    · exact (Signal.waiting.inj h).symm
  all_goals
    split at h
    · cases h
    · exact (Signal.waiting.inj h).symm

end Wait

namespace NamedWait

variable {name : String} {signal : Signal Wait} {error : RequirementError} {v : NamedWait}

theorem attach_failed : attach name signal = .failed error ↔ signal = .failed error := by
  cases signal <;> simp [attach]

theorem attach_waiting :
    attach name signal = .waiting v ↔ ∃ wait, signal = .waiting wait ∧ v = ⟨name, wait⟩ := by
  cases signal <;> simp [attach, eq_comm]

end NamedWait

end Hydration
