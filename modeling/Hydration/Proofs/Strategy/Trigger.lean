import Hydration.Proofs.Event.Bus
import Hydration.Proofs.Strategy.Wait

/-!
# What built-in strategies wait for

The surroundings of a page change in four ways from outside (`Change`), and time passes.
A `Moment` is what has changed so far together with the clock.  What a leaf with a
built-in strategy waits for is its `Trigger`: it holds from the beginning, after some
time, from the first change that fires it, or never.

A wait **stands for** a trigger if it is of the trigger's kind and ready exactly if the
trigger has happened (`Trigger.Stands`).  It does so while time passes, and through a change
unless the trigger had been fired before: a wait for the viewport or for a media query
looks at the present, so it has to be resumed before the next change.
-/

namespace Hydration

/-- A change of the surroundings from outside. -/
inductive Change where
  | visible (el : ElementRef) (on : Bool)
  | media (query : String) (on : Bool)
  | idle
  | event (e : Event)

/-- The surroundings after a change. -/
def Surroundings.after (s : Surroundings) : Change → Surroundings
  | .visible el on => { s with platform := s.platform.setVisible el on }
  | .media query on => { s with platform := s.platform.setMedia query on }
  | .idle => { s with platform := s.platform.triggerIdle }
  | .event e => { s with bus := s.bus.publish e }

/-- The key of a wait that a change may make ready. -/
def Change.key : Change → Wait → Option Nat
  | visible _ _, .visible ticket _ => some ticket
  | media _ _, .media ticket _ => some ticket
  | idle, .idle ticket _ => some ticket
  | event _, .event number _ => some number
  | _, _ => none

/-- What has changed so far, and the clock. -/
structure Moment where
  changes : List Change
  clock : Nat

/-- What a leaf waits for. -/
inductive Trigger where
  | now
  | after (delay : Nat)
  | event (filter : Event.Filter)
  | idle
  | media (query : String)
  | visible (el : ElementRef)
  | never

namespace Trigger

/-- Whether a change is what the trigger waits for. -/
def firedBy : Trigger → Change → Bool
  | event filter, .event e => filter.accepts e
  | idle, .idle => true
  | media query, .media query' on => decide (query' = query) && on
  | visible el, .visible el' on => decide (el' = el) && on
  | _, _ => false

/-- Whether the trigger has happened. -/
def happened (m : Moment) : Trigger → Bool
  | now => true
  | after delay => decide (delay ≤ m.clock)
  | trigger => m.changes.any trigger.firedBy

/-- What is known of a leaf with the trigger: a built-in strategy never fails. -/
def known (m : Moment) (trigger : Trigger) : Option Bool :=
  if trigger.happened m then some true else none

/-- Whether a wait is of the kind of the trigger. -/
def Fits (b : Bus) : Trigger → Wait → Prop
  | after delay, .timer _ due outcome => due = delay ∧ outcome = .ok ()
  | event filter, .event number _ =>
    ∃ inbox, b.find? number = some ⟨number, filter.accepts, inbox, false⟩
  | idle, .idle _ since => since = 0
  | media query, .media _ query' => query' = query
  | visible el, .visible _ el' => el' = el
  | never, .never => True
  | _, _ => False

end Trigger

/-- What a leaf with a strategy waits for when it is started on a platform. -/
def Strategy.trigger (platform : Platform) (component : ComponentHandle)
    (argument : Option String) : Strategy → Trigger
  | eager => .now
  | event => .event (eventFilter component argument)
  | idle => if platform.idleCallback then .idle else .after idleFallback
  | media =>
    match given argument with
    | none => .now
    | some argument =>
      if platform.mediaMatches (mediaQuery argument) then .now else .media (mediaQuery argument)
  | visible => if platform.isVisible component.element then .now else .visible component.element
  | custom _ => .never

/-- What a condition waits for on a page with the built-in strategies. -/
def Condition.trigger (platform : Platform) (component : ComponentHandle) (c : Condition) :
    Trigger :=
  match StrategyTable.builtIn.get? c.name with
  | some strategy => strategy.trigger platform component c.argument
  | none => .never

/-- Only the idle fallback is a matter of time. -/
theorem Condition.eq_of_trigger_after {platform : Platform} {component : ComponentHandle}
    {c : Condition} {delay : Nat} (h : c.trigger platform component = .after delay) :
    delay = Strategy.idleFallback := by
  rw [trigger] at h
  split at h
  · next strategy _ =>
    cases strategy with
    | idle =>
      rw [Strategy.trigger] at h
      split at h
      · cases h
      · exact (Trigger.after.inj h).symm
    | media =>
      rw [Strategy.trigger] at h
      split at h
      · cases h
      · split at h
        · cases h
        · cases h
    | visible =>
      rw [Strategy.trigger] at h
      split at h
      · cases h
      · cases h
    | _ => cases h
  · cases h

theorem Trigger.eq_of_fits_timer {trigger : Trigger} {b : Bus} {ticket due : Nat}
    {outcome : Except StrategyError Unit} (h : trigger.Fits b (.timer ticket due outcome)) :
    trigger = .after due := by
  cases trigger with
  | after delay =>
    obtain ⟨rfl, -⟩ := h
    rfl
  | _ => exact h.elim

/-! ## Waits that stand for a trigger -/

/-- The subscription that a wait owns. -/
def Wait.subscription? : Wait → Option Nat
  | event number _ => some number
  | _ => none

namespace Trigger

variable {trigger : Trigger} {wait : Wait} {s s' : Surroundings} {m : Moment}

/-- **A wait stands for a trigger** at a moment: it fits it and is ready exactly if the trigger has
happened. -/
structure Stands (m : Moment) (s : Surroundings) (trigger : Trigger) (wait : Wait) : Prop where
  fits : trigger.Fits s.bus wait
  ready : wait.isReady s = trigger.happened m

/-- Only the subscription that a wait owns matters to it. -/
theorem Stands.congr (h : Stands m s trigger wait) (hnow : s'.now = s.now)
    (hplatform : s'.platform = s.platform)
    (hbus : ∀ n, wait.subscription? = some n → s'.bus.find? n = s.bus.find? n) :
    Stands m s' trigger wait := by
  obtain ⟨hfits, hready⟩ := h
  cases wait with
  | event number awaited =>
    have hsub := hbus number rfl
    refine ⟨?_, ?_⟩
    · cases trigger with
      | event filter => rw [Fits] at hfits ⊢; rwa [hsub]
      | _ => exact hfits
    · rw [Wait.isReady, hsub]
      exact hready
  | timer ticket due outcome =>
    rw [Wait.isReady] at hready
    exact ⟨by cases trigger <;> exact hfits, by rw [Wait.isReady, hnow, hready]⟩
  | never => exact ⟨by cases trigger <;> exact hfits, hready⟩
  | _ =>
    rw [Wait.isReady] at hready
    exact ⟨by cases trigger <;> exact hfits, by rw [Wait.isReady, hplatform, hready]⟩

/-- A wait that stands for a trigger is served. -/
theorem Stands.isServed (h : Stands m s trigger wait) : wait.isServed s = true := by
  cases wait with
  | event number awaited =>
    cases trigger with
    | event filter =>
      obtain ⟨inbox, hfind⟩ := h.fits
      rw [Wait.isServed, Bus.serves, hfind]
      rfl
    | _ => exact h.fits.elim
  | _ => rfl

/-- A wait that is ready ends with success. -/
theorem Stands.ending_eq (h : Stands m s trigger wait) (name : String) :
    wait.ending name = .succeeded := by
  cases wait with
  | timer ticket due outcome =>
    cases trigger with
    | after delay =>
      obtain ⟨-, rfl⟩ := h.fits
      rfl
    | _ => exact h.fits.elim
  | _ => rfl

/-! ## Time and changes -/

/-- What has happened stays so. -/
theorem happened_mono {m' : Moment} (hchanges : m.changes <+: m'.changes)
    (hclock : m.clock ≤ m'.clock) (h : trigger.happened m = true) : trigger.happened m' = true := by
  have hany : m.changes.any trigger.firedBy = true → m'.changes.any trigger.firedBy = true := by
    obtain ⟨later, hlater⟩ := hchanges
    intro h
    rw [← hlater, List.any_append, h, Bool.true_or]
  cases trigger with
  | now => rfl
  | after delay =>
    rw [happened, decide_eq_true_eq] at h ⊢
    omega
  | _ => exact hany h

theorem known_eq_none : trigger.known m = none ↔ trigger.happened m = false := by
  rw [known]
  split
  · next h => simp [h]
  · next h => simp [h]

theorem known_eq_true : trigger.known m = some true ↔ trigger.happened m = true := by
  rw [known]
  split
  · next h => simp [h]
  · next h => simp [h]

/-- What has not happened has not been fired. -/
theorem not_fired (h : trigger.happened m = false) : m.changes.any trigger.firedBy = false := by
  cases trigger with
  | now => cases h
  | after delay =>
    rw [List.any_eq_false]
    intro c _
    cases c <;> simp [firedBy]
  | _ => exact h

theorem not_happened_never : never.happened m = false :=
  List.any_eq_false.mpr fun c _ => by cases c <;> simp [firedBy]

/-- A wait stands for its trigger while time passes. -/
theorem Stands.pass (h : Stands m s trigger wait) (time : Nat) :
    Stands ⟨m.changes, time⟩ { s with now := time } trigger wait := by
  obtain ⟨hfits, hready⟩ := h
  refine ⟨hfits, ?_⟩
  cases trigger with
  | after delay =>
    cases wait with
    | timer ticket due outcome =>
      obtain ⟨rfl, -⟩ := hfits
      rfl
    | _ => exact hfits.elim
  | now => cases wait <;> exact hfits.elim
  | _ =>
    cases wait with
    | timer ticket due outcome => exact hfits.elim
    | _ => exact hready

theorem mem_put_of_not_mem {α : Type} [DecidableEq α] {a b : α} {on : Bool} {xs : List α}
    (h : decide (b ∈ xs) = false) :
    decide (b ∈ Platform.put a on xs) = (decide (a = b) && on) := by
  rw [decide_eq_false_iff_not] at h
  rw [Bool.eq_iff_iff, decide_eq_true_eq, Platform.mem_put, Bool.and_eq_true, decide_eq_true_eq]
  by_cases hb : b = a
  · simp [hb]
  · simp [hb, h, Ne.symm hb]

/-- A subscription that has been sent nothing it looks for is ready exactly if the change is. -/
theorem Stands.change_event {filter : Event.Filter} {number : Nat} {awaited : String}
    (h : Stands m s (.event filter) (.event number awaited))
    (hseen : m.changes.any (Trigger.event filter).firedBy = false) (c : Change) :
    (Trigger.event filter).Fits (s.after c).bus (.event number awaited) ∧
      (Wait.event number awaited).isReady (s.after c) = (Trigger.event filter).firedBy c := by
  obtain ⟨⟨inbox, hfind⟩, hready⟩ := h
  rw [Wait.isReady, hfind] at hready
  have hinbox : inbox.any filter.accepts = false := hready.trans hseen
  cases c with
  | event e =>
    have hfind' := (Bus.find?_publish e).trans (congrArg _ hfind)
    refine ⟨⟨_, hfind'⟩, ?_⟩
    show ((s.bus.publish e).find? number).any _ = _
    rw [hfind']
    simp [hinbox, firedBy]
  | _ =>
    refine ⟨⟨inbox, hfind⟩, ?_⟩
    show (s.bus.find? number).any _ = _
    rw [hfind]
    exact hinbox

/-- **A wait stands for its trigger through a change** if the trigger has not been fired before. -/
theorem Stands.change (h : Stands m s trigger wait) (hseen : m.changes.any trigger.firedBy = false)
    (c : Change) : Stands ⟨m.changes ++ [c], m.clock⟩ (s.after c) trigger wait := by
  have ⟨hfits, hready⟩ := h
  -- So far the trigger has not been fired, and whether it is now depends on this change alone.
  have hany : (m.changes ++ [c]).any trigger.firedBy = trigger.firedBy c := by
    rw [List.any_append, hseen, Bool.false_or, List.any_cons, List.any_nil, Bool.or_false]
  cases trigger with
  | now => cases wait <;> exact hfits.elim
  | after delay =>
    cases wait with
    | timer ticket due outcome => cases c <;> exact ⟨hfits, hready⟩
    | _ => exact hfits.elim
  | never =>
    cases wait with
    | never => cases c <;> exact ⟨hfits, hany.symm⟩
    | _ => exact hfits.elim
  | event filter =>
    cases wait with
    | event number awaited =>
      obtain ⟨hfits, hready⟩ := h.change_event hseen c
      exact ⟨hfits, hready.trans hany.symm⟩
    | _ => exact hfits.elim
  | idle =>
    cases wait with
    | idle ticket since =>
      obtain rfl := hfits
      cases c with
      | idle =>
        exact ⟨rfl, Eq.trans (decide_eq_true (Nat.succ_pos s.platform.idlePeriods)) hany.symm⟩
      | _ => exact ⟨rfl, hready.trans (hseen.trans hany.symm)⟩
    | _ => exact hfits.elim
  | media query =>
    cases wait with
    | media ticket query' =>
      obtain rfl := hfits
      cases c with
      | media changed on =>
        refine ⟨rfl, Eq.trans ?_ hany.symm⟩
        exact mem_put_of_not_mem (hready.trans hseen)
      | _ => exact ⟨rfl, hready.trans (hseen.trans hany.symm)⟩
    | _ => exact hfits.elim
  | visible el =>
    cases wait with
    | visible ticket el' =>
      obtain rfl := hfits
      cases c with
      | visible changed on =>
        refine ⟨rfl, Eq.trans ?_ hany.symm⟩
        exact mem_put_of_not_mem (hready.trans hseen)
      | _ => exact ⟨rfl, hready.trans (hseen.trans hany.symm)⟩
    | _ => exact hfits.elim

end Trigger

/-- A change gives a key to every wait that it makes ready. -/
theorem Change.isSome_key {c : Change} {wait : Wait} {s : Surroundings}
    (hbefore : wait.isReady s = false) (hafter : wait.isReady (s.after c) = true) :
    (c.key wait).isSome := by
  have hchanged : wait.isReady (s.after c) ≠ wait.isReady s := by
    rw [hbefore, hafter]
    decide
  cases c <;> cases wait <;> first | rfl | exact absurd rfl hchanged

end Hydration
