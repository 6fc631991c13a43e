import Mathlib.Data.List.Basic
import Mathlib.Data.List.Induction
import Hydration.Proofs.Strategy.Trigger

/-!
# Lookouts

What a platform shows is **watched**: whoever changes a value gives it the next version, and a
watcher knows which version it has seen last.  Values in between are not kept, so a watcher that
runs finds the value as it is then, and all that it can tell of the past is whether there is a
newer version than the one it has seen.

A **lookout** is a platform of watched values together with its waiters.  Waiters are called, run
and are dropped in any order, and in between the platform changes.  A waiter for an element or for
a media query goes round in a loop: it looks, and unless it finds what it waits for it is suspended
until there is a newer version (`Watched.observe`).  A waiter for an idle period does not look at
the value at all, it is suspended once.  A change wakes the waiters that are suspended at the
value that is changed.

A suspended waiter that has seen the present version has found nothing in it, and one that has not
has been woken (`Sound`).  So what a waiter does when it runs can be read off what is shown and the
versions (`Sound.finishes_iff_shows`, `finishes_iff_version`).
-/

namespace Hydration

/-- A value that is watched. -/
structure Watched (α : Type) where
  value : α
  /-- How often it has been changed. -/
  version : Nat := 0

namespace Lookout

/-- What a waiter waits for. -/
inductive Sight where
  | visible (el : ElementRef)
  | media (query : String)
  | idle
deriving DecidableEq

/-- How far a waiter has come. -/
inductive Progress where
  /-- It has not run yet. -/
  | called
  /-- It waits for a newer version than the one it has seen, and has been woken or not. -/
  | suspended (seen : Nat) (woken : Bool)
  /-- It has finished or has been dropped. -/
  | ended
deriving DecidableEq

/-- A waiter. -/
structure Waiter where
  sight : Sight
  progress : Progress
deriving DecidableEq

/-- What can happen. -/
inductive Happening where
  /-- The platform changes. -/
  | change (c : Change)
  /-- A waiter is called, which does not run it yet. -/
  | call (sight : Sight)
  /-- A waiter runs until it is suspended or finishes, whether it has been woken or not. -/
  | run (number : Nat)
  /-- A waiter is dropped. -/
  | drop (number : Nat)

end Lookout

namespace Watched

open Lookout

variable {α : Type}

/-- Changes the value, whether or not it becomes another one. -/
def change (w : Watched α) (f : α → α) : Watched α :=
  ⟨f w.value, w.version + 1⟩

/-- The value, and the version that has been seen with it. -/
def look (w : Watched α) : α × Nat :=
  (w.value, w.version)

/-- The present version, if it is newer than the one that has been seen. -/
def newer? (w : Watched α) (seen : Nat) : Option Nat :=
  if w.version = seen then none else some w.version

/-- **The loop of a waiter** that is suspended: once there is a newer version it looks, and unless it
finds what it waits for it is suspended again. -/
def follow (w : Watched α) (found : α → Bool) (seen : Nat) : Progress :=
  match _h : w.newer? seen with
  | none => .suspended seen false
  | some _ => if found w.look.1 then .ended else w.follow found w.look.2
termination_by (w.newer? seen).isSome.toNat
decreasing_by
  -- The version that has just been seen is the present one.
  rw [_h]
  simp [newer?, look]

/-- A waiter that begins looks first, and then goes round in the loop. -/
def observe (w : Watched α) (found : α → Bool) : Progress :=
  if found w.look.1 then .ended else w.follow found w.look.2

theorem newer?_eq_none {w : Watched α} {seen : Nat} :
    w.newer? seen = none ↔ w.version = seen := by
  rw [newer?]
  split <;> simp [*]

theorem follow_of_seen (w : Watched α) (found : α → Bool) :
    w.follow found w.version = .suspended w.version false := by
  rw [follow]
  split
  · rfl
  · next hnewer =>
    rw [newer?_eq_none.mpr rfl] at hnewer
    cases hnewer

/-- A waiter that has looked waits, for nothing has changed since. -/
theorem observe_eq (w : Watched α) (found : α → Bool) :
    w.observe found = if found w.value then .ended else .suspended w.version false := by
  rw [observe, look]
  dsimp only
  rw [follow_of_seen]

theorem follow_eq (w : Watched α) (found : α → Bool) (seen : Nat) : w.follow found seen =
    if w.version = seen then .suspended seen false else w.observe found := by
  by_cases h : w.version = seen
  · rw [if_pos h, ← h]
    exact follow_of_seen w found
  · rw [follow, if_neg h]
    split
    · next hnone => exact absurd (newer?_eq_none.mp hnone) h
    · rfl

end Watched

/-- A platform of watched values with its waiters, which have numbers in the order of their
calls. -/
structure Lookout where
  idleCallback : Bool := true
  visible : Watched (List ElementRef) := ⟨[], 0⟩
  media : Watched (List String) := ⟨[], 0⟩
  /-- The number of idle periods. -/
  idle : Watched Nat := ⟨0, 0⟩
  waiters : List Lookout.Waiter := []

namespace Lookout

/-! ## What happens -/

/-- A suspended waiter is woken. -/
def Progress.wake : Progress → Progress
  | suspended seen _ => suspended seen true
  | progress => progress

/-- Whether a change is one of the value that is looked at. -/
def Sight.concerns : Sight → Change → Bool
  | visible _, .visible _ _ => true
  | media _, .media _ _ => true
  | idle, .idle => true
  | _, _ => false

/-- The change that is waited for. -/
def Sight.awaited : Sight → Change
  | visible el => .visible el true
  | media query => .media query true
  | idle => .idle

variable (l : Lookout)

/-- The platform as it is. -/
def platform : Platform where
  idleCallback := l.idleCallback
  visible := l.visible.value
  media := l.media.value
  idlePeriods := l.idle.value

/-- Whether what is waited for is there at the moment; an idle period is over at once. -/
def shows : Sight → Bool
  | .visible el => l.platform.isVisible el
  | .media query => l.platform.mediaMatches query
  | .idle => false

/-- The present version of what is looked at. -/
def version : Sight → Nat
  | .visible _ => l.visible.version
  | .media _ => l.media.version
  | .idle => l.idle.version

/-- A waiter that is suspended goes on if there is a newer version than the one it has seen. -/
def await (seen : Nat) : Sight → Progress
  | .visible el => l.visible.follow (fun visible => decide (el ∈ visible)) seen
  | .media query => l.media.follow (fun media => decide (query ∈ media)) seen
  | .idle =>
    match l.idle.newer? seen with
    | none => .suspended seen false
    | some _ => .ended

/-- A waiter that runs for the first time watches from the present version on. -/
def begin : Sight → Progress
  | .visible el => l.visible.observe fun visible => decide (el ∈ visible)
  | .media query => l.media.observe fun media => decide (query ∈ media)
  | .idle => l.await l.idle.version .idle

/-- A waiter runs. -/
def turn (w : Waiter) : Progress :=
  match w.progress with
  | .called => l.begin w.sight
  | .suspended seen _ => l.await seen w.sight
  | .ended => .ended

/-- A change of the watched values. -/
def changed : Change → Lookout
  | .visible el on => { l with visible := l.visible.change (Platform.put el on) }
  | .media query on => { l with media := l.media.change (Platform.put query on) }
  | .idle => { l with idle := l.idle.change (· + 1) }
  | .event _ => l

/-- Something happens. -/
def act : Happening → Lookout
  | .change c =>
    { l.changed c with
      waiters := l.waiters.map fun w =>
        if w.sight.concerns c then { w with progress := w.progress.wake } else w }
  | .call sight => { l with waiters := l.waiters ++ [⟨sight, .called⟩] }
  | .run number =>
    { l with waiters := l.waiters.modify number fun w => { w with progress := l.turn w } }
  | .drop number =>
    { l with waiters := l.waiters.modify number fun w => { w with progress := .ended } }

/-- One thing happens after the other. -/
def play (happenings : List Happening) : Lookout :=
  happenings.foldl act l

/-- The lookout after some happenings from the beginning. -/
def after (idleCallback : Bool) (happenings : List Happening) : Lookout :=
  ({ idleCallback } : Lookout).play happenings

/-- The waiter with a number. -/
def waiter? (number : Nat) : Option Waiter :=
  l.waiters[number]?

/-- A waiter has not ended and does when it runs now. -/
def Finishes (number : Nat) : Prop :=
  ∃ w, l.waiter? number = some w ∧ w.progress ≠ .ended ∧
    (l.act (.run number)).waiter? number = some ⟨w.sight, .ended⟩

/-- A waiter is suspended and has been woken since it ran. -/
def IsWoken (number : Nat) : Prop :=
  ∃ sight seen, l.waiter? number = some ⟨sight, .suspended seen true⟩

variable {l} {happening : Happening} {happenings rest : List Happening} {number n seen : Nat}
  {sight : Sight} {c : Change} {w : Waiter} {woken : Bool} {idleCallback : Bool}

/-! ## What happens to the values and to a waiter -/

theorem play_concat : l.play (happenings ++ [happening]) = (l.play happenings).act happening :=
  List.foldl_concat ..

theorem play_append : l.play (happenings ++ rest) = (l.play happenings).play rest :=
  List.foldl_append ..

theorem after_concat : after idleCallback (happenings ++ [happening]) =
    (after idleCallback happenings).act happening :=
  play_concat

/-- The platform changes as it does for everybody else. -/
theorem platform_change (s : Surroundings) (h : s.platform = l.platform) (c : Change) :
    (s.after c).platform = (l.act (.change c)).platform := by
  cases c with
  | event e => exact h
  | _ =>
    rw [Surroundings.after, h]
    rfl

theorem version_change : (l.act (.change c)).version sight =
    l.version sight + if sight.concerns c then 1 else 0 := by
  cases c <;> cases sight <;> rfl

/-- A change of something else does not show. -/
theorem shows_change_of_not_concerns (h : sight.concerns c = false) :
    (l.act (.change c)).shows sight = l.shows sight := by
  cases c <;> cases sight <;> first | rfl | cases h

/-- Only the change that is waited for brings what is waited for. -/
theorem eq_awaited_of_shows (hbefore : l.shows sight = false)
    (hafter : (l.act (.change c)).shows sight = true) : c = sight.awaited := by
  by_cases hconcerns : sight.concerns c = true
  · cases sight with
    | visible el =>
      cases c with
      | visible el' on =>
        have hboth : (decide (el' = el) && on) = true :=
          (Trigger.mem_put_of_not_mem hbefore).symm.trans hafter
        obtain ⟨rfl, rfl⟩ : el' = el ∧ on = true := by simpa using hboth
        rfl
      | _ => cases hconcerns
    | media query =>
      cases c with
      | media query' on =>
        have hboth : (decide (query' = query) && on) = true :=
          (Trigger.mem_put_of_not_mem hbefore).symm.trans hafter
        obtain ⟨rfl, rfl⟩ : query' = query ∧ on = true := by simpa using hboth
        rfl
      | _ => cases hconcerns
    | idle => cases hafter
  · rw [shows_change_of_not_concerns (eq_false_of_ne_true hconcerns), hbefore] at hafter
    cases hafter

theorem waiter?_change : (l.act (.change c)).waiter? n = (l.waiter? n).map fun w =>
    if w.sight.concerns c then { w with progress := w.progress.wake } else w :=
  List.getElem?_map

theorem waiter?_call (h : l.waiter? n = some w) : (l.act (.call sight)).waiter? n = some w :=
  (List.getElem?_append_left (List.getElem?_eq_some_iff.mp h).1).trans h

theorem waiter?_run : (l.act (.run number)).waiter? n =
    if number = n then (l.waiter? n).map fun w => { w with progress := l.turn w }
    else l.waiter? n := by
  rw [waiter?, act, List.getElem?_modify]
  split
  · rfl
  · exact Option.map_id'

theorem waiter?_drop : (l.act (.drop number)).waiter? n =
    if number = n then (l.waiter? n).map fun w => { w with progress := .ended }
    else l.waiter? n := by
  rw [waiter?, act, List.getElem?_modify]
  split
  · rfl
  · exact Option.map_id'

/-- What becomes of the waiter with the number `n`. -/
def Waiter.next (w : Waiter) (l : Lookout) (n : Nat) : Happening → Waiter
  | .change c => if w.sight.concerns c then { w with progress := w.progress.wake } else w
  | .call _ => w
  | .run number => if number = n then { w with progress := l.turn w } else w
  | .drop number => if number = n then { w with progress := .ended } else w

theorem waiter?_act (hw : l.waiter? n = some w) (happening : Happening) :
    (l.act happening).waiter? n = some (w.next l n happening) := by
  cases happening with
  | change c =>
    rw [waiter?_change, hw]
    rfl
  | call sight => exact waiter?_call hw
  | run number =>
    rw [waiter?_run, hw, Waiter.next]
    by_cases hn : number = n
    · rw [if_pos hn, if_pos hn]
      rfl
    · rw [if_neg hn, if_neg hn]
  | drop number =>
    rw [waiter?_drop, hw, Waiter.next]
    by_cases hn : number = n
    · rw [if_pos hn, if_pos hn]
      rfl
    · rw [if_neg hn, if_neg hn]

/-- A waiter goes on waiting for the same thing. -/
theorem Waiter.sight_next : (w.next l n happening).sight = w.sight := by
  cases happening with
  | call sight => rfl
  | _ =>
    rw [next]
    split
    · rfl
    · rfl

theorem Waiter.next_of_ended (h : w.progress = .ended) : w.next l n happening = w := by
  obtain ⟨sight, progress⟩ := w
  obtain rfl : progress = .ended := h
  cases happening with
  | call sight => rfl
  | _ =>
    rw [next]
    split
    · rfl
    · rfl

/-! ## Turns -/

/-- **The first turn** of a waiter. -/
theorem begin_eq (l : Lookout) (sight : Sight) : l.begin sight =
    if l.shows sight then .ended else .suspended (l.version sight) false := by
  cases sight with
  | visible el => exact Watched.observe_eq l.visible fun visible => decide (el ∈ visible)
  | media query => exact Watched.observe_eq l.media fun media => decide (query ∈ media)
  | idle =>
    rw [begin, await, Watched.newer?_eq_none.mpr rfl]
    rfl

/-- **A turn of a suspended waiter.** -/
theorem await_eq (l : Lookout) (seen : Nat) (sight : Sight) : l.await seen sight =
    if l.version sight = seen then .suspended seen false
    else if sight = .idle then .ended
    else l.begin sight := by
  cases sight with
  | visible el => exact Watched.follow_eq l.visible _ seen
  | media query => exact Watched.follow_eq l.media _ seen
  | idle =>
    rw [await, Watched.newer?]
    by_cases h : l.idle.version = seen
    · rw [if_pos h]
      exact (if_pos h).symm
    · rw [if_neg h]
      exact (if_neg h).symm

theorem finishes_iff_turn (h : l.waiter? n = some w) :
    l.Finishes n ↔ w.progress ≠ .ended ∧ l.turn w = .ended := by
  have hrun : (l.act (.run n)).waiter? n = some { w with progress := l.turn w } := by
    rw [waiter?_run, if_pos rfl, h]
    rfl
  constructor
  · rintro ⟨w', hw', hopen, hended⟩
    obtain rfl := Option.some.inj (h.symm.trans hw')
    rw [hrun] at hended
    exact ⟨hopen, congrArg Waiter.progress (Option.some.inj hended)⟩
  · rintro ⟨hopen, hturn⟩
    exact ⟨w, h, hopen, hturn ▸ hrun⟩

/-! ## Soundness -/

/-- **A waiter is up to date**: if it is suspended and has seen the present version, it is not what
it waits for that is shown, and it has been woken exactly if there is a newer version. -/
def UpToDate (l : Lookout) (w : Waiter) : Prop :=
  ∀ seen woken, w.progress = .suspended seen woken →
    seen ≤ l.version w.sight ∧ (woken = true ↔ l.version w.sight ≠ seen) ∧
      (l.version w.sight = seen → l.shows w.sight = false)

/-- Idle periods are counted by their versions, and all waiters are up to date. -/
structure Sound (l : Lookout) : Prop where
  counts : l.idle.value = l.idle.version
  waiters : ∀ n w, l.waiter? n = some w → l.UpToDate w

/-- Who has just looked and is suspended is up to date. -/
theorem upToDate_of_seen (h : l.shows w.sight = false)
    (hseen : w.progress = .suspended (l.version w.sight) false) : l.UpToDate w := by
  intro seen woken hprogress
  rw [hseen] at hprogress
  cases hprogress
  exact ⟨Nat.le_refl _, by simp, fun _ => h⟩

theorem upToDate_begin (l : Lookout) (sight : Sight) : l.UpToDate ⟨sight, l.begin sight⟩ := by
  by_cases h : l.shows sight = true
  · intro seen woken hprogress
    rw [show (Waiter.mk sight (l.begin sight)).progress = l.begin sight from rfl, begin_eq,
      if_pos h] at hprogress
    cases hprogress
  · exact upToDate_of_seen (eq_false_of_ne_true h) ((begin_eq l sight).trans (if_neg h))

theorem UpToDate.turn (h : l.UpToDate w) : l.UpToDate { w with progress := l.turn w } := by
  obtain ⟨sight, progress⟩ := w
  cases progress with
  | called => exact upToDate_begin l sight
  | ended => nofun
  | suspended seen woken =>
    obtain ⟨-, -, hshows⟩ := h seen woken rfl
    show l.UpToDate ⟨sight, l.await seen sight⟩
    rw [await_eq]
    split
    · next hversion => exact upToDate_of_seen (hshows hversion) (by rw [hversion])
    · split
      · nofun
      · exact upToDate_begin l sight

theorem UpToDate.change (h : l.UpToDate w) (c : Change) : (l.act (.change c)).UpToDate
    (if w.sight.concerns c then { w with progress := w.progress.wake } else w) := by
  obtain ⟨sight, progress⟩ := w
  by_cases hconcerns : sight.concerns c = true
  · -- Whoever is concerned has been woken, and what it has seen is older now.
    rw [if_pos hconcerns]
    intro seen woken hprogress
    cases progress with
    | suspended seen' woken' =>
      obtain ⟨hle, -, -⟩ := h seen' woken' rfl
      obtain ⟨rfl, rfl⟩ := Progress.suspended.inj hprogress
      have hlt : seen' < (l.act (.change c)).version sight := by
        rw [version_change, if_pos hconcerns]
        exact Nat.lt_succ_of_le hle
      exact ⟨Nat.le_of_lt hlt, iff_of_true rfl (Nat.ne_of_gt hlt),
        fun heq => absurd heq (Nat.ne_of_gt hlt)⟩
    | called => cases hprogress
    | ended => cases hprogress
  · rw [if_neg hconcerns]
    intro seen woken hprogress
    have hold := h seen woken hprogress
    have hversion : (l.act (.change c)).version sight = l.version sight := by
      rw [version_change, if_neg hconcerns]
      rfl
    have hshows := shows_change_of_not_concerns (l := l) (eq_false_of_ne_true hconcerns)
    rw [← hversion, ← hshows] at hold
    exact hold

theorem Sound.act (h : l.Sound) (happening : Happening) : (l.act happening).Sound := by
  cases happening with
  | change c =>
    refine ⟨?_, fun n w hw => ?_⟩
    · cases c with
      | idle => exact congrArg (· + 1) h.counts
      | _ => exact h.counts
    · rw [waiter?_change] at hw
      obtain ⟨w', hw', rfl⟩ := Option.map_eq_some_iff.mp hw
      exact (h.waiters n w' hw').change c
  | call sight =>
    refine ⟨h.counts, fun n w hw => ?_⟩
    rcases List.mem_append.mp (List.mem_of_getElem? hw) with hold | hnew
    · obtain ⟨m, hm⟩ := List.getElem?_of_mem hold
      exact h.waiters m w hm
    · rw [List.mem_singleton.mp hnew]
      nofun
  | run number =>
    refine ⟨h.counts, fun n w hw => ?_⟩
    rw [waiter?_run] at hw
    split at hw
    · obtain ⟨w', hw', rfl⟩ := Option.map_eq_some_iff.mp hw
      exact (h.waiters n w' hw').turn
    · exact h.waiters n w hw
  | drop number =>
    refine ⟨h.counts, fun n w hw => ?_⟩
    rw [waiter?_drop] at hw
    split at hw
    · obtain ⟨w', hw', rfl⟩ := Option.map_eq_some_iff.mp hw
      nofun
    · exact h.waiters n w hw

theorem sound_after (idleCallback : Bool) (happenings : List Happening) :
    (after idleCallback happenings).Sound := by
  induction happenings using List.reverseRecOn with
  | nil => exact ⟨rfl, nofun⟩
  | append_singleton happenings happening ih =>
    rw [after_concat]
    exact ih.act happening

/-! ## When a waiter finishes -/

/-- A waiter for something that lasts finishes exactly if it is shown. -/
theorem Sound.finishes_iff_shows (h : l.Sound) (hw : l.waiter? n = some w)
    (hopen : w.progress ≠ .ended) (hsight : w.sight ≠ .idle) :
    l.Finishes n ↔ l.shows w.sight = true := by
  have hbegin : l.begin w.sight = .ended ↔ l.shows w.sight = true := by
    rw [begin_eq]
    split <;> simp [*]
  rw [finishes_iff_turn hw, and_iff_right hopen, turn]
  obtain ⟨sight, progress⟩ := w
  cases progress with
  | called => exact hbegin
  | ended => exact absurd rfl hopen
  | suspended seen woken =>
    obtain ⟨-, -, hshows⟩ := h.waiters n _ hw seen woken rfl
    show l.await seen sight = .ended ↔ _
    rw [await_eq]
    by_cases hversion : l.version sight = seen
    · rw [if_pos hversion]
      exact iff_of_false nofun (ne_true_of_eq_false (hshows hversion))
    · rw [if_neg hversion, if_neg (show ¬sight = .idle from hsight)]
      exact hbegin

theorem Sound.finishes_visible {el : ElementRef} {progress : Progress} (h : l.Sound)
    (hw : l.waiter? n = some ⟨.visible el, progress⟩) (hopen : progress ≠ .ended) :
    l.Finishes n ↔ l.platform.isVisible el = true :=
  h.finishes_iff_shows hw hopen nofun

theorem Sound.finishes_media {query : String} {progress : Progress} (h : l.Sound)
    (hw : l.waiter? n = some ⟨.media query, progress⟩) (hopen : progress ≠ .ended) :
    l.Finishes n ↔ l.platform.mediaMatches query = true :=
  h.finishes_iff_shows hw hopen nofun

/-- A suspended waiter for an idle period finishes exactly if there has been one since. -/
theorem finishes_iff_version (hw : l.waiter? n = some ⟨.idle, .suspended seen woken⟩) :
    l.Finishes n ↔ l.idle.version ≠ seen := by
  rw [finishes_iff_turn hw, and_iff_right nofun]
  show l.await seen .idle = .ended ↔ _
  rw [await_eq]
  by_cases h : l.idle.version = seen
  · rw [if_pos (show l.version .idle = seen from h)]
    exact iff_of_false nofun (not_not_intro h)
  · rw [if_neg (show ¬l.version .idle = seen from h), if_pos rfl]
    exact iff_of_true rfl h

theorem not_finishes_called_idle (hw : l.waiter? n = some ⟨.idle, .called⟩) : ¬l.Finishes n := by
  rw [finishes_iff_turn hw]
  rintro ⟨-, hturn⟩
  rw [show l.turn ⟨.idle, .called⟩ = l.begin .idle from rfl, begin_eq] at hturn
  cases hturn

/-- **No wakeup is lost**: a suspended waiter that would finish has been woken. -/
theorem Sound.isWoken (h : l.Sound) (hw : l.waiter? n = some ⟨sight, .suspended seen woken⟩)
    (hfinishes : l.Finishes n) : l.IsWoken n := by
  obtain ⟨-, hwoken, -⟩ := h.waiters n _ hw seen woken rfl
  have hnewer : l.version sight ≠ seen := by
    intro heq
    obtain ⟨-, hturn⟩ := (finishes_iff_turn hw).mp hfinishes
    rw [show l.turn ⟨sight, .suspended seen woken⟩ = l.await seen sight from rfl, await_eq,
      if_pos heq] at hturn
    cases hturn
  exact ⟨sight, seen, hwoken.mpr hnewer ▸ hw⟩

end Lookout

end Hydration
