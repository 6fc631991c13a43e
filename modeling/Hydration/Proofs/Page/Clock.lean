import Hydration.Proofs.Page.Turn

/-!
# Changes and the clock

A change of the surroundings and the passing of time queue the tasks whose waits become
ready, and of the others nothing becomes known; so only tasks that are due fall behind
(`Current.change`, `Current.setClock`).  A change is safe if everything that has happened
before it has been taken into account.

On a page with the built-in strategies all timers are due at one time, `idleFallback`.
The clock stops there while a page lets time pass (`Current.advance`).
-/

namespace Hydration.Page

variable {p q : Page} {el x : ElementRef} {S : Setting} {done : List Change} {now : Moment}
  {due : Nat → Prop} {i j : Nat} {t u : Task}

/-! ## Waking -/

theorem surroundings_enqueue (task : Nat) : (p.enqueue task).surroundings = p.surroundings := by
  obtain ⟨queue, h⟩ := enqueue_eq p task
  rw [h]

theorem sameTasks_enqueue (task : Nat) : SameTasks p (p.enqueue task) := by
  obtain ⟨queue, h⟩ := enqueue_eq p task
  rw [h]
  exact ⟨rfl, rfl, rfl, rfl⟩

theorem mem_queue_enqueue {task : Nat} : i ∈ (p.enqueue task).queue ↔ i ∈ p.queue ∨ i = task := by
  rw [enqueue]
  split
  · next h =>
    constructor
    · exact .inl
    · rintro (hi | rfl)
      · exact hi
      · exact h
  · simp

theorem SameTasks.trans {r : Page} (hpq : SameTasks p q) (hqr : SameTasks q r) : SameTasks p r :=
  ⟨hqr.1.trans hpq.1, hqr.2.trans hpq.2, hqr.3.trans hpq.3, hqr.4.trans hpq.4⟩

theorem wake_eq (key : Wait → Option Nat) : ∃ keyed : List (Nat × Nat),
    p.wake key = keyed.foldl (fun p k => p.enqueue k.2) p ∧
      ∀ (i k : Nat), (k, i) ∈ keyed ↔ ∃ t, p.tasks[i]? = some t ∧ k ∈ t.waits.filterMap key := by
  refine ⟨_, rfl, fun i k => ?_⟩
  rw [List.mem_mergeSort, List.mem_flatMap]
  constructor
  · rintro ⟨⟨t, i'⟩, ht, hk⟩
    obtain ⟨k', hk', heq⟩ := List.mem_map.mp hk
    cases heq
    exact ⟨t, List.mem_zipIdx_iff_getElem?.mp ht, hk'⟩
  · rintro ⟨t, ht, hk⟩
    exact ⟨(t, i), List.mem_zipIdx_iff_getElem?.mpr ht, List.mem_map.mpr ⟨k, hk, rfl⟩⟩

theorem enqueueAll_cases (keyed : List (Nat × Nat)) (p : Page) :
    SameTasks p (keyed.foldl (fun p k => p.enqueue k.2) p) ∧
      (keyed.foldl (fun p k => p.enqueue k.2) p).surroundings = p.surroundings ∧
      ∀ i, i ∈ (keyed.foldl (fun p k => p.enqueue k.2) p).queue ↔
        i ∈ p.queue ∨ ∃ k, (k, i) ∈ keyed := by
  induction keyed generalizing p with
  | nil => exact ⟨⟨rfl, rfl, rfl, rfl⟩, rfl, by simp⟩
  | cons k keyed ih =>
    obtain ⟨hsame, hsurroundings, hqueue⟩ := ih (p.enqueue k.2)
    refine ⟨(sameTasks_enqueue k.2).trans hsame, hsurroundings.trans (surroundings_enqueue k.2),
      fun i => ?_⟩
    rw [List.foldl_cons, hqueue, mem_queue_enqueue, or_assoc]
    apply or_congr_right
    constructor
    · rintro (rfl | ⟨n, hn⟩)
      · exact ⟨k.1, List.mem_cons_self⟩
      · exact ⟨n, List.mem_cons_of_mem _ hn⟩
    · rintro ⟨n, hn⟩
      rcases List.mem_cons.mp hn with hk | hn
      · exact .inl (congrArg Prod.snd hk)
      · exact .inr ⟨n, hn⟩

/-- **Waking** queues the tasks with a wait that has a key and does nothing else. -/
theorem wake_cases (key : Wait → Option Nat) : SameTasks p (p.wake key) ∧
    (p.wake key).surroundings = p.surroundings ∧
    ∀ i, i ∈ (p.wake key).queue ↔
      i ∈ p.queue ∨ ∃ t, p.tasks[i]? = some t ∧ ∃ v ∈ t.waits, (key v).isSome := by
  obtain ⟨keyed, hwake, hkeyed⟩ := wake_eq (p := p) key
  obtain ⟨hsame, hsurroundings, hqueue⟩ := enqueueAll_cases keyed p
  rw [hwake]
  refine ⟨hsame, hsurroundings, fun i => ?_⟩
  rw [hqueue]
  apply or_congr_right
  constructor
  · rintro ⟨k, hk⟩
    obtain ⟨t, ht, hk⟩ := (hkeyed i k).mp hk
    obtain ⟨v, hv, hkey⟩ := List.mem_filterMap.mp hk
    exact ⟨t, ht, v, hv, by rw [hkey]; rfl⟩
  · rintro ⟨t, ht, v, hv, hkey⟩
    obtain ⟨k, hk⟩ := Option.isSome_iff_exists.mp hkey
    exact ⟨k, (hkeyed i k).mpr ⟨t, ht, List.mem_filterMap.mpr ⟨v, hv, hk⟩⟩⟩

/-! ## Changes -/

variable {now' : Moment}

theorem AtStage.waits_eq {seen : Moment} (h : AtStage S seen now p t) :
    t.waits = (waitsOf t.status).map (·.wait) := by
  rw [AtStage] at h
  rw [Task.waits]
  generalize t.status = status at h
  cases h with
  | awaiting => exact List.append_nil _
  | _ => rfl

theorem AtStage.mem_waits {seen : Moment} (h : AtStage S seen now p t) {v : NamedWait}
    (hv : v ∈ waitsOf t.status) : v.wait ∈ t.waits := by
  rw [h.waits_eq]
  exact List.mem_map_of_mem hv

theorem AtStage.not_ready (h : AtStage S now now p t) {v : NamedWait}
    (hv : v ∈ waitsOf t.status) : v.wait.isReady p.surroundings = false := by
  obtain ⟨c, id, hnone, hstands⟩ := h.exists_trigger hv
  rw [hstands.ready, ← Trigger.known_eq_none]
  exact hnone

theorem AtStage.congr {seen : Moment} (h : AtStage S seen now p t)
    (hq : q.records = p.records)
    (hkeeps : ∀ (trigger : Trigger) v, v ∈ waitsOf t.status → trigger.known seen = none →
      trigger.Stands now p.surroundings v.wait → trigger.Stands now' q.surroundings v.wait) :
    AtStage S seen now' q t := by
  rw [AtStage, component?_congr hq]
  exact h.keeps hkeeps

/-- When the surroundings go on, a task none of whose waits becomes ready is at the stage of the
next moment. -/
theorem AtStage.goOn (h : AtStage S now now' q t) (hchanges : now.changes <+: now'.changes)
    (hclock : now.clock ≤ now'.clock)
    (hqueue : ∀ v ∈ waitsOf t.status, v.wait.isReady q.surroundings = true → i ∈ q.queue) :
    AtStage S now' now' q t ∨ i ∈ q.queue ∧ Behind S now.changes now' q t := by
  by_cases hready : ∃ v ∈ waitsOf t.status, v.wait.isReady q.surroundings = true
  · obtain ⟨v, hv, hready⟩ := hready
    exact .inr ⟨hqueue v hv hready, .lagging hclock h⟩
  · refine .inl (h.catchUp hchanges hclock fun v hv => ?_)
    exact (Bool.not_eq_true _).mp fun hv' => hready ⟨v, hv, hv'⟩

/-- The page after a change of its surroundings. -/
def change (p : Page) (c : Change) : Page :=
  wake { p with surroundings := p.surroundings.after c } c.key

theorem setVisible_eq (on : Bool) : p.setVisible el on = p.change (.visible el on) := by
  rw [setVisible, change]
  congr
  funext v
  cases v <;> rfl

theorem setMedia_eq (query : String) (on : Bool) :
    p.setMedia query on = p.change (.media query on) := by
  rw [setMedia, change]
  congr
  funext v
  cases v <;> rfl

theorem triggerIdle_eq : p.triggerIdle = p.change .idle := by
  rw [triggerIdle, change]
  congr
  funext v
  cases v <;> rfl

theorem publish_eq (e : Event) : (p.publish e).2 = p.change (.event e) := by
  rw [publish, change]
  dsimp only
  congr
  funext v
  cases v <;> rfl

theorem sameTasks_surroundings (s : Surroundings) : SameTasks p { p with surroundings := s } :=
  ⟨rfl, rfl, rfl, rfl⟩

/-- **A change** does nothing to the tasks but queue those whose waits it makes ready. -/
theorem change_cases (c : Change) : SameTasks p (p.change c) ∧
    (p.change c).surroundings = p.surroundings.after c ∧
    ∀ i, i ∈ (p.change c).queue ↔
      i ∈ p.queue ∨ ∃ t, p.tasks[i]? = some t ∧ ∃ v ∈ t.waits, (c.key v).isSome := by
  obtain ⟨hsame, hsurroundings, hqueue⟩ :=
    wake_cases (p := { p with surroundings := p.surroundings.after c }) c.key
  exact ⟨(sameTasks_surroundings _).trans hsame, hsurroundings, hqueue⟩

/-- A task that has taken all earlier changes into account is where it was. -/
theorem AtStage.change {seen : Moment} (h : AtStage S seen now p t)
    (hseen : seen.changes = now.changes) (c : Change) :
    AtStage S seen ⟨now.changes ++ [c], now.clock⟩ (p.change c) t := by
  obtain ⟨hsame, hsurroundings, -⟩ := change_cases (p := p) c
  refine h.congr hsame.records fun trigger v _ hnone hstands => ?_
  rw [hsurroundings]
  refine hstands.change ?_ c
  rw [← hseen]
  exact Trigger.not_fired (Trigger.known_eq_none.mp hnone)

/-- **A change** on a page that does not begin, when all changes before it have been taken into
account. -/
theorem Current.change {changes : List Change} {clock : Nat}
    (h : Current S changes ⟨changes, clock⟩ (· ∈ p.queue) p) (hpositive : 0 < clock) (c : Change) :
    Current S changes ⟨changes ++ [c], clock⟩ (· ∈ (p.change c).queue) (p.change c) := by
  obtain ⟨hsame, hsurroundings, hqueue⟩ := change_cases (p := p) c
  have hprefix : changes <+: changes ++ [c] := List.prefix_append _ _
  refine h.goOn hsame hprefix ?_ ?_ fun i t ht hstage => ?_
  · rw [hsurroundings]
    cases c <;> exact h.clock
  · rw [hsurroundings]
    cases c with
    | event e => exact h.numbered.publish e
    | _ => exact h.numbered
  · rcases hstage with hnow | ⟨hi, hbehind⟩
    · refine (hnow.change rfl c).goOn hprefix (Nat.le_refl _) fun v hv hready => ?_
      rw [hsurroundings] at hready
      rw [hqueue]
      exact .inr ⟨t, ht, v.wait, hnow.mem_waits hv, Change.isSome_key (hnow.not_ready hv) hready⟩
    · refine .inr ⟨(hqueue i).mpr (.inl hi), ?_⟩
      cases hbehind with
      | lagging hclock hlag => exact .lagging hclock (hlag.change rfl c)
      | fresh hbegins => exact absurd (congrArg Moment.clock hbegins) (Nat.ne_of_gt hpositive)

/-! ## Timers -/

/-- **All timers** of a page with the built-in strategies are due at one time that has not come. -/
theorem AtStage.due_eq (h : AtStage S now now p t)
    (hclock : p.surroundings.now = now.clock) {v : Wait} (hv : v ∈ t.waits) {due : Nat}
    (hdue : v.due? = some due) : due = Strategy.idleFallback ∧ now.clock < due := by
  rw [h.waits_eq] at hv
  obtain ⟨named, hnamed, rfl⟩ := List.mem_map.mp hv
  have hready := h.not_ready hnamed
  obtain ⟨c, id, -, hfits, -⟩ := h.exists_trigger hnamed
  cases hwait : named.wait with
  | timer ticket due' outcome =>
    rw [hwait] at hdue hready hfits
    obtain rfl := Option.some.inj hdue
    rw [Wait.isReady, hclock, decide_eq_false_iff_not, Nat.not_le] at hready
    exact ⟨Condition.eq_of_trigger_after (Trigger.eq_of_fits_timer hfits), hready⟩
  | _ =>
    rw [hwait] at hdue
    cases hdue

theorem Current.due_eq (h : Current S done now (fun _ => False) p)
    (ht : p.tasks[i]? = some t) {v : Wait} (hv : v ∈ t.waits) {time : Nat}
    (htime : v.due? = some time) : time = Strategy.idleFallback ∧ now.clock < time := by
  rcases h.stage i t ht with hnow | ⟨hi, -⟩
  · exact hnow.due_eq h.clock hv htime
  · exact hi.elim

/-- The key of a timer that is due at a time. -/
def dueKey (time : Nat) : Wait → Option Nat
  | .timer ticket due _ => if due = time then some ticket else none
  | _ => none

theorem setClock_eq (time : Nat) : p.setClock time =
    wake { p with surroundings := { p.surroundings with now := time } } (dueKey time) := by
  rw [setClock]
  congr

/-- **The clock** does nothing to the tasks but queue those whose timers are due. -/
theorem setClock_cases (time : Nat) : SameTasks p (p.setClock time) ∧
    (p.setClock time).surroundings = { p.surroundings with now := time } ∧
    ∀ i, i ∈ (p.setClock time).queue ↔
      i ∈ p.queue ∨ ∃ t, p.tasks[i]? = some t ∧ ∃ v ∈ t.waits, (dueKey time v).isSome := by
  obtain ⟨hsame, hsurroundings, hqueue⟩ :=
    wake_cases (p := { p with surroundings := { p.surroundings with now := time } }) (dueKey time)
  rw [← setClock_eq] at hsame hsurroundings hqueue
  exact ⟨(sameTasks_surroundings _).trans hsame, hsurroundings, hqueue⟩

theorem AtStage.setClock {seen : Moment} (h : AtStage S seen now p t) (time : Nat) :
    AtStage S seen ⟨now.changes, time⟩ (p.setClock time) t := by
  obtain ⟨hsame, hsurroundings, -⟩ := setClock_cases (p := p) time
  refine h.congr hsame.records fun trigger v _ _ hstands => ?_
  rw [hsurroundings]
  exact hstands.pass time

/-- **The clock** moves on to a time before which no timer is due. -/
theorem Current.setClock (h : Current S done now (fun _ => False) p) {time : Nat}
    (hle : now.clock ≤ time)
    (htimers : ∀ (i : Nat) (t : Task), p.tasks[i]? = some t → ∀ v ∈ t.waits, ∀ due,
      v.due? = some due → time ≤ due) :
    Current S now.changes ⟨now.changes, time⟩ (· ∈ (p.setClock time).queue) (p.setClock time) := by
  obtain ⟨hsame, hsurroundings, hqueue⟩ := setClock_cases (p := p) time
  refine h.goOn hsame List.prefix_rfl ?_ ?_ fun i t ht hstage => ?_
  · rw [hsurroundings]
  · rw [hsurroundings]
    exact h.numbered
  · rcases hstage with hnow | ⟨hi, -⟩
    · refine (hnow.setClock time).goOn List.prefix_rfl hle fun v hv hready => ?_
      rw [hsurroundings] at hready
      rw [hqueue]
      refine .inr ⟨t, ht, v.wait, hnow.mem_waits hv, ?_⟩
      -- A wait that only the clock makes ready is a timer that is due at this very time.
      obtain ⟨ticket, due, outcome, hwait, hdue⟩ :=
        Wait.exists_timer_of_isReady (hnow.not_ready hv) hready
      have hlater := htimers i t ht v.wait (hnow.mem_waits hv) due (by rw [hwait]; rfl)
      rw [hwait, dueKey, if_pos (Nat.le_antisymm hdue hlater)]
      rfl
    · exact hi.elim

/-- Time that passes before any timer is due does not matter. -/
theorem Current.pass (h : Current S done now (fun _ => False) p) {time : Nat}
    (hle : now.clock ≤ time)
    (htimers : ∀ (i : Nat) (t : Task), p.tasks[i]? = some t → ∀ v ∈ t.waits, ∀ due,
      v.due? = some due → time < due) :
    Current S now.changes ⟨now.changes, time⟩ (fun _ => False)
      { p with surroundings := { p.surroundings with now := time } } := by
  refine h.goOn (sameTasks_surroundings _) List.prefix_rfl rfl h.numbered fun i t ht hstage => ?_
  rcases hstage with hnow | ⟨hi, -⟩
  · have hlag : AtStage S now ⟨now.changes, time⟩
        { p with surroundings := { p.surroundings with now := time } } t :=
      hnow.congr rfl fun trigger v _ _ hstands => hstands.pass time
    refine .inl (hlag.catchUp List.prefix_rfl hle fun v hv =>
      (Bool.not_eq_true _).mp fun hready => ?_)
    obtain ⟨ticket, due, outcome, hwait, hdue⟩ :=
      Wait.exists_timer_of_isReady (hnow.not_ready hv) hready
    have hlater := htimers i t ht v.wait (hnow.mem_waits hv) due (by rw [hwait]; rfl)
    omega
  · exact hi.elim

theorem mem_dueBefore {limit time : Nat} :
    time ∈ p.dueBefore limit ↔ time < limit ∧ ∃ t ∈ p.tasks, ∃ v ∈ t.waits, v.due? = some time := by
  rw [dueBefore, List.mem_mergeSort, List.mem_filter, List.mem_flatMap, decide_eq_true_eq, and_comm]
  refine and_congr_right fun _ => ?_
  simp only [List.mem_filterMap]

/-- The page settles at the time of all timers, as often as there are any. -/
theorem Current.settleAll (h : Current S done now (fun _ => False) p)
    {times : List Nat} (htimes : ∀ time ∈ times, time = Strategy.idleFallback)
    (hclock : times ≠ [] → now.clock ≤ Strategy.idleFallback) :
    Current S now.changes
      ⟨now.changes, if times = [] then now.clock else Strategy.idleFallback⟩ (fun _ => False)
      (times.foldl settleAt p) := by
  induction times generalizing p now done with
  | nil => exact h.redue List.prefix_rfl fun _ _ _ hi => hi.elim
  | cons time times ih =>
    obtain rfl := htimes time List.mem_cons_self
    have hset := h.setClock (hclock (List.cons_ne_nil _ _)) fun i t ht v hv due hdue =>
      Nat.le_of_eq (h.due_eq ht hv hdue).1.symm
    have hrest := ih hset.settle (fun x hx => htimes x (List.mem_cons_of_mem _ hx))
      fun _ => Nat.le_refl _
    rw [ite_self] at hrest
    rw [if_neg (List.cons_ne_nil _ _)]
    exact hrest

/-- **The timers before a limit** run out below it, and none of them is left. -/
theorem Current.settleDue (h : Current S done now (· ∈ p.queue) p) {limit : Nat}
    (hlimit : now.clock < limit) : ∃ clock, clock < limit ∧
      Current S now.changes ⟨now.changes, clock⟩ (fun _ => False)
        ((p.settle.dueBefore limit).foldl settleAt p.settle) ∧
      ∀ (i : Nat) (t : Task), ((p.settle.dueBefore limit).foldl settleAt p.settle).tasks[i]? =
        some t → ∀ v ∈ t.waits, ∀ due, v.due? = some due → limit ≤ due := by
  have hsettled := h.settle
  have hdue : ∀ time ∈ p.settle.dueBefore limit,
      time < limit ∧ time = Strategy.idleFallback ∧ now.clock < time := by
    intro time htime
    obtain ⟨hlimit, t, ht, v, hv, hdue⟩ := mem_dueBefore.mp htime
    obtain ⟨i, hi⟩ := List.getElem?_of_mem ht
    exact ⟨hlimit, hsettled.due_eq hi hv hdue⟩
  have hall := hsettled.settleAll (fun time htime => (hdue time htime).2.1) fun hne => by
    obtain ⟨time, htime⟩ := List.exists_mem_of_ne_nil _ hne
    obtain ⟨-, rfl, hlt⟩ := hdue time htime
    exact Nat.le_of_lt hlt
  cases htimes : p.settle.dueBefore limit with
  | nil =>
    -- The clock has not stopped, and a timer that is due before the limit would have been found.
    rw [htimes] at hall
    refine ⟨now.clock, hlimit, hall, fun i t ht v hv due hdue => ?_⟩
    by_contra hlt
    have hmem : due ∈ p.settle.dueBefore limit :=
      mem_dueBefore.mpr ⟨Nat.lt_of_not_le hlt, t, List.mem_of_getElem? ht, v, hv, hdue⟩
    rw [htimes] at hmem
    cases hmem
  | cons time times =>
    -- The clock has stopped at the time of all timers, so none is left.
    obtain ⟨hbefore, rfl, -⟩ := hdue time (by rw [htimes]; exact List.mem_cons_self)
    rw [htimes, if_neg (List.cons_ne_nil _ _)] at hall
    refine ⟨_, hbefore, hall, fun i t ht v hv due hdue => ?_⟩
    obtain ⟨rfl, hlt⟩ := hall.due_eq ht hv hdue
    exact absurd hlt (Nat.lt_irrefl _)

/-- **Time passes** on a page.  In the last millisecond before the end every task has taken into
account what has happened. -/
theorem Current.advance (h : Current S done now (· ∈ p.queue) p) {duration : Nat}
    (hpositive : 0 < duration) :
    Current S now.changes ⟨now.changes, now.clock + duration⟩ (· ∈ (p.advance duration).queue)
        (p.advance duration) ∧
      ∀ (i : Nat) (t : Task), (p.advance duration).tasks[i]? = some t →
        AtStage S ⟨now.changes, now.clock + duration - 1⟩ ⟨now.changes, now.clock + duration⟩
          (p.advance duration) t := by
  rw [Page.advance, if_neg (Nat.pos_iff_ne_zero.mp hpositive), h.clock]
  dsimp only
  obtain ⟨clock, hclock, hall, htimers⟩ :=
    h.settleDue (Nat.lt_add_of_pos_right hpositive : now.clock < now.clock + duration)
  generalize (p.settle.dueBefore (now.clock + duration)).foldl settleAt p.settle = r at hall htimers
  -- What timers are left are not due before the end, so the clock may pause right before it.
  have hpass : Current S now.changes ⟨now.changes, now.clock + duration - 1⟩ (fun _ => False)
      { r with surroundings := { r.surroundings with now := now.clock + duration - 1 } } := by
    refine hall.pass (Nat.le_sub_one_of_lt hclock) fun i t ht v hv due hdue => ?_
    have hlater := htimers i t ht v hv due hdue
    omega
  refine ⟨hpass.setClock (Nat.sub_le _ 1) htimers, fun i t ht => ?_⟩
  have ht' : r.tasks[i]? = some t := by
    rw [tasks_congr (setClock_cases (now.clock + duration)).1.records] at ht
    exact ht
  rcases hpass.stage i t ht' with hstage | ⟨hi, -⟩
  · exact hstage.setClock (now.clock + duration)
  · exact hi.elim

end Hydration.Page
