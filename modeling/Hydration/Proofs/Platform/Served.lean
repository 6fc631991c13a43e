import Hydration.Page.Command
import Hydration.Proofs.Page.Clock
import Hydration.Proofs.Platform.Lookout

/-!
# What the waiters of a platform are told

A waiter for an element or a media query finishes when it runs and what it waits for is there at
that moment, and a waiter for an idle period when it runs for the first time after there has been
one since it began.  Only the change that is waited for enables a waiter to finish, and it wakes
the waiter.  `Serves` lists this for any course of happenings, and `serves_after` proves it.

The strategies `visible`, `media` and `idle` are such waiters: they begin as a waiter that runs for
the first time (`Sound.start`), they go on as one that runs again (`Sound.resume`), and a task is
queued on its page when one of its waits is woken (`Sound.queued`).
-/

namespace Hydration

/-- The strategy as a waiter of a platform, if it is one. -/
def Strategy.sight? (platform : Platform) (component : ComponentHandle)
    (argument : Option String) : Strategy → Option Lookout.Sight
  | visible => some (.visible component.element)
  | media => (given argument).map fun text => .media (mediaQuery text)
  | idle => if platform.idleCallback then some .idle else none
  | _ => none

/-- The command that brings a change about. -/
def Change.command : Change → Command
  | visible el on => .setVisible el on
  | media query on => .setMedia query on
  | idle => .triggerIdle
  | event e => .publish e

theorem Page.perform_command (p : Page) (c : Change) : (p.perform c.command).2 = p.change c := by
  cases c with
  | visible el on => exact setVisible_eq on
  | media query on => exact setMedia_eq query on
  | idle => exact triggerIdle_eq
  | event e => exact publish_eq e

namespace Lookout

variable {l : Lookout} {happening : Happening} {happenings since : List Happening}
  {n seen ticket : Nat} {sight : Sight} {c : Change} {w : Waiter} {wait : Wait} {s : Surroundings}
  {woken idleCallback : Bool}

/-- A waiter waits for a newer version. -/
def Waiter.IsSuspended (w : Waiter) : Prop :=
  ∃ sight seen woken, w = ⟨sight, .suspended seen woken⟩

theorem Waiter.IsSuspended.open (h : w.IsSuspended) : w.progress ≠ .ended := by
  obtain ⟨sight, seen, woken, rfl⟩ := h
  nofun

/-! ## Waiters for an idle period -/

/-- **An idle waiter** has not seen anything since it was suspended, or it has ended. -/
def StandsIdle (l : Lookout) (n seen : Nat) : Prop :=
  (∃ woken, l.waiter? n = some ⟨.idle, .suspended seen woken⟩) ∨
    l.waiter? n = some ⟨.idle, .ended⟩

theorem StandsIdle.act (h : l.StandsIdle n seen) (happening : Happening) :
    (l.act happening).StandsIdle n seen := by
  rcases h with ⟨woken, hw⟩ | hw
  · rw [StandsIdle, waiter?_act hw]
    cases happening with
    | change c =>
      by_cases hconcerns : Sight.idle.concerns c = true
      · exact .inl ⟨true, congrArg some (if_pos hconcerns)⟩
      · exact .inl ⟨woken, congrArg some (if_neg hconcerns)⟩
    | call sight => exact .inl ⟨woken, rfl⟩
    | run number =>
      by_cases hn : number = n
      · rw [Waiter.next, if_pos hn,
          show l.turn ⟨.idle, .suspended seen woken⟩ = l.await seen .idle from rfl, await_eq]
        split
        · exact .inl ⟨false, rfl⟩
        · exact .inr rfl
      · exact .inl ⟨woken, congrArg some (if_neg hn)⟩
    | drop number =>
      by_cases hn : number = n
      · exact .inr (congrArg some (if_pos hn))
      · exact .inl ⟨woken, congrArg some (if_neg hn)⟩
  · right
    rw [waiter?_act hw, Waiter.next_of_ended rfl]

theorem StandsIdle.play (h : l.StandsIdle n seen) (since : List Happening) :
    (l.play since).StandsIdle n seen := by
  induction since generalizing l with
  | nil => exact h
  | cons happening since ih => exact ih (h.act happening)

/-- Whether an idle period has happened. -/
def Happening.isIdle : Happening → Bool
  | change .idle => true
  | _ => false

theorem idle_play (l : Lookout) (since : List Happening) :
    (l.play since).idle.version = l.idle.version + since.countP Happening.isIdle := by
  induction since generalizing l with
  | nil => rfl
  | cons happening since ih =>
    show ((l.act happening).play since).idle.version = _
    have hstep : (l.act happening).idle.version =
        l.idle.version + if happening.isIdle then 1 else 0 := by
      cases happening with
      | change c => cases c <;> rfl
      | _ => rfl
    rw [ih, hstep, List.countP_cons]
    omega

theorem countP_isIdle_ne_zero :
    since.countP Happening.isIdle ≠ 0 ↔ .change .idle ∈ since := by
  rw [← Nat.pos_iff_ne_zero, List.countP_pos_iff]
  constructor
  · rintro ⟨happening, hmem, hidle⟩
    cases happening with
    | change c =>
      cases c with
      | idle => exact hmem
      | _ => cases hidle
    | _ => cases hidle
  · intro hmem
    exact ⟨_, hmem, rfl⟩

/-- **A waiter for an idle period** that has begun finishes exactly if there has been one since. -/
theorem finishes_idle_iff (hcalled : l.waiter? n = some ⟨.idle, .called⟩)
    (hopen : (l.play (.run n :: since)).waiter? n ≠ some ⟨.idle, .ended⟩) :
    (l.play (.run n :: since)).Finishes n ↔ .change .idle ∈ since := by
  have hbegun : (l.act (.run n)).waiter? n = some ⟨.idle, .suspended l.idle.version false⟩ := by
    rw [waiter?_run, if_pos rfl, hcalled]
    exact congrArg (fun progress => some (Waiter.mk .idle progress)) (begin_eq l .idle)
  have hstands : (l.act (.run n)).StandsIdle n l.idle.version := .inl ⟨false, hbegun⟩
  rcases hstands.play since with ⟨woken, hw⟩ | hended
  · show ((l.act (.run n)).play since).Finishes n ↔ _
    rw [finishes_iff_version hw]
    show ((l.act (.run n)).play since).idle.version ≠ _ ↔ _
    rw [idle_play, ← countP_isIdle_ne_zero]
    show l.idle.version + _ ≠ _ ↔ _
    omega
  · exact absurd hended hopen

/-! ## What enables a waiter to finish -/

/-- Nothing but changes is a matter of what is shown. -/
theorem shows_act (hchange : ∀ c, happening ≠ .change c) :
    (l.act happening).shows sight = l.shows sight := by
  cases happening with
  | change c => exact absurd rfl (hchange c)
  | _ => cases sight <;> rfl

/-- **Only the change that is waited for** enables a suspended waiter to finish. -/
theorem Sound.eq_awaited (h : l.Sound) (hw : l.waiter? n = some w) (hsuspended : w.IsSuspended)
    (hbefore : ¬l.Finishes n) (hafter : (l.act happening).Finishes n) :
    happening = .change w.sight.awaited := by
  have hopen := hsuspended.open
  obtain ⟨sight, seen, woken, rfl⟩ := hsuspended
  by_cases hsight : sight = .idle
  · subst hsight
    rw [finishes_iff_version hw, ne_eq, not_not] at hbefore
    rcases (StandsIdle.act (.inl ⟨woken, hw⟩) happening : _ ∨ _) with ⟨woken', hw'⟩ | hended
    · rw [finishes_iff_version hw'] at hafter
      cases happening with
      | change c =>
        cases c with
        | idle => rfl
        | _ => exact absurd hbefore hafter
      | _ => exact absurd hbefore hafter
    · exact absurd rfl ((finishes_iff_turn hended).mp hafter).1
  · have hnot : l.shows sight = false := by
      rw [h.finishes_iff_shows hw hopen hsight] at hbefore
      exact eq_false_of_ne_true hbefore
    have hw' := waiter?_act hw happening
    have hopen' := ((finishes_iff_turn hw').mp hafter).1
    rw [(h.act happening).finishes_iff_shows hw' hopen' (by rwa [Waiter.sight_next]),
      Waiter.sight_next] at hafter
    by_cases hchange : ∃ c, happening = .change c
    · obtain ⟨c, rfl⟩ := hchange
      exact congrArg _ (eq_awaited_of_shows hnot hafter)
    · rw [shows_act fun c hc => hchange ⟨c, hc⟩] at hafter
      exact absurd (hafter.symm.trans hnot) (by decide)

/-- A change leaves a suspended waiter suspended. -/
theorem waiter?_suspended (hw : l.waiter? n = some ⟨sight, .suspended seen woken⟩) (c : Change) :
    ∃ woken, (l.act (.change c)).waiter? n = some ⟨sight, .suspended seen woken⟩ := by
  rw [waiter?_change, hw, Option.map_some]
  split
  · exact ⟨true, rfl⟩
  · exact ⟨woken, rfl⟩

/-- **A change that enables a waiter to finish wakes it.** -/
theorem Sound.isWoken_act (h : l.Sound) (hw : l.waiter? n = some w) (hsuspended : w.IsSuspended)
    (hafter : (l.act (.change c)).Finishes n) : (l.act (.change c)).IsWoken n := by
  obtain ⟨sight, seen, woken, rfl⟩ := hsuspended
  obtain ⟨woken', hw'⟩ := waiter?_suspended hw c
  exact (h.act _).isWoken hw' hafter

/-! ## Strategies -/

/-- The wait that a strategy has as a suspended waiter. -/
def Waiter.wait? (ticket : Nat) : Waiter → Option Wait
  | ⟨.visible el, .suspended _ _⟩ => some (.visible ticket el)
  | ⟨.media query, .suspended _ _⟩ => some (.media ticket query)
  | ⟨.idle, .suspended seen _⟩ => some (.idle ticket seen)
  | _ => none

theorem Waiter.isSuspended_of_wait? (h : w.wait? ticket = some wait) : w.IsSuspended := by
  obtain ⟨sight, progress⟩ := w
  cases progress with
  | suspended seen woken => exact ⟨sight, seen, woken, rfl⟩
  | called => cases sight <;> cases h
  | ended => cases sight <;> cases h

/-- The wait of a strategy is ready exactly if the waiter finishes. -/
theorem Sound.isReady_iff (h : l.Sound) (hs : s.platform = l.platform)
    (hw : l.waiter? n = some w) (hwait : w.wait? ticket = some wait) :
    wait.isReady s = true ↔ l.Finishes n := by
  have hsuspended := Waiter.isSuspended_of_wait? hwait
  have hopen := hsuspended.open
  obtain ⟨sight, seen, woken, rfl⟩ := hsuspended
  cases sight with
  | visible el =>
    obtain rfl := Option.some.inj hwait
    rw [h.finishes_visible hw hopen, Wait.isReady, hs]
  | media query =>
    obtain rfl := Option.some.inj hwait
    rw [h.finishes_media hw hopen, Wait.isReady, hs]
  | idle =>
    obtain rfl := Option.some.inj hwait
    obtain ⟨hle, -, -⟩ := h.waiters n _ hw seen woken rfl
    have hle : seen ≤ l.idle.version := hle
    rw [finishes_iff_version hw, Wait.isReady, hs, decide_eq_true_eq]
    show seen < l.idle.value ↔ _
    rw [h.counts]
    omega

/-- **A strategy goes on** as a waiter that runs again. -/
theorem Sound.resume (h : l.Sound) (hs : s.platform = l.platform) (hw : l.waiter? n = some w)
    (hwait : w.wait? ticket = some wait) (name : String) :
    (l.Finishes n → wait.resume name s = (.succeeded, s)) ∧
      (¬l.Finishes n → wait.resume name s = (.waiting wait, s)) := by
  have hready := h.isReady_iff hs hw hwait
  obtain ⟨hserved, hending, hstate⟩ : wait.isServed s = true ∧ wait.ending name = .succeeded ∧
      (wait.resume name s).2 = s := by
    obtain ⟨sight, seen, woken, rfl⟩ := Waiter.isSuspended_of_wait? hwait
    cases sight <;>
    · obtain rfl := Option.some.inj hwait
      exact ⟨rfl, rfl, Wait.resume_snd⟩
  have hresult : (wait.resume name s).1 =
      if wait.isReady s then wait.ending name else .waiting wait :=
    Wait.resume_fst hserved
  constructor
  · intro hfinishes
    rw [if_pos (hready.mpr hfinishes), hending] at hresult
    exact Prod.ext hresult hstate
  · intro hnot
    rw [if_neg (fun hr => hnot (hready.mp hr))] at hresult
    exact Prod.ext hresult hstate

/-- **A strategy begins** as a waiter that runs for the first time. -/
theorem Sound.start (h : l.Sound) (hs : s.platform = l.platform) {component : ComponentHandle}
    {argument : Option String} {strategy : Strategy}
    (hsight : strategy.sight? s.platform component argument = some sight)
    (hw : l.waiter? n = some ⟨sight, .called⟩) (name : String) :
    (l.Finishes n → strategy.start name component argument s = (.succeeded, s)) ∧
      (¬l.Finishes n → ∃ begun wait, (l.act (.run n)).waiter? n = some begun ∧
        begun.wait? s.nextTicket = some wait ∧
        strategy.start name component argument s =
          (.waiting wait, { s with nextTicket := s.nextTicket + 1 })) := by
  have hrun : (l.act (.run n)).waiter? n = some ⟨sight, l.begin sight⟩ := by
    rw [waiter?_run, if_pos rfl, hw]
    rfl
  rw [begin_eq] at hrun
  have hopen : Progress.called ≠ .ended := nofun
  cases strategy with
  | visible =>
    obtain rfl := Option.some.inj hsight
    rw [h.finishes_visible hw hopen, Strategy.start, hs]
    constructor
    · intro hshows
      rw [if_pos hshows]
    · intro hnot
      rw [if_neg (show ¬l.shows (.visible component.element) = true from hnot)] at hrun
      exact ⟨_, _, hrun, rfl, if_neg hnot⟩
  | media =>
    obtain ⟨text, htext, rfl⟩ := Option.map_eq_some_iff.mp hsight
    rw [h.finishes_media hw hopen, Strategy.start, htext, hs]
    constructor
    · intro hshows
      exact if_pos hshows
    · intro hnot
      rw [if_neg (show ¬l.shows (.media (Strategy.mediaQuery text)) = true from hnot)] at hrun
      exact ⟨_, _, hrun, rfl, if_neg hnot⟩
  | idle =>
    rw [Strategy.sight?] at hsight
    split at hsight
    · next hcallback =>
      obtain rfl := Option.some.inj hsight
      refine ⟨fun hfinishes => absurd hfinishes (not_finishes_called_idle hw), fun _ => ?_⟩
      refine ⟨_, _, hrun, rfl, ?_⟩
      rw [Strategy.start, if_pos hcallback, hs]
      show (Signal.waiting (Wait.idle _ l.idle.value), _) = _
      rw [h.counts]
      rfl
    · cases hsight
  | _ => cases hsight

/-- **A task is queued** when a change enables one of its waits to finish. -/
theorem Sound.queued (h : l.Sound) {p : Page} {i : Nat} {t : Task}
    (hp : p.surroundings.platform = l.platform) (ht : p.tasks[i]? = some t)
    (hmem : wait ∈ t.waits) (hw : l.waiter? n = some w) (hwait : w.wait? ticket = some wait)
    (hbefore : ¬l.Finishes n) (hafter : (l.act (.change c)).Finishes n) :
    i ∈ (p.perform c.command).2.queue := by
  obtain ⟨-, hsurroundings, hqueue⟩ := Page.change_cases (p := p) c
  rw [Page.perform_command, hqueue]
  refine .inr ⟨t, ht, wait, hmem, Change.isSome_key (s := p.surroundings) ?_ ?_⟩
  · exact eq_false_of_ne_true fun hready => hbefore ((h.isReady_iff hp hw hwait).mp hready)
  · have hplatform := platform_change p.surroundings hp c
    obtain ⟨sight, seen, woken, rfl⟩ := Waiter.isSuspended_of_wait? hwait
    obtain ⟨woken', hw'⟩ := waiter?_suspended hw c
    -- Whether a waiter has been woken is of no account to its wait.
    have hwait' : (Waiter.mk sight (.suspended seen woken')).wait? ticket = some wait := by
      cases sight <;> exact hwait
    exact ((h.act _).isReady_iff hplatform hw' hwait').mpr hafter

/-! ## What waiters are told -/

/-- **What the waiters of a platform are told** in a lookout that some happenings have led to. -/
structure Serves (idleCallback : Bool) (happenings : List Happening) (l : Lookout) : Prop where
  /-- A waiter for an element finishes when it runs exactly if the element is visible then. -/
  visible : ∀ n el progress, l.waiter? n = some ⟨.visible el, progress⟩ → progress ≠ .ended →
    (l.Finishes n ↔ l.platform.isVisible el = true)
  /-- A waiter for a media query finishes when it runs exactly if the query matches then. -/
  media : ∀ n query progress, l.waiter? n = some ⟨.media query, progress⟩ → progress ≠ .ended →
    (l.Finishes n ↔ l.platform.mediaMatches query = true)
  /-- A waiter for an idle period does not finish when it runs for the first time. -/
  begun : ∀ n, l.waiter? n = some ⟨.idle, .called⟩ → ¬l.Finishes n
  /-- Later it finishes when it runs exactly if there has been an idle period since. -/
  idle : ∀ n before since, happenings = before ++ .run n :: since →
    (after idleCallback before).waiter? n = some ⟨.idle, .called⟩ →
    l.waiter? n ≠ some ⟨.idle, .ended⟩ → (l.Finishes n ↔ .change .idle ∈ since)
  /-- What enables a suspended waiter to finish is the change that it waits for, and this wakes it.
  -/
  released : ∀ n w, l.waiter? n = some w → w.IsSuspended → ¬l.Finishes n →
    ∀ happening, (l.act happening).Finishes n →
      happening = .change w.sight.awaited ∧ (l.act happening).IsWoken n
  /-- A suspended waiter that would finish has been woken since it ran. -/
  woken : ∀ n w, l.waiter? n = some w → w.IsSuspended → l.Finishes n → l.IsWoken n
  /-- The platform changes as it does on a page. -/
  platform : ∀ (p : Page) (c : Change), p.surroundings.platform = l.platform →
    (p.perform c.command).2.surroundings.platform = (l.act (.change c)).platform
  /-- A strategy of a page begins as a waiter that runs for the first time, -/
  start : ∀ n sight (strategy : Strategy) name component argument (s : Surroundings),
    s.platform = l.platform → strategy.sight? s.platform component argument = some sight →
    l.waiter? n = some ⟨sight, .called⟩ →
    (l.Finishes n → strategy.start name component argument s = (.succeeded, s)) ∧
      (¬l.Finishes n → ∃ begun wait, (l.act (.run n)).waiter? n = some begun ∧
        begun.wait? s.nextTicket = some wait ∧
        strategy.start name component argument s =
          (.waiting wait, { s with nextTicket := s.nextTicket + 1 }))
  /-- it goes on as a waiter that runs again, -/
  resume : ∀ n w ticket wait name (s : Surroundings), s.platform = l.platform →
    l.waiter? n = some w → w.wait? ticket = some wait →
    (l.Finishes n → wait.resume name s = (.succeeded, s)) ∧
      (¬l.Finishes n → wait.resume name s = (.waiting wait, s))
  /-- and its task is queued by a change that enables it to finish. -/
  queued : ∀ n w ticket wait (p : Page) i t c, p.surroundings.platform = l.platform →
    p.tasks[i]? = some t → wait ∈ t.waits → l.waiter? n = some w → w.wait? ticket = some wait →
    ¬l.Finishes n → (l.act (.change c)).Finishes n → i ∈ (p.perform c.command).2.queue

/-- **Waiters of one platform.**  Whatever has happened, a waiter that runs finishes exactly if what
it waits for is there at that moment, or for an idle period if there has been one since it began.
A change of anything else does not enable it to finish, and the change that does wakes it. -/
theorem serves_after (idleCallback : Bool) (happenings : List Happening) :
    Serves idleCallback happenings (after idleCallback happenings) := by
  have hsound := sound_after idleCallback happenings
  exact {
    visible := fun n el progress hw hopen => hsound.finishes_visible hw hopen
    media := fun n query progress hw hopen => hsound.finishes_media hw hopen
    begun := fun n hw => not_finishes_called_idle hw
    idle := by
      rintro n before since rfl hcalled hopen
      rw [after, play_append] at hopen ⊢
      exact finishes_idle_iff hcalled hopen
    released := by
      intro n w hw hsuspended hbefore happening hafter
      obtain rfl := hsound.eq_awaited hw hsuspended hbefore hafter
      exact ⟨rfl, hsound.isWoken_act hw hsuspended hafter⟩
    woken := by
      rintro n w hw ⟨sight, seen, woken, rfl⟩ hfinishes
      exact hsound.isWoken hw hfinishes
    platform := by
      intro p c hp
      rw [Page.perform_command, (Page.change_cases c).2.1]
      exact platform_change p.surroundings hp c
    start := fun n sight strategy name component argument s hs hsight hw =>
      hsound.start hs hsight hw name
    resume := fun n w ticket wait name s hs hw hwait => hsound.resume hs hw hwait name
    queued := fun n w ticket wait p i t c hp ht hmem hw hwait hbefore hafter =>
      hsound.queued hp ht hmem hw hwait hbefore hafter }

/-- There is an idle period before the waiter for one begins.  Another element is shown, and the
element that is waited for is shown and hidden again. -/
def pulses : List Happening :=
  [.call (.visible ⟨0⟩), .call .idle, .run 0, .change .idle, .run 1, .change (.visible ⟨1⟩ true),
    .change (.visible ⟨0⟩ true), .change (.visible ⟨0⟩ false)]

/-- Neither waiter would finish, though one of them has been woken.  Each of them would if what it
waits for happened now. -/
theorem serves_after_pulses :
    (after true pulses).IsWoken 0 ∧ ¬(after true pulses).Finishes 0 ∧
      ¬(after true pulses).Finishes 1 ∧
      (after true (pulses ++ [.change (.visible ⟨0⟩ true)])).Finishes 0 ∧
      (after true (pulses ++ [.change .idle])).Finishes 1 := by
  have hserves := serves_after true pulses
  have hwaiter : (after true pulses).waiter? 0 = some ⟨.visible ⟨0⟩, .suspended 0 true⟩ := by
    decide +kernel
  have hcalled : (after true (pulses.take 4)).waiter? 1 = some ⟨.idle, .called⟩ := by
    decide +kernel
  refine ⟨⟨_, _, hwaiter⟩, ?_, ?_, ?_, ?_⟩
  · rw [hserves.visible 0 _ _ hwaiter nofun]
    decide +kernel
  · rw [hserves.idle 1 (pulses.take 4) (pulses.drop 5) rfl hcalled (by decide +kernel)]
    simp [pulses]
  · have hshown := (serves_after true (pulses ++ [.change (.visible ⟨0⟩ true)])).visible 0 ⟨0⟩
      (.suspended 0 true) (by decide +kernel) nofun
    exact hshown.mpr (by decide +kernel)
  · have hidle := (serves_after true (pulses ++ [.change .idle])).idle 1 (pulses.take 4)
      (pulses.drop 5 ++ [.change .idle]) rfl hcalled (by decide +kernel)
    exact hidle.mpr (List.mem_append_right _ (List.mem_singleton_self _))

end Lookout

end Hydration
