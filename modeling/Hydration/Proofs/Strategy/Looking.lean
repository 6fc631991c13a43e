import Hydration.Proofs.Requirement.Open
import Hydration.Proofs.Strategy.Beginning
import Hydration.Proofs.Strategy.Subscribed

/-!
# Looking again

What comes of an evaluation that is resumed depends on which of its waits are ready and on nothing
else (`resume_eq_looked`).  Of the waits that are left none is ready any more, neither after the
start nor after a resumption (`listening_start`, `not_ready_resume`), and where no wait is ready a
resumption changes nothing (`looked_of_quiet`).

Surroundings are `Alike` for those who own some subscriptions if they cannot tell them apart.  What
others start, resume and give up leaves them alike (`alike_start`, `alike_resume`, `alike_release`).
-/

namespace Hydration

open NamedWait

/-- No waiter has a subscription that has been dropped. -/
theorem Bus.find?_drop_self (b : Bus) (n : Nat) : (b.drop n).find? n = none := by
  rw [find?, List.find?_eq_none, drop]
  intro sub hsub
  obtain ⟨before, -, rfl⟩ := List.mem_map.mp hsub
  by_cases hn : before.number = n <;> simp [hn]

/-! ## Surroundings that are alike -/

/-- **Surroundings are alike** for those who own the subscriptions `owned`. -/
structure Surroundings.Alike (owned : List Nat) (s s' : Surroundings) : Prop where
  now : s'.now = s.now
  platform : s'.platform = s.platform
  find : ∀ n ∈ owned, s'.bus.find? n = s.bus.find? n

namespace Surroundings.Alike

variable {owned : List Nat} {s s₁ s₂ : Surroundings} {wait : Wait}

theorem refl (owned : List Nat) (s : Surroundings) : Alike owned s s :=
  ⟨rfl, rfl, fun _ _ => rfl⟩

theorem trans (h : Alike owned s s₁) (h' : Alike owned s₁ s₂) : Alike owned s s₂ where
  now := h'.now.trans h.now
  platform := h'.platform.trans h.platform
  find n hn := (h'.find n hn).trans (h.find n hn)

theorem isServed (h : Alike owned s s₁) (hown : ∀ n, wait.subscription? = some n → n ∈ owned) :
    wait.isServed s₁ = wait.isServed s := by
  cases wait with
  | event number awaited =>
    rw [Wait.isServed, Wait.isServed, Bus.serves, Bus.serves, h.find number (hown number rfl)]
  | _ => rfl

theorem isReady (h : Alike owned s s₁) (hown : ∀ n, wait.subscription? = some n → n ∈ owned) :
    wait.isReady s₁ = wait.isReady s := by
  cases wait with
  | timer ticket due outcome => rw [Wait.isReady, Wait.isReady, h.now]
  | event number awaited => rw [Wait.isReady, Wait.isReady, h.find number (hown number rfl)]
  | never => rfl
  | _ => rw [Wait.isReady, Wait.isReady, h.platform]

end Surroundings.Alike

section

variable {owned : List Nat} {s s₁ : Surroundings} {name : String} {wait : Wait}

/-- A wait of others that is resumed. -/
theorem Wait.alike_resume (hother : ∀ n, wait.subscription? = some n → n ∉ owned) :
    Surroundings.Alike owned s (wait.resume name s).2 := by
  refine ⟨now_resume, platform_resume, fun n hn => ?_⟩
  rw [resume_snd]
  cases wait with
  | event number awaited =>
    refine Bus.find?_look ?_
    rintro rfl
    exact hother n rfl hn
  | _ => rfl

theorem Wait.alike_release (hother : ∀ n, wait.subscription? = some n → n ∉ owned) :
    Surroundings.Alike owned s (wait.release s) := by
  refine ⟨now_release, platform_release, fun n hn => ?_⟩
  cases wait with
  | event number awaited =>
    refine Bus.find?_drop ?_
    rintro rfl
    exact hother n rfl hn
  | _ => rfl

/-- Nobody who looks or gives up makes a wait ready. -/
theorem Wait.not_ready_of_resume {u : Wait} (h : u.isReady s = false) :
    u.isReady (wait.resume name s).2 = false := by
  rw [resume_snd]
  cases wait with
  | event number awaited =>
    cases u with
    | event n awaited' =>
      rw [isReady] at h ⊢
      by_cases hn : n = number
      · subst hn
        have hnone : (s.bus.look n).1 = none := by
          rw [Bus.look_fst, Option.bind_eq_none_iff]
          intro sub hsub
          rw [hsub, Option.any_some, List.any_eq_false] at h
          exact List.find?_eq_none.mpr h
        show Option.any _ ((s.bus.look n).2.find? n) = false
        rw [Bus.find?_look_self hnone]
        cases s.bus.find? n <;> rfl
      · show Option.any _ ((s.bus.look number).2.find? n) = false
        rw [Bus.find?_look hn]
        exact h
    | _ => exact h
  | _ => exact h

theorem Wait.not_ready_of_release {u : Wait} (h : u.isReady s = false) :
    u.isReady (wait.release s) = false := by
  cases wait with
  | event number awaited =>
    cases u with
    | event n awaited' =>
      rw [isReady] at h ⊢
      by_cases hn : n = number
      · subst hn
        show Option.any _ ((s.bus.drop n).find? n) = false
        rw [Bus.find?_drop_self]
        rfl
      · show Option.any _ ((s.bus.drop number).find? n) = false
        rw [Bus.find?_drop hn]
        exact h
    | _ => exact h
  | _ => exact h

end

/-! ## Looking -/

/-- How waits behave of which `ready` says which are ready. -/
def LeafRules.looking (ready : Wait → Bool) : LeafRules Empty NamedWait Unit where
  start a := nomatch a
  resume v _ :=
    (if ready v.wait then attach v.strategy (v.wait.ending v.strategy) else .waiting v, ())
  release _ _ := ()

namespace Evaluation

variable {ready : Wait → Bool} {e : Evaluation NamedWait} {es : List (Evaluation NamedWait)}
  {v : NamedWait}

/-- **What an evaluation comes to** when somebody looks again and finds some waits ready. -/
def looked (ready : Wait → Bool) (e : Evaluation NamedWait) : Evaluation NamedWait :=
  (e.resume (.looking ready) ()).1

theorem resuming_looking (ready : Wait → Bool) :
    Resuming (.looking ready) fun _ _ vs us => us.Sublist vs where
  refl _ _ := .refl _
  wait v s := by
    show (ofSignal (if ready v.wait then attach v.strategy (v.wait.ending v.strategy)
      else .waiting v)).waits.Sublist [v]
    split
    · rw [show (ofSignal (attach v.strategy (v.wait.ending v.strategy))).waits = [] by
        cases v.wait with
        | timer ticket due outcome => cases outcome <;> rfl
        | _ => rfl]
      exact List.nil_sublist _
    · exact .refl _
  append h h' := h.append h'
  release _ := List.nil_sublist _

/-- Nobody waits for anything new. -/
theorem looked_sublist (ready : Wait → Bool) (e : Evaluation NamedWait) :
    (e.looked ready).waits.Sublist e.waits :=
  (resuming_looking ready).resume e ()

/-- Where no wait is ready nothing changes. -/
theorem looked_of_quiet (h : e.Undecided) (hquiet : ∀ v ∈ e.waits, ready v.wait = false) :
    e.looked ready = e := by
  rw [looked]
  induction h with
  | waiting v =>
    have hv := hquiet v (List.mem_singleton_self v)
    simp [resume, LeafRules.looking, hv, ofSignal]
  | succeeded => rfl
  | failed error => rfl
  | @joining join es hes hnone ih =>
    have heach : ∀ clean, (resumeEach (.looking ready) join clean es ()).1 = es := by
      rw [waits] at hquiet
      clear hnone hes
      induction es with
      | nil => exact fun _ => rfl
      | cons e es ihes =>
        rw [waitsAll, List.forall_mem_append] at hquiet
        intro clean
        have he := ih e List.mem_cons_self hquiet.1
        have hrest := ihes (fun x hx => ih x (List.mem_cons_of_mem _ hx)) hquiet.2
        rw [resumeEach]
        dsimp only
        rw [he]
        split
        · rfl
        · rw [hrest]
    rw [resume]
    dsimp only
    obtain ⟨-, hjoining, -⟩ := Join.settle_cases (.looking ready) join es
      (resumeEach (.looking ready) join true es ()).2
    rw [heach true, hjoining hnone]

/-- **Whoever goes on waiting** has looked at every wait that is left: an operand that is passed
over stands behind one that has settled the node. -/
theorem not_ready_looked (hv : v ∈ (e.looked ready).waits) : ready v.wait = false := by
  rw [looked] at hv
  induction e using Evaluation.induction generalizing v with
  | waiting w =>
    simp only [resume, LeafRules.looking] at hv
    split at hv
    · cases hwait : w.wait with
      | timer ticket due outcome =>
        rw [hwait] at hv
        cases outcome <;> cases hv
      | _ =>
        rw [hwait] at hv
        cases hv
    · next hw =>
      obtain rfl := List.mem_singleton.mp hv
      exact (Bool.not_eq_true _).mp hw
  | succeeded => cases hv
  | failed error => cases hv
  | joining join es ih =>
    rw [resume] at hv
    dsimp only at hv
    obtain ⟨houtcome, hnone, -⟩ := Join.settle_cases (.looking ready) join
      (resumeEach (.looking ready) join true es ()).1
      (resumeEach (.looking ready) join true es ()).2
    cases hc : join.combine ((resumeEach (.looking ready) join true es ()).1.map (·.outcome?)) with
    | some b =>
      rw [waits_of_outcome (houtcome.trans hc)] at hv
      cases hv
    | none =>
      rw [hnone hc, waits] at hv
      -- What has been scanned are the operands, whatever formulas they evaluate.
      have hscanned : ∀ clean, Scanned (fun _ e => ∀ v ∈ e.waits, ready v.wait = false) join clean
          (es.map fun _ => (.leaf () : Formula Unit))
          (resumeEach (.looking ready) join clean es ()).1 := by
        clear hv hc hnone houtcome
        induction es with
        | nil => exact fun _ => .nil
        | cons e es ihes =>
          intro clean
          have he : ∀ v ∈ (e.resume (.looking ready) ()).1.waits, ready v.wait = false :=
            fun _ hv => ih e List.mem_cons_self hv
          rw [resumeEach]
          dsimp only
          split
          · next hdecides => exact .decided he hdecides
          · exact .cons he (ihes (fun x hx => ih x (List.mem_cons_of_mem _ hx)) _)
      obtain ⟨x, hx, hmem⟩ := mem_waitsAll.mp hv
      have hall := (hscanned true).forall₂ hc
      obtain ⟨k, hk, rfl⟩ := List.mem_iff_getElem.mp hx
      have hlength := hall.length_eq
      exact (List.forall₂_iff_get.mp hall).2 k (by omega) hk v hmem

end Evaluation

/-! ## Requirements on a page -/

section

variable {α : Type} {owned : List Nat} {s : Surroundings} {t : Formula α}
  {e : Evaluation NamedWait} {v : NamedWait}
  (condition : α → Condition) (strategy? : α → Option Strategy) (component : ComponentHandle)

/-- **Another requirement that is started** leaves the surroundings alike for those who own
subscriptions already. -/
theorem alike_start (t : Formula α) (howned : ∀ n ∈ owned, n < s.bus.next) :
    Surroundings.Alike owned s (t.start (Formula.rules condition strategy? component) s).2 := by
  refine (start_upholds
    (Q := fun s' => Surroundings.Alike owned s s' ∧ ∀ n ∈ owned, n < s'.bus.next)
    (W := fun _ (v : NamedWait) => ∀ n, v.wait.subscription? = some n → n ∉ owned)
    (fun a s' h => ?_) (fun v s' h hv => ?_) t ⟨.refl owned s, howned⟩).state.1
  · obtain ⟨halike, howned⟩ := h
    cases hstrategy : strategy? a with
    | none =>
      rw [Formula.rules_start_of_none hstrategy]
      refine ⟨⟨halike, howned⟩, fun _ => id, fun v hv => ?_⟩
      obtain rfl := List.mem_singleton.mp hv
      exact nofun
    | some strategy =>
      have hmarks := Formula.rules_start_marks condition strategy? component s' a
      rw [Formula.rules_start_of_some hstrategy] at hmarks ⊢
      have hsubscribes := strategy.start_subscribes (condition a).name component
        (condition a).argument s'
      have hbus : ∀ n ∈ owned,
          (strategy.start (condition a).name component (condition a).argument s').2.bus.find? n =
            s'.bus.find? n ∧
          n <
            (strategy.start (condition a).name component (condition a).argument s').2.bus.next := by
        intro n hn
        rw [hsubscribes.bus]
        cases strategy.listens? component (condition a).argument with
        | none => exact ⟨rfl, howned n hn⟩
        | some accepts =>
          exact ⟨Bus.find?_listen_of_ne (Nat.ne_of_lt (howned n hn)),
            Nat.lt_succ_of_lt (howned n hn)⟩
      refine ⟨⟨halike.trans ⟨hmarks.now, hmarks.platform, fun n hn => (hbus n hn).1⟩,
        fun n hn => (hbus n hn).2⟩, fun _ => id, fun v hv n hn howns => ?_⟩
      obtain ⟨wait, hsignal, rfl⟩ := attach_waiting.mp (Evaluation.mem_waits_ofSignal.mp hv)
      -- What is new has a number that nobody owns.
      rw [hsubscribes.wait wait hsignal] at hn
      obtain ⟨-, -, rfl⟩ := Option.map_eq_some_iff.mp hn
      exact absurd (howned _ howns) (Nat.lt_irrefl _)
  · refine .change ⟨h.1.trans (Wait.alike_release hv), fun n hn => ?_⟩ fun _ => id
    have hnext : (v.wait.release s').bus.next = s'.bus.next := v.wait.ends_release s' |>.next
    exact hnext ▸ h.2 n hn

/-- **A requirement that has been started** waits for what has not happened, and every wait is
served. -/
theorem listening_start (hbus : s.bus.Numbered)
    (hv : v ∈ (t.start (Formula.rules condition strategy? component) s).1.waits) :
    let s' := (t.start (Formula.rules condition strategy? component) s).2
    v.wait.isServed s' = true ∧ v.wait.isReady s' = false := by
  have hnoting := (simulates_noting (Formula.rules condition strategy? component)).formula_start t
    (s, [])
  rw [congrArg Prod.fst hnoting, Evaluation.waits_map] at hv
  obtain ⟨u, hu, rfl⟩ := List.mem_map.mp hv
  have hlistens := Formula.listens_start condition strategy? component t hbus hu
  exact ⟨hlistens.isServed, hlistens.not_ready⟩

/-- **Another evaluation that is resumed** leaves the surroundings alike. -/
theorem alike_resume (hother : ∀ n ∈ numbers e.waits, n ∉ owned) : Surroundings.Alike owned s
    (e.resume (Formula.rules condition strategy? component) s).2 := by
  have hwaits : ∀ v ∈ e.waits, ∀ n, v.wait.subscription? = some n → n ∉ owned :=
    fun v hv n hn => hother n (List.mem_filterMap.mpr ⟨v, hv, hn⟩)
  refine (resume_upholds (Q := fun s' => Surroundings.Alike owned s s')
    (W := fun _ (v : NamedWait) => ∀ n, v.wait.subscription? = some n → n ∉ owned)
    (fun v s' h hv => ?_) (fun v s' h hv => ?_) e (.refl owned s) hwaits).state
  · refine ⟨h.trans (Wait.alike_resume hv), fun _ => id, fun u hu => ?_⟩
    obtain ⟨wait, hsignal, rfl⟩ := attach_waiting.mp (Evaluation.mem_waits_ofSignal.mp hu)
    rw [Wait.eq_of_resume_waiting hsignal]
    exact hv
  · exact .change (h.trans (Wait.alike_release hv)) fun _ => id

/-- **Other waits that are given up** leave the surroundings alike. -/
theorem alike_release {waits : List NamedWait} (hother : ∀ n ∈ numbers waits, n ∉ owned) :
    Surroundings.Alike owned s
      (Evaluation.releaseAll (Formula.rules condition strategy? component) waits s) :=
  (Upheld.releaseAll (Q := fun s' => Surroundings.Alike owned s s')
    (W := fun _ (v : NamedWait) => ∀ n, v.wait.subscription? = some n → n ∉ owned)
    (fun _ _ h hv => .change (h.trans (Wait.alike_release hv)) fun _ => id) (.refl owned s)
    fun v hv n hn => hother n (List.mem_filterMap.mpr ⟨v, hv, hn⟩)).state

/-- **A requirement that is resumed** looks which of its waits are ready. -/
theorem resume_eq_looked {ready : Wait → Bool}
    (hready : ∀ v ∈ e.waits, v.wait.isServed s = true ∧ v.wait.isReady s = ready v.wait)
    (hnodup : (numbers e.waits).Nodup) :
    (e.resume (Formula.rules condition strategy? component) s).1 = e.looked ready := by
  rw [Evaluation.looked]
  induction e using Evaluation.induction generalizing s with
  | waiting v =>
    obtain ⟨hserved, hv⟩ := hready v (List.mem_singleton_self v)
    show Evaluation.ofSignal (attach v.strategy (v.wait.resume v.strategy s).1) =
      Evaluation.ofSignal (if ready v.wait then attach v.strategy (v.wait.ending v.strategy)
        else .waiting v)
    rw [Wait.resume_fst hserved, hv]
    split <;> rfl
  | succeeded => rfl
  | failed error => rfl
  | joining join es ih =>
    have heach : ∀ clean s, (∀ v ∈ Evaluation.waitsAll es,
          v.wait.isServed s = true ∧ v.wait.isReady s = ready v.wait) →
        (numbers (Evaluation.waitsAll es)).Nodup →
        (Evaluation.resumeEach (Formula.rules condition strategy? component) join clean es s).1 =
          (Evaluation.resumeEach (.looking ready) join clean es ()).1 := by
      clear hnodup hready
      induction es with
      | nil => exact fun _ _ _ _ => rfl
      | cons e es ihes =>
        intro clean s hready hnodup
        rw [Evaluation.waitsAll, List.forall_mem_append] at hready
        rw [Evaluation.waitsAll, numbers_append, List.nodup_append] at hnodup
        obtain ⟨hown, hrest, hapart⟩ := hnodup
        have he := ih e List.mem_cons_self hready.1 hown
        -- For the operands that follow nothing has changed.
        have halike : Surroundings.Alike (numbers (Evaluation.waitsAll es)) s
            (e.resume (Formula.rules condition strategy? component) s).2 :=
          alike_resume condition strategy? component fun n hn hn' => hapart n hn n hn' rfl
        have hnext := ihes (fun x hx => ih x (List.mem_cons_of_mem _ hx))
          (clean && (e.resume (.looking ready) ()).1.isSucceeded) _ (fun v hv => by
            have howned : ∀ n, v.wait.subscription? = some n →
                n ∈ numbers (Evaluation.waitsAll es) :=
              fun n hn => List.mem_filterMap.mpr ⟨v, hv, hn⟩
            rw [halike.isServed howned, halike.isReady howned]
            exact hready.2 v hv) hrest
        rw [Evaluation.resumeEach, Evaluation.resumeEach]
        dsimp only
        rw [he]
        split
        · rfl
        · exact congrArg _ hnext
    rw [Evaluation.resume, Evaluation.resume]
    dsimp only
    rw [Evaluation.waits] at hready hnodup
    rw [Join.settle, Join.settle, heach true s hready hnodup]
    split <;> rfl

/-- Of the waits that are left when a requirement is resumed none is ready. -/
theorem not_ready_resume (hserved : ∀ v ∈ e.waits, v.wait.isServed s = true)
    (hnodup : (numbers e.waits).Nodup)
    (hv : v ∈ (e.resume (Formula.rules condition strategy? component) s).1.waits) :
    v.wait.isReady (e.resume (Formula.rules condition strategy? component) s).2 = false := by
  have hlooked : _ = e.looked (·.isReady s) :=
    resume_eq_looked condition strategy? component (fun v hv => ⟨hserved v hv, rfl⟩) hnodup
  rw [hlooked] at hv
  exact resume_keeps (Q := fun s' => v.wait.isReady s' = false)
    (fun _ _ => Wait.not_ready_of_resume) (fun _ _ => Wait.not_ready_of_release) e
    (Evaluation.not_ready_looked hv)

end

end Hydration
