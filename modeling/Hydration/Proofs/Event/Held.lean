import Hydration.Proofs.Event.Waiters
import Mathlib.Data.List.Basic

/-!
# Subscriptions that somebody holds

Numbers are given to subscriptions in the order in which they begin.  So who begins some of them in
one go holds those with numbers from a range, and `Bus.held` are the ones of them that have not
ended.  All others are `Bus.rest`; publishing and counting count both (`dispatch_fst`, `size_eq`).

* Beginning adds numbers that have not been there (`Bus.Begins`).
* Ending takes numbers away and leaves the others (`Bus.Ends`).
* What happens to other waiters, or to all of them at once, ends nothing of what is held
  (`held_undergo`).
-/

namespace Hydration

namespace Bus

variable {b b₁ b₂ : Bus} {lo hi n number : Nat} {numbers before after before' after' : List Nat}
  {accepts : Event → Bool}

/-! ## What is held and what is not -/

/-- The subscriptions with numbers from `lo` to before `hi` that have not ended. -/
def held (b : Bus) (lo hi : Nat) : List Nat :=
  b.live.filter fun n => decide (lo ≤ n ∧ n < hi)

/-- All other subscriptions that have not ended. -/
def rest (b : Bus) (lo hi : Nat) : List Nat :=
  b.live.filter fun n => !decide (lo ≤ n ∧ n < hi)

theorem length_live_eq (b : Bus) (lo hi : Nat) :
    b.live.length = (b.rest lo hi).length + (b.held lo hi).length := by
  rw [List.length_eq_length_filter_add fun n => decide (lo ≤ n ∧ n < hi), Nat.add_comm]
  rfl

/-- **Publishing** reaches what is held and what is not. -/
theorem dispatch_fst (b : Bus) (e : Event) (lo hi : Nat) :
    (b.dispatch e).1 = (b.rest lo hi).length + (b.held lo hi).length := by
  rw [← length_live_eq, length_live]
  exact List.length_map _

/-- **Counting** counts what is held and what is not. -/
theorem size_eq (b : Bus) (lo hi : Nat) :
    b.size = (b.rest lo hi).length + (b.held lo hi).length := by
  rw [← length_live_eq, length_live]
  rfl

/-! ## Beginning -/

/-- **Subscriptions have begun**, with new numbers in ascending order. -/
structure Begins (b b₁ : Bus) (numbers : List Nat) : Prop where
  numbered : b₁.Numbered
  next : b.next ≤ b₁.next
  live : b₁.live = b.live ++ numbers
  new : ∀ n ∈ numbers, b.next ≤ n
  ascending : numbers.Pairwise (· < ·)

theorem Begins.refl (h : b.Numbered) : Begins b b [] :=
  ⟨h, Nat.le_refl _, (List.append_nil _).symm, nofun, .nil⟩

theorem Begins.listen (h : b.Numbered) : Begins b (b.listen accepts).2 [b.next] :=
  ⟨h.listen, Nat.le_succ _, live_listen, by simp, List.pairwise_singleton _ _⟩

theorem Begins.lt_next (h : Begins b b₁ numbers) (hn : n ∈ numbers) : n < b₁.next := by
  refine live_lt h.numbered ?_
  rw [h.live]
  exact List.mem_append_right _ hn

theorem Begins.append {more : List Nat} (h : Begins b b₁ numbers) (h' : Begins b₁ b₂ more) :
    Begins b b₂ (numbers ++ more) where
  numbered := h'.numbered
  next := Nat.le_trans h.next h'.next
  live := by rw [h'.live, h.live, List.append_assoc]
  new := List.forall_mem_append.mpr ⟨h.new, fun n hn => Nat.le_trans h.next (h'.new n hn)⟩
  ascending := List.pairwise_append.mpr ⟨h.ascending, h'.ascending, fun _ hn m hm =>
    Nat.lt_of_lt_of_le (h.lt_next hn) (h'.new m hm)⟩

/-- What has begun is what is held from then on. -/
theorem Begins.held_eq (h : Begins b b₁ numbers) (hb : b.Numbered) :
    b₁.held b.next b₁.next = numbers := by
  have hbefore : b.live.filter (fun n => decide (b.next ≤ n ∧ n < b₁.next)) = [] := by
    rw [List.filter_eq_nil_iff]
    intro n hn
    have hlt := live_lt hb hn
    simp only [decide_eq_true_eq]
    omega
  rw [held, h.live, List.filter_append, hbefore, List.nil_append, List.filter_eq_self]
  intro n hn
  exact decide_eq_true ⟨h.new n hn, h.lt_next hn⟩

/-! ## Ending -/

/-- **Subscriptions have ended**: of those with the numbers `before` there are those `after` left,
and for all others nothing has changed. -/
structure Ends (b b₁ : Bus) (before after : List Nat) : Prop where
  next : b₁.next = b.next
  live : b₁.live = b.live.filter fun n => decide (n ∉ before ∨ n ∈ after)
  sublist : after.Sublist before

theorem Ends.refl (b : Bus) (before : List Nat) : Ends b b before before := by
  refine ⟨rfl, ?_, .refl _⟩
  rw [List.filter_eq_self.mpr]
  intro n _
  rw [decide_eq_true_eq]
  exact (Decidable.em (n ∈ before)).symm

/-- What ends of one part and what ends of another part. -/
theorem Ends.append (h : Ends b b₁ before after) (h' : Ends b₁ b₂ before' after')
    (hapart : ∀ n ∈ after, n ∉ before') (hapart' : ∀ n ∈ after', n ∉ before) :
    Ends b b₂ (before ++ before') (after ++ after') where
  next := h'.next.trans h.next
  live := by
    rw [h'.live, h.live, List.filter_filter]
    refine List.filter_congr fun n _ => ?_
    have hn := hapart n
    have hn' := hapart' n
    rw [← Bool.decide_and, decide_eq_decide, List.mem_append, List.mem_append]
    grind
  sublist := h.sublist.append h'.sublist

/-- What was left ends, too. -/
theorem Ends.all (h : Ends b b₁ before after) (h' : Ends b₁ b₂ after []) :
    Ends b b₂ before [] where
  next := h'.next.trans h.next
  live := by
    rw [h'.live, h.live, List.filter_filter]
    refine List.filter_congr fun n _ => ?_
    have hsub : n ∈ after → n ∈ before := fun hn => h.sublist.mem hn
    rw [← Bool.decide_and, decide_eq_decide]
    simp only [List.not_mem_nil, or_false]
    grind
  sublist := List.nil_sublist _

theorem filter_mem_of_sublist (h : after.Sublist before) (hnodup : before.Nodup) :
    before.filter (· ∈ after) = after := by
  induction h with
  | slnil => rfl
  | cons n h ih =>
    obtain ⟨hn, hnodup⟩ := List.nodup_cons.mp hnodup
    rw [List.filter_cons_of_neg (by simpa using fun hn' => hn (h.mem hn')), ih hnodup]
  | @cons_cons after before n h ih =>
    obtain ⟨hn, hnodup⟩ := List.nodup_cons.mp hnodup
    rw [List.filter_cons_of_pos (by simp)]
    congr 1
    refine Eq.trans (List.filter_congr fun m hm => ?_) (ih hnodup)
    have hne : m ≠ n := fun h => hn (h ▸ hm)
    simp [hne]

/-- What has begun and ended leaves nothing. -/
theorem Begins.ends (h : Begins b b₁ numbers) (hb : b.Numbered) (h' : Ends b₁ b₂ numbers [])
    (hnumbered : b₂.Numbered) : Begins b b₂ [] := by
  refine ⟨hnumbered, h'.next ▸ h.next, ?_, nofun, .nil⟩
  have hnumbers : numbers.filter (fun n => decide (n ∉ numbers ∨ n ∈ [])) = [] := by
    simp [List.filter_eq_nil_iff]
  rw [h'.live, h.live, List.filter_append, hnumbers, List.append_nil, List.append_nil,
    List.filter_eq_self]
  intro n hn
  have hlt := live_lt hb hn
  exact decide_eq_true (.inl fun hn' => absurd (h.new n hn') (Nat.not_le.mpr hlt))

/-- **What is held ends**: what is left of it is held still. -/
theorem Ends.held_eq (h : Ends b b₁ (b.held lo hi) after) (hnodup : (b.held lo hi).Nodup) :
    b₁.held lo hi = after := by
  refine Eq.trans ?_ (filter_mem_of_sublist h.sublist hnodup)
  rw [held, h.live, List.filter_filter, held, List.filter_filter]
  refine List.filter_congr fun n hn => ?_
  have hown : lo ≤ n ∧ n < hi → n ∈ b.held lo hi := fun hn' =>
    List.mem_filter.mpr ⟨hn, decide_eq_true hn'⟩
  rw [← Bool.decide_and, ← Bool.decide_and, decide_eq_decide, ← held]
  grind

/-- What is not held does not end with what is. -/
theorem Ends.rest_eq (h : Ends b b₁ (b.held lo hi) after) : b₁.rest lo hi = b.rest lo hi := by
  rw [rest, h.live, List.filter_filter, rest]
  refine List.filter_congr fun n _ => ?_
  have hown : n ∈ b.held lo hi → lo ≤ n ∧ n < hi := fun hn =>
    of_decide_eq_true (List.mem_filter.mp hn).2
  rw [← decide_not, ← Bool.decide_and, decide_eq_decide]
  grind

theorem ends_drop : Ends b (b.drop number) [number] [] where
  next := rfl
  live := by
    rw [live_drop]
    refine List.filter_congr fun n _ => ?_
    simp
  sublist := List.nil_sublist _

/-- **A waiter that runs** goes on, or its subscription has ended. -/
theorem ends_run (b : Bus) (number : Nat) : Ends b (b.run number).2 [number]
    (if (b.run number).1 = .waiting then [number] else []) := by
  have hlook : ∀ {found : Option Event}, (b.look number).1 = found →
      Ends b (b.look number).2 [number] (if found = none then [number] else []) := by
    intro found hfound
    cases found with
    | some e =>
      rw [look_snd_of_some hfound]
      exact ends_drop
    | none =>
      rw [look_snd_of_none hfound, if_pos rfl]
      have hrefilled : b.Refilled number [] (b.refill number []) := refilled_refill
      have hsame := Ends.refl b [number]
      exact ⟨hrefilled.next, hrefilled.live.trans hsame.live, hsame.sublist⟩
  rw [run_snd]
  cases hfound : (b.look number).1 with
  | some e =>
    have hrun : (b.run number).1 = .received e := by
      rw [run, show b.look number = (some e, (b.look number).2) from Prod.ext hfound rfl]
    rw [hrun]
    exact hlook hfound
  | none =>
    have hrun : (b.run number).1 =
        if (b.look number).2.serves number then .waiting else .closed := by
      rw [run, show b.look number = (none, (b.look number).2) from Prod.ext hfound rfl]
    rw [hrun, serves_look hfound]
    split
    · exact hlook hfound
    · next hserves =>
      -- Whose subscription the bus does not have loses nothing.
      have hlive := (hlook hfound).live
      refine ⟨(hlook hfound).next, hlive.trans ?_, List.nil_sublist _⟩
      refine List.filter_congr fun n hn => ?_
      have hne : n ≠ number := by
        rintro rfl
        obtain ⟨sub, hsub⟩ := mem_live.mp hn
        exact hserves (by rw [serves, hsub]; rfl)
      simp [hne]

/-! ## What others do -/

/-- The bus after something has happened on it. -/
def undergo (b : Bus) : WaitingRoom.Happening → Bus
  | .start accepts => (b.listen accepts).2
  | .receive number => (b.receive number).2
  | .run number => (b.run number).2
  | .leave number => b.drop number
  | .publish e => (b.dispatch e).2
  | .count => b.count.2

end Bus

/-- What happens is nothing that only a waiter with a number from `lo` to before `hi` does. -/
def WaitingRoom.Happening.Spares (lo hi : Nat) : WaitingRoom.Happening → Prop
  | .receive number => ¬(lo ≤ number ∧ number < hi)
  | .run number => ¬(lo ≤ number ∧ number < hi)
  | .leave number => ¬(lo ≤ number ∧ number < hi)
  | _ => True

namespace Bus

variable {b : Bus} {lo hi number : Nat} {happening : WaitingRoom.Happening}

theorem held_congr {b₁ : Bus} (h : b₁.live = b.live) : b₁.held lo hi = b.held lo hi := by
  rw [held, h, held]

/-- Taking away a number from elsewhere. -/
theorem Ends.held_of_spares {after : List Nat} {b₁ : Bus} (h : Ends b b₁ [number] after)
    (hnumber : ¬(lo ≤ number ∧ number < hi)) : b₁.held lo hi = b.held lo hi := by
  rw [held, h.live, List.filter_filter, held]
  refine List.filter_congr fun n _ => ?_
  rw [← Bool.decide_and, decide_eq_decide, List.mem_singleton]
  constructor
  · exact And.left
  · rintro hn
    exact ⟨hn, .inl fun h => hnumber (h ▸ hn)⟩

theorem held_receive (b : Bus) (h : ¬(lo ≤ number ∧ number < hi)) :
    (b.receive number).2.held lo hi = b.held lo hi ∧ (b.receive number).2.next = b.next := by
  rw [receive]
  split
  · exact ⟨rfl, rfl⟩
  · split
    · exact ⟨rfl, rfl⟩
    · split
      · exact ⟨ends_drop.held_of_spares h, rfl⟩
      · exact ⟨held_congr refilled_refill.live, rfl⟩

/-- **What others do** leaves what is held as it is. -/
theorem held_undergo (h : happening.Spares lo hi) (hhi : hi ≤ b.next) :
    (b.undergo happening).held lo hi = b.held lo hi ∧ hi ≤ (b.undergo happening).next := by
  cases happening with
  | start accepts =>
    refine ⟨?_, Nat.le_succ_of_le hhi⟩
    have hnew : ¬(lo ≤ b.next ∧ b.next < hi) := fun hn => Nat.not_lt.mpr hhi hn.2
    rw [held, undergo, live_listen, List.filter_append,
      List.filter_cons_of_neg (by simpa using hnew)]
    exact List.append_nil _
  | receive number =>
    obtain ⟨hheld, hnext⟩ := held_receive b h
    exact ⟨hheld, hnext ▸ hhi⟩
  | run number =>
    have hends := ends_run b number
    exact ⟨hends.held_of_spares h, hends.next ▸ hhi⟩
  | leave number => exact ⟨ends_drop.held_of_spares h, hhi⟩
  | publish e => exact ⟨held_congr (live_publish e), hhi⟩
  | count => exact ⟨held_congr live_prune, hhi⟩

/-- All of it, one after the other. -/
theorem held_foldl_undergo {happenings : List WaitingRoom.Happening}
    (h : ∀ happening ∈ happenings, happening.Spares lo hi) (hhi : hi ≤ b.next) :
    (happenings.foldl undergo b).held lo hi = b.held lo hi ∧
      hi ≤ (happenings.foldl undergo b).next := by
  induction happenings generalizing b with
  | nil => exact ⟨rfl, hhi⟩
  | cons happening happenings ih =>
    rw [List.forall_mem_cons] at h
    obtain ⟨hheld, hnext⟩ := held_undergo h.1 hhi
    obtain ⟨hheld', hnext'⟩ := ih h.2 hnext
    exact ⟨hheld'.trans hheld, hnext'⟩

end Bus

end Hydration
