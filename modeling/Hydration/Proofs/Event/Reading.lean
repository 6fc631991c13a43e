import Hydration.Proofs.Event.Bus

/-!
# Reading an inbox

A waiter that runs takes one event after the other from its inbox.  It may be interrupted
after each of them: `receive` is what it does at once, and `run` is to receive until a
delivery or a wait comes (`run_eq_receive`).  Both come to the same kind of change
(`Reads`): some events are passed over, and either the rest stays in the inbox or the next
one is accepted and the subscription ends.

`live` are the numbers of the subscriptions that have not ended.
-/

namespace Hydration

namespace Bus

variable {b b' : Bus} {n m number : Nat} {accepts : Event → Bool} {sub : Subscription}
  {inbox : List Event}

/-- The waiter `number` takes the next event from its inbox; it is told nothing if it does
not accept the event. -/
def receive (b : Bus) (number : Nat) : Option Delivery × Bus :=
  match b.find? number with
  | none => (some .closed, b)
  | some sub =>
    match sub.inbox with
    | [] => (some .waiting, b)
    | e :: inbox =>
      if sub.accepts e then (some (.received e), b.drop number) else (none, b.refill number inbox)

/-- The numbers of the subscriptions that have not ended. -/
def live (b : Bus) : List Nat :=
  (b.subscriptions.filter (!·.ended)).map (·.number)

theorem mem_live : n ∈ b.live ↔ ∃ sub, b.find? n = some sub := by
  rw [← Option.isSome_iff_exists, find?, List.find?_isSome, live, List.mem_map]
  constructor
  · rintro ⟨sub, hsub, rfl⟩
    obtain ⟨hmem, hended⟩ := List.mem_filter.mp hsub
    exact ⟨sub, hmem, by simpa using hended⟩
  · rintro ⟨sub, hmem, hsub⟩
    simp only [Bool.and_eq_true, beq_iff_eq] at hsub
    exact ⟨sub, List.mem_filter.mpr ⟨hmem, hsub.2⟩, hsub.1⟩

theorem live_lt (h : b.Numbered) (hn : n ∈ b.live) : n < b.next := by
  obtain ⟨sub, hsub⟩ := mem_live.mp hn
  obtain ⟨hmem, rfl, -⟩ := mem_of_find? hsub
  exact h sub hmem

theorem live_listen : (b.listen accepts).2.live = b.live ++ [b.next] := by
  rw [live, listen, List.filter_append, List.map_append]
  rfl

theorem live_prune : b.prune.live = b.live := by
  rw [live, prune, List.filter_filter]
  simp only [Bool.and_self]
  rfl

theorem length_live : b.live.length = b.prune.subscriptions.length :=
  List.length_map _

/-- A change of the subscriptions that ends none keeps the numbers. -/
theorem live_map {f : Subscription → Subscription} (hnumber : ∀ s, (f s).number = s.number)
    (hended : ∀ s, (f s).ended = s.ended) :
    live { b with subscriptions := b.subscriptions.map f } = b.live := by
  rw [live, List.filter_map, List.map_map, live]
  have hsame : ((fun s : Subscription => !s.ended) ∘ f) = fun s => !s.ended := by
    funext s
    rw [Function.comp_apply, hended]
  rw [hsame]
  exact List.map_congr_left fun s _ => hnumber s

theorem live_publish (e : Event) : (b.publish e).live = b.live :=
  (live_map (b := b.prune) (f := fun s => { s with inbox := s.inbox ++ [e] }) (fun _ => rfl)
    fun _ => rfl).trans live_prune

theorem live_drop : (b.drop number).live = b.live.filter (· ≠ number) := by
  rw [live, drop, List.filter_map, live, List.map_map, List.filter_map,
    List.filter_filter]
  have hsame : ((fun s : Subscription => !s.ended) ∘ fun s =>
      if s.number = number then { s with ended := true } else s) =
        fun s => ((fun n => decide (n ≠ number)) ∘ fun s : Subscription => s.number) s && !s.ended := by
    funext s
    by_cases hs : s.number = number <;> simp [hs]
  rw [hsame]
  refine List.map_congr_left fun s _ => ?_
  rw [Function.comp_apply]
  split <;> rfl

/-- `b'` is `b` but for the inbox of a waiter, where `inbox` is left. -/
structure Refilled (b : Bus) (number : Nat) (inbox : List Event) (b' : Bus) : Prop where
  next : b'.next = b.next
  numbered : b.Numbered → b'.Numbered
  live : b'.live = b.live
  self : b'.find? number = (b.find? number).map fun s => { s with inbox }
  others : ∀ m, m ≠ number → b'.find? m = b.find? m

theorem Refilled.refl (h : b.find? number = some sub) : b.Refilled number sub.inbox b :=
  ⟨rfl, id, rfl, by rw [h]; rfl, fun _ _ => rfl⟩

theorem refilled_refill : b.Refilled number inbox (b.refill number inbox) where
  next := rfl
  numbered h := h.map fun s => by split <;> rfl
  live := live_map (fun s => by split <;> rfl) fun s => by split <;> rfl
  self := find?_refill_self
  others m hm := find?_map_of_ne (fun _ => rfl) hm

/-- What it comes to when a waiter with the subscription `sub` reads in its inbox: it passes
over events that it does not accept, and it either goes on or receives the next one. -/
inductive Reads (b : Bus) (number : Nat) (sub : Subscription) : Option Delivery → Bus → Prop
  | goesOn {told : Option Delivery} {b' : Bus} (read inbox : List Event)
      (hinbox : sub.inbox = read ++ inbox) (hread : ∀ e ∈ read, sub.accepts e = false)
      (htold : told = none ∨ told = some .waiting ∧ inbox = [])
      (hbus : b.Refilled number inbox b') : Reads b number sub told b'
  | receives (read : List Event) (e : Event) (inbox : List Event)
      (hinbox : sub.inbox = read ++ e :: inbox) (hread : ∀ e ∈ read, sub.accepts e = false)
      (he : sub.accepts e = true) : Reads b number sub (some (.received e)) (b.drop number)

theorem reads_receive (h : b.find? number = some sub) :
    b.Reads number sub (b.receive number).1 (b.receive number).2 := by
  rw [receive, h]
  dsimp only
  cases hinbox : sub.inbox with
  | nil =>
    have hrefl := Refilled.refl h
    rw [hinbox] at hrefl
    exact .goesOn [] [] hinbox (by simp) (.inr ⟨rfl, rfl⟩) hrefl
  | cons e inbox =>
    dsimp only
    by_cases he : sub.accepts e = true
    · rw [if_pos he]
      exact .receives [] e inbox hinbox (by simp) he
    · rw [if_neg he]
      exact .goesOn [e] inbox hinbox (by simpa using he) (.inl rfl) refilled_refill

theorem reads_run (h : b.find? number = some sub) :
    b.Reads number sub (some (b.run number).1) (b.run number).2 := by
  have hlook : (b.look number).1 = sub.inbox.find? sub.accepts := by
    rw [look_fst, h, Option.bind_some]
  rw [run_fst h, run_snd]
  cases hfind : sub.inbox.find? sub.accepts with
  | none =>
    rw [look_snd_of_none (hlook.trans hfind)]
    rw [List.find?_eq_none] at hfind
    exact .goesOn sub.inbox [] (List.append_nil _).symm (by simpa using hfind) (.inr ⟨rfl, rfl⟩)
      refilled_refill
  | some e =>
    rw [look_snd_of_some (hlook.trans hfind)]
    obtain ⟨he, read, inbox, hinbox, hread⟩ := List.find?_eq_some_iff_append.mp hfind
    exact .receives read e inbox hinbox (by simpa using hread) he

/-- **To run is to take one event after the other** until a delivery or a wait comes. -/
theorem run_eq_receive (h : b.find? number = some sub) :
    (b.run number).1 = (b.receive number).1.getD ((b.receive number).2.run number).1 := by
  rw [run_fst h, receive, h]
  dsimp only
  cases hinbox : sub.inbox with
  | nil => rfl
  | cons e inbox =>
    dsimp only
    by_cases he : sub.accepts e = true
    · rw [if_pos he, List.find?_cons_of_pos he]
      rfl
    · have hself : (b.refill number inbox).find? number = some { sub with inbox } := by
        rw [find?_refill_self, h, Option.map_some]
      rw [if_neg he, List.find?_cons_of_neg he, Option.getD_none, run_fst hself]

end Bus

end Hydration
