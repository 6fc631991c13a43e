import Hydration.Event.Bus

/-!
# Subscriptions

What the operations of the bus do to the subscription with a given number: a waiter
that subscribes, looks or leaves does not touch the subscriptions of others.  On a bus
that is `Numbered` the number of the next subscription is new.
-/

namespace Hydration

namespace Bus

variable {b : Bus} {n number : Nat} {accepts : Event → Bool} {sub : Subscription}

/-- Every subscription has a number that has been given. -/
def Numbered (b : Bus) : Prop :=
  ∀ sub ∈ b.subscriptions, sub.number < b.next

theorem mem_of_find? (h : b.find? n = some sub) :
    sub ∈ b.subscriptions ∧ sub.number = n ∧ sub.ended = false := by
  have hsub := List.find?_some h
  simp only [Bool.and_eq_true, beq_iff_eq, Bool.not_eq_true'] at hsub
  exact ⟨List.mem_of_find?_eq_some h, hsub⟩

theorem find?_listen (h : b.find? n = some sub) :
    (b.listen accepts).2.find? n = some sub := by
  rw [find?, listen, List.find?_append]
  rw [find?] at h
  rw [h]
  rfl

theorem find?_listen_of_ne (h : n ≠ b.next) : (b.listen accepts).2.find? n = b.find? n := by
  have hnext : (b.next == n) = false := by simpa using h.symm
  rw [find?, listen, List.find?_append, List.find?_cons_of_neg (by simp [hnext])]
  exact Option.or_none

theorem find?_listen_next (accepts : Event → Bool) (h : b.Numbered) :
    (b.listen accepts).2.find? b.next =
      some { number := b.next, accepts, inbox := [], ended := false } := by
  have hnone : b.subscriptions.find? (fun s => s.number == b.next && !s.ended) = none := by
    rw [List.find?_eq_none]
    intro sub hsub
    have := h sub hsub
    simp only [Bool.and_eq_true, beq_iff_eq]
    omega
  rw [find?, listen, List.find?_append, hnone]
  simp

theorem find?_prune : b.prune.find? n = b.find? n := by
  rw [find?, prune, List.find?_filter, find?]
  congr 1
  funext sub
  rw [Bool.eq_iff_iff]
  simp +contextual

theorem find?_publish (e : Event) :
    (b.publish e).find? n = (b.find? n).map fun s => { s with inbox := s.inbox ++ [e] } := by
  rw [← find?_prune (b := b), find?, publish, List.find?_map]
  rfl

/-- A change of the subscriptions with one number that keeps the numbers does not affect
others. -/
theorem find?_map_of_ne {f : Subscription → Subscription} (hf : ∀ s, (f s).number = s.number)
    (h : n ≠ number) :
    (b.subscriptions.map fun s => if s.number = number then f s else s).find?
      (fun s => s.number == n && !s.ended) = b.find? n := by
  rw [List.find?_map, find?]
  have hsame : ((fun s : Subscription => s.number == n && !s.ended) ∘ fun s =>
      if s.number = number then f s else s) = fun s => s.number == n && !s.ended := by
    funext s
    by_cases hs : s.number = number
    · have hne : (number == n) = false := by simpa using Ne.symm h
      simp [hs, hf, hne]
    · simp [hs]
  rw [hsame]
  cases hfind : b.subscriptions.find? (fun s => s.number == n && !s.ended) with
  | none => rfl
  | some sub =>
    have hsub : sub.number = n := (mem_of_find? hfind).2.1
    rw [Option.map_some, if_neg (by rw [hsub]; exact h)]

theorem find?_drop (h : n ≠ number) : (b.drop number).find? n = b.find? n :=
  find?_map_of_ne (fun _ => rfl) h

theorem look_fst : (b.look number).1 =
    (b.find? number).bind fun s => s.inbox.find? s.accepts := by
  rw [look]
  split
  · next e he => exact he.symm
  · next he => exact he.symm

theorem find?_look (h : n ≠ number) : (b.look number).2.find? n = b.find? n := by
  rw [look]
  split
  · exact find?_drop h
  · exact find?_map_of_ne (fun _ => rfl) h

/-- Replaces what lies in the inbox of a waiter. -/
def refill (b : Bus) (number : Nat) (inbox : List Event) : Bus :=
  { b with
    subscriptions := b.subscriptions.map fun s =>
      if s.number = number then { s with inbox } else s }

theorem find?_refill_self {inbox : List Event} :
    (b.refill number inbox).find? number = (b.find? number).map fun s => { s with inbox } := by
  rw [find?, refill, List.find?_map, find?]
  have hsame : ((fun s : Subscription => s.number == number && !s.ended) ∘ fun s =>
      if s.number = number then { s with inbox } else s) =
        fun s => s.number == number && !s.ended := by
    funext s
    by_cases hs : s.number = number <;> simp [hs]
  rw [hsame]
  cases hfind : b.subscriptions.find? (fun s => s.number == number && !s.ended) with
  | none => rfl
  | some sub =>
    rw [Option.map_some, if_pos (mem_of_find? hfind).2.1]
    rfl

/-- A look that finds nothing empties the inbox. -/
theorem look_snd_of_none (h : (b.look number).1 = none) :
    (b.look number).2 = b.refill number [] := by
  rw [look] at h ⊢
  split at h
  · cases h
  · rfl

/-- A look that finds an event ends the subscription. -/
theorem look_snd_of_some {e : Event} (h : (b.look number).1 = some e) :
    (b.look number).2 = b.drop number := by
  rw [look] at h ⊢
  split at h
  · rfl
  · cases h

theorem find?_look_self (h : (b.look number).1 = none) :
    (b.look number).2.find? number = (b.find? number).map fun s => { s with inbox := [] } := by
  rw [look_snd_of_none h, find?_refill_self]

/-- A waiter that has looked in vain is served as before. -/
theorem serves_look (h : (b.look number).1 = none) :
    (b.look number).2.serves number = b.serves number := by
  rw [serves, find?_look_self h, Option.isSome_map, serves]

/-- What a waiter that is served is told when it runs. -/
theorem run_fst (h : b.find? number = some sub) :
    (b.run number).1 = match sub.inbox.find? sub.accepts with
      | some e => .received e
      | none => .waiting := by
  have hlook : (b.look number).1 = sub.inbox.find? sub.accepts := by
    rw [look_fst, h, Option.bind_some]
  rw [run]
  split
  · next e _ he =>
    rw [← hlook, he]
  · next b' he =>
    have hserves : (b.look number).2.serves number = b.serves number :=
      serves_look (by rw [he])
    rw [he] at hserves hlook
    rw [← hlook, hserves, serves, h]
    rfl

theorem run_snd : (b.run number).2 = (b.look number).2 := by
  rw [run]
  split
  · next h => rw [h]
  · next h => rw [h]

theorem Numbered.listen (h : b.Numbered) : (b.listen accepts).2.Numbered := by
  intro sub hsub
  rw [Bus.listen] at hsub ⊢
  rcases List.mem_append.mp hsub with hsub | hsub
  · exact Nat.lt_succ_of_lt (h sub hsub)
  · rw [List.mem_singleton.mp hsub]
    exact Nat.lt_succ_self _

theorem Numbered.prune (h : b.Numbered) : b.prune.Numbered :=
  fun sub hsub => h sub (List.mem_filter.mp hsub).1

theorem Numbered.publish (h : b.Numbered) (e : Event) : (b.publish e).Numbered := by
  intro sub hsub
  obtain ⟨sub', hsub', rfl⟩ := List.mem_map.mp hsub
  exact h.prune sub' hsub'

/-- A change of subscriptions that keeps the numbers. -/
theorem Numbered.map (h : b.Numbered) {f : Subscription → Subscription}
    (hf : ∀ s, (f s).number = s.number) :
    Numbered { b with subscriptions := b.subscriptions.map f } := by
  intro sub hsub
  obtain ⟨sub', hsub', rfl⟩ := List.mem_map.mp hsub
  rw [hf]
  exact h sub' hsub'

theorem Numbered.drop (h : b.Numbered) : (b.drop number).Numbered :=
  h.map fun _ => by split <;> rfl

theorem Numbered.look (h : b.Numbered) : (b.look number).2.Numbered := by
  rw [Bus.look]
  split
  · exact h.drop
  · exact h.map fun _ => by split <;> rfl

end Bus

end Hydration
