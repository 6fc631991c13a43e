import Hydration.Proofs.Requirement.Reached

/-!
# The order of waits

A wait may bear a **key** that its leaf gets when it begins to wait, such as the number of a
subscription, and keeps as long as it waits (`Keyed`).  Then the keys that an evaluation waits with
are read off the notes of its run: they stand in the order in which their leaves have been started,
each with the key that it got then (`Keyed.waits_sublist_begun`).
-/

namespace Hydration

variable {α w σ : Type}

/-- **Waits keep their keys**, where `fresh` says which key a leaf gets that begins to wait. -/
structure Keyed {κ : Type} (rules : LeafRules α w σ) (key : w → κ) (fresh : α → σ → κ) : Prop where
  start : ∀ {a s v}, (rules.start a s).1 = .waiting v → key v = fresh a s
  resume : ∀ {v s v'}, (rules.resume v s).1 = .waiting v' → key v' = key v

namespace Keyed

variable {κ : Type} {rules : LeafRules α w σ} {key : w → κ} {fresh : α → σ → κ}

/-- The keys of waits with their leaves. -/
def ofWaits (key : w → κ) (waits : List (α × w)) : List (α × κ) :=
  waits.map fun v => (v.1, key v.2)

/-- The keys that leaves get when they are started. -/
def ofBegun (fresh : α → σ → κ) (begun : List (α × σ)) : List (α × κ) :=
  begun.map fun p => (p.1, fresh p.1 p.2)

theorem ofWaits_append {vs us : List (α × w)} :
    ofWaits key (vs ++ us) = ofWaits key vs ++ ofWaits key us :=
  List.map_append

theorem ofBegun_append {begun new : List (α × σ)} :
    ofBegun fresh (begun ++ new) = ofBegun fresh begun ++ ofBegun fresh new :=
  List.map_append

/-- What has been started since, in order, with the waits that are left of it. -/
def Since (key : w → κ) (fresh : α → σ → κ) (s s' : σ × List (Note α σ)) (waits : List (α × w)) :
    Prop :=
  ∃ new, Note.begunOf s'.2 = Note.begunOf s.2 ++ new ∧
    (ofWaits key waits).Sublist (ofBegun fresh new)

theorem Since.trans {s s₁ s₂ : σ × List (Note α σ)} {vs us : List (α × w)}
    (h : Since key fresh s s₁ vs) (h' : Since key fresh s₁ s₂ us) :
    Since key fresh s s₂ (vs ++ us) := by
  obtain ⟨new, hnew, hsub⟩ := h
  obtain ⟨new', hnew', hsub'⟩ := h'
  refine ⟨new ++ new', by rw [hnew', hnew, List.append_assoc], ?_⟩
  rw [ofWaits_append, ofBegun_append]
  exact hsub.append hsub'

theorem starting_since (h : Keyed rules key fresh) :
    Starting rules.noting fun s s' _ vs => Since key fresh s s' vs where
  nil s := ⟨[], (List.append_nil _).symm, .slnil⟩
  leaf a s := by
    refine ⟨[(a, s.1)], begunOf_noting_start rules a s, ?_⟩
    show (ofWaits key (Evaluation.ofSignal ((rules.start a s.1).1.map (a, ·))).waits).Sublist _
    cases hsignal : (rules.start a s.1).1 with
    | waiting v =>
      have hkey := h.start hsignal
      simp [Signal.map, Evaluation.ofSignal, Evaluation.waits, ofWaits, ofBegun, hkey]
    | succeeded => exact List.nil_sublist _
    | failed error => exact List.nil_sublist _
  append hfirst hrest := hfirst.trans hrest
  skip _ hsince := hsince
  release := by
    rintro s s' as vs ⟨new, hnew, -⟩
    exact ⟨new, by rw [notes_releaseAll, hnew], List.nil_sublist _⟩

/-- **What is started** waits in order. -/
theorem since_start (h : Keyed rules key fresh) (t : Formula α) (s : σ × List (Note α σ)) :
    Since key fresh s (t.start rules.noting s).2 (t.start rules.noting s).1.waits :=
  h.starting_since.start t s

theorem resuming_sublist (h : Keyed rules key fresh) :
    Resuming rules.noting fun _ _ vs us => (ofWaits key us).Sublist (ofWaits key vs) where
  refl _ _ := .refl _
  wait v s := by
    show (ofWaits key
      (Evaluation.ofSignal ((rules.resume v.2 s.1).1.map (v.1, ·))).waits).Sublist _
    cases hsignal : (rules.resume v.2 s.1).1 with
    | waiting v' =>
      have hkey := h.resume hsignal
      simp [Signal.map, Evaluation.ofSignal, Evaluation.waits, ofWaits, hkey]
    | succeeded => exact List.nil_sublist _
    | failed error => exact List.nil_sublist _
  append hfirst hrest := by
    rw [ofWaits_append, ofWaits_append]
    exact hfirst.append hrest
  release _ := List.nil_sublist _

/-- **What is resumed** keeps the order and the keys of the waits that are left. -/
theorem resume_sublist (h : Keyed rules key fresh) (e : Evaluation (α × w))
    (s : σ × List (Note α σ)) :
    (ofWaits key (e.resume rules.noting s).1.waits).Sublist (ofWaits key e.waits) :=
  h.resuming_sublist.resume e s

/-- **The waits of a run** are among the leaves that have been started, in their order and each with
the key that its leaf got. -/
theorem waits_sublist_begun (h : Keyed rules key fresh) (t : Formula α) (s : σ)
    (changes : List (σ → σ)) : (ofWaits key (t.noted rules s changes).1.waits).Sublist
      (ofBegun fresh (Note.begunOf (t.notes rules s changes))) := by
  rw [begun_run]
  induction changes using List.reverseRecOn with
  | nil =>
    obtain ⟨new, hnew, hsub⟩ := h.since_start t (s, [])
    rw [hnew]
    exact hsub
  | append_singleton changes change ih =>
    rw [Formula.noted, List.map_append, List.map_singleton, Formula.run_concat]
    exact (h.resume_sublist _ _).trans ih

end Keyed

end Hydration
