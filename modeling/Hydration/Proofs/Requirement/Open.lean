import Hydration.Proofs.Requirement.Origin
import Hydration.Proofs.Requirement.Reached
import Mathlib.Data.List.Nodup

/-!
# Which leaves are open

A leaf is **open** by the notes of a run if it has not ended and no node above it has settled
(`Formula.Open`).  An evaluation that waits says nothing of this: it holds the waits that it is
left with.  They turn out to be those of the open leaves, at every moment of a run
(`mem_waits_iff_open`), as long as no leaf stands in the formula twice.

**No wait is left too long.**  A node that joins its operands has no outcome yet by what they have
come to (`Evaluation.Undecided`), and a leaf ends or waits but once (`spent_run`).  So a wait
stands below nodes that have not settled.

**No wait is given up too early.**  The evaluation is explained by the notes, so where it waits no
longer something has settled.
-/

namespace Hydration

variable {α w σ : Type}

/-! ## What has ended -/

namespace Note

variable {notes new : List (Note α σ)} {a : α} {result : Except RequirementError Unit}

/-- The leaves that have ended, with their results. -/
def endedOf (notes : List (Note α σ)) : List (α × Except RequirementError Unit) :=
  notes.filterMap fun
    | .begun _ _ => none
    | .ended a result => some (a, result)

theorem endedOf_append : endedOf (notes ++ new) = endedOf notes ++ endedOf new :=
  List.filterMap_append

theorem mem_endedOf : (a, result) ∈ endedOf notes ↔ .ended a result ∈ notes := by
  rw [endedOf, List.mem_filterMap]
  constructor
  · rintro ⟨note, hnote, hsome⟩
    cases note with
    | begun b s => cases hsome
    | ended b r =>
      cases hsome
      exact hnote
  · exact fun h => ⟨_, h, rfl⟩

variable [DecidableEq α]

/-- How often a leaf has ended or waits. -/
def spent (a : α) (notes : List (Note α σ)) (waits : List (α × w)) : Nat :=
  ((endedOf notes).map (·.1)).count a + (waits.map (·.1)).count a

/-- A report is either noted or leaves a wait. -/
theorem spent_ofSignal (a b : α) (notes : List (Note α σ)) (signal : Signal w) :
    spent b (notes ++ ofSignal a signal) (Evaluation.ofSignal (signal.map (a, ·))).waits =
      ((endedOf notes).map (·.1)).count b + [a].count b := by
  rw [spent, endedOf_append, List.map_append, List.count_append]
  cases signal <;>
    simp [ofSignal, endedOf, Signal.map, Evaluation.ofSignal, Evaluation.waits]

end Note

section

variable [DecidableEq α] {rules : LeafRules α w σ}

/-- Waits that are given up are not noted. -/
theorem spent_releaseAll (a : α) (vs : List (α × w)) (s : σ × List (Note α σ)) :
    Note.spent a (Evaluation.releaseAll rules.noting vs s).2 ([] : List (α × w)) ≤
      Note.spent a s.2 vs := by
  rw [Note.spent, Note.spent, notes_releaseAll]
  exact Nat.add_le_add_left (Nat.zero_le _) _

theorem starting_spent (a : α) : Starting rules.noting fun s s' as vs =>
    Note.spent a s'.2 vs ≤ ((Note.endedOf s.2).map (·.1)).count a + as.count a where
  nil _ := Nat.le_refl _
  leaf b s := by
    have hbegun : Note.endedOf (s.2 ++ [Note.begun b s.1]) = Note.endedOf s.2 := by
      rw [Note.endedOf_append]
      exact List.append_nil _
    have hreport := Note.spent_ofSignal b a (s.2 ++ [.begun b s.1]) (rules.start b s.1).1
    rw [hbegun, List.append_assoc] at hreport
    exact Nat.le_of_eq hreport
  append h h' := by
    simp only [Note.spent, List.map_append, List.count_append] at h h' ⊢
    omega
  skip bs h := by
    rw [List.count_append]
    exact Nat.le_trans h (Nat.add_le_add_left (Nat.le_add_right _ _) _)
  release h := Nat.le_trans (spent_releaseAll a _ _) h

/-- **A leaf that is started** ends or waits. -/
theorem spent_start (a : α) (t : Formula α) (s : σ × List (Note α σ)) :
    Note.spent a (t.start rules.noting s).2.2 (t.start rules.noting s).1.waits ≤
      ((Note.endedOf s.2).map (·.1)).count a + t.leaves.count a :=
  (starting_spent a).start t s

theorem resuming_spent (a : α) : Resuming rules.noting fun s s' vs us =>
    Note.spent a s'.2 us ≤ Note.spent a s.2 vs where
  refl _ _ := Nat.le_refl _
  wait v s := by
    have hreport := Note.spent_ofSignal v.1 a s.2 (rules.resume v.2 s.1).1
    exact Nat.le_of_eq hreport
  append h h' := by
    simp only [Note.spent, List.map_append, List.count_append] at h h' ⊢
    omega
  release h := Nat.le_trans (spent_releaseAll a _ _) h

/-- **A leaf that is resumed** ends or goes on waiting. -/
theorem spent_resume (a : α) (e : Evaluation (α × w)) (s : σ × List (Note α σ)) :
    Note.spent a (e.resume rules.noting s).2.2 (e.resume rules.noting s).1.waits ≤
      Note.spent a s.2 e.waits :=
  (resuming_spent a).resume e s

/-- **In a run** a leaf ends or waits as often as it stands in the formula, at most. -/
theorem spent_run (a : α) (rules : LeafRules α w σ) (t : Formula α) (s : σ)
    (changes : List (σ → σ)) :
    Note.spent a (t.notes rules s changes) (t.noted rules s changes).1.waits ≤
      t.leaves.count a := by
  rw [Formula.notes]
  induction changes using List.reverseRecOn with
  | nil =>
    have hstart : Note.spent a (t.start rules.noting (s, [])).2.2 _ ≤ _ := spent_start a t (s, [])
    rwa [Note.endedOf, List.filterMap_nil, List.map_nil, List.count_nil, Nat.zero_add] at hstart
  | append_singleton changes change ih =>
    rw [Formula.noted, List.map_append, List.map_singleton, Formula.run_concat]
    exact Nat.le_trans (spent_resume a _ _) ih

/-- Where each leaf stands once, what has ended and what waits is different from each other. -/
theorem nodup_spent {t : Formula α} (ht : t.leaves.Nodup) (rules : LeafRules α w σ) (s : σ)
    (changes : List (σ → σ)) :
    ((Note.endedOf (t.notes rules s changes)).map (·.1) ++
      (t.noted rules s changes).1.waits.map (·.1)).Nodup := by
  rw [List.nodup_iff_count_le_one] at ht ⊢
  intro a
  rw [List.count_append]
  exact Nat.le_trans (spent_run a rules t s changes) (ht a)

end

/-! ## Evaluations without an outcome -/

/-- **Nothing is decided behind the back** of a node that joins its operands: they do not settle it
by what they have come to. -/
inductive Evaluation.Undecided : Evaluation w → Prop where
  | waiting (v : w) : Undecided (waiting v)
  | succeeded : Undecided succeeded
  | failed (error : RequirementError) : Undecided (failed error)
  | joining {join : Join} {es : List (Evaluation w)} : (∀ e ∈ es, Undecided e) →
      join.combine (es.map (·.outcome?)) = none → Undecided (joining join es)

section

variable {rules : LeafRules α w σ}

theorem undecided_ofSignal (signal : Signal w) : (Evaluation.ofSignal signal).Undecided := by
  cases signal with
  | waiting v => exact .waiting v
  | succeeded => exact .succeeded
  | failed error => exact .failed error

theorem undecided_of_outcome {e : Evaluation w} {b : Bool} (h : e.outcome? = some b) :
    e.Undecided := by
  cases e with
  | waiting v => exact .waiting v
  | succeeded => exact .succeeded
  | failed error => exact .failed error
  | joining join es => cases h

theorem undecided_settle {join : Join} {es : List (Evaluation w)} (h : ∀ e ∈ es, e.Undecided)
    (s : σ) : (join.settle rules es s).1.Undecided := by
  obtain ⟨houtcome, hnone, -⟩ := Join.settle_cases rules join es s
  cases hc : join.combine (es.map (·.outcome?)) with
  | none =>
    rw [hnone hc]
    exact .joining h hc
  | some b => exact undecided_of_outcome (houtcome.trans hc)

theorem undecided_startEach {ts : List (Formula α)}
    (ih : ∀ t ∈ ts, ∀ s, (t.start rules s).1.Undecided) (join : Join) (clean : Bool) (s : σ) :
    ∀ e ∈ (Formula.startEach rules join clean ts s).1, e.Undecided := by
  induction ts generalizing clean s with
  | nil => exact nofun
  | cons t ts ihs =>
    have ht := ih t List.mem_cons_self s
    rw [Formula.startEach]
    dsimp only
    split
    · exact List.forall_mem_singleton.mpr ht
    · exact List.forall_mem_cons.mpr ⟨ht, ihs (fun x hx => ih x (List.mem_cons_of_mem _ hx)) _ _⟩

theorem undecided_start (t : Formula α) (s : σ) : (t.start rules s).1.Undecided := by
  induction t using Formula.induction generalizing s with
  | leaf a => exact undecided_ofSignal _
  | node op ts ih =>
    rw [Formula.start]
    exact undecided_settle (undecided_startEach ih _ true s) _

theorem undecided_resumeEach {es : List (Evaluation w)}
    (ih : ∀ e ∈ es, ∀ s, (e.resume rules s).1.Undecided) (hes : ∀ e ∈ es, e.Undecided)
    (join : Join) (clean : Bool) (s : σ) :
    ∀ e ∈ (Evaluation.resumeEach rules join clean es s).1, e.Undecided := by
  induction es generalizing clean s with
  | nil => exact nofun
  | cons e es ihes =>
    have he := ih e List.mem_cons_self s
    have hrest := (List.forall_mem_cons.mp hes).2
    rw [Evaluation.resumeEach]
    dsimp only
    split
    · exact List.forall_mem_cons.mpr ⟨he, hrest⟩
    · exact List.forall_mem_cons.mpr
        ⟨he, ihes (fun x hx => ih x (List.mem_cons_of_mem _ hx)) hrest _ _⟩

theorem undecided_resume {e : Evaluation w} (h : e.Undecided) (s : σ) :
    (e.resume rules s).1.Undecided := by
  induction e using Evaluation.induction generalizing s with
  | waiting v => exact undecided_ofSignal _
  | succeeded => exact .succeeded
  | failed error => exact .failed error
  | joining join es ih =>
    cases h with
    | joining hes _ =>
      rw [Evaluation.resume]
      have hoperands := undecided_resumeEach (fun e he s => ih e he (hes e he) s) hes join true s
      exact undecided_settle hoperands _

theorem undecided_run (rules : LeafRules α w σ) (t : Formula α) (s : σ) (changes : List (σ → σ)) :
    (t.run rules s changes).1.Undecided := by
  induction changes using List.reverseRecOn with
  | nil => exact undecided_start t s
  | append_singleton changes change ih =>
    rw [Formula.run_concat]
    exact undecided_resume ih _

end

/-! ## What the notes say of nodes -/

/-- Behind nothing but successes a failure fails an AND. -/
theorem Join.combine_long {join : Join} (hjoin : join ≠ .any) {before after : List (Option Bool)}
    (hbefore : ∀ o ∈ before, o = some true) :
    join.combine (before ++ some false :: after) = some false := by
  induction before with
  | nil =>
    rw [List.nil_append, combine_cons]
    cases join with
    | all => rfl
    | inOrder => rfl
    | any => exact absurd rfl hjoin
  | cons o before ih =>
    rw [List.forall_mem_cons] at hbefore
    rw [List.cons_append, combine_cons, ih hbefore.2, hbefore.1]
    cases join with
    | all => rfl
    | inOrder => rfl
    | any => exact absurd rfl hjoin

theorem Join.ofOperator_and_ne (count : Nat) : Join.ofOperator .and count ≠ .any := by
  rw [ofOperator]
  split
  · decide
  · decide

namespace Formula

variable {notes : List (Note α σ)} {t u : Formula α} {a : α}
  {result : Except RequirementError Unit} {known : α → Option Bool}

/-- **Results and outcomes agree** where `known` says of each leaf how it has ended. -/
theorem Settled.outcome_eq
    (hknown : ∀ a result, .ended a result ∈ notes → known a = some result.isOk)
    (h : Settled notes t result) : t.outcome known = some result.isOk := by
  induction h with
  | leaf ha => exact hknown _ _ ha
  | all _ ih =>
    rw [outcome_node]
    exact (Join.combine_eq_true (Join.ofOperator_and_ne _)).mpr (List.forall_mem_map.mpr ih)
  | short hlength hu _ ih =>
    rw [outcome_node, Join.ofOperator, if_pos hlength]
    exact Join.combine_all_eq_false.mpr (List.mem_map.mpr ⟨_, hu, ih⟩)
  | @long before u after error _ _ ihbefore ih =>
    rw [outcome_node, List.map_append, List.map_cons, ih]
    exact Join.combine_long (Join.ofOperator_and_ne _) (List.forall_mem_map.mpr ihbefore)
  | any hu _ ih =>
    rw [outcome_node]
    exact Join.combine_any_eq_true.mpr (List.mem_map.mpr ⟨_, hu, ih⟩)
  | none _ ih =>
    rw [outcome_node]
    exact Join.combine_any_eq_false.mpr (List.forall_mem_map.mpr ih)

/-- **A leaf is open** by the notes: it has not ended, and no node above it has settled. -/
structure Open (notes : List (Note α σ)) (t : Formula α) (a : α) : Prop where
  unfinished : ∀ result, .ended a result ∉ notes
  undecided : ∀ op operands, (node op operands).Part t → a ∈ (node op operands).leaves →
    ∀ result, ¬ (node op operands).Settled notes result

theorem Open.operand {op : Operator} {operands : List (Formula α)}
    (h : Open notes (node op operands) a) (hu : u ∈ operands) : Open notes u a :=
  ⟨h.unfinished, fun op operands hpart => h.undecided op operands (.operand hu hpart)⟩

end Formula

/-! ## Where an evaluation waits -/

theorem Evaluation.mem_waitsAll {es : List (Evaluation w)} {v : w} :
    v ∈ waitsAll es ↔ ∃ e ∈ es, v ∈ e.waits := by
  induction es with
  | nil => simp [waitsAll]
  | cons e es ih => simp [waitsAll, ih]

namespace Explained

variable {notes : List (Note α σ)} {t u : Formula α} {e : Evaluation (α × w)} {a : α}
  {known : α → Option Bool}

/-- **No wait is given up too early**: an evaluation waits for all open leaves. -/
theorem mem_waits_of_open (h : Explained notes t e) (ha : a ∈ t.leaves) (hopen : t.Open notes a) :
    a ∈ e.waits.map (·.1) := by
  induction t using Formula.induction generalizing e with
  | leaf b =>
    obtain rfl := List.mem_singleton.mp ha
    cases h with
    | waiting => exact List.mem_singleton_self a
    | settled _ hsettled =>
      cases hsettled with
      | leaf hended => exact absurd hended (hopen.unfinished _)
  | node op operands ih =>
    cases h with
    | settled _ hsettled => exact absurd hsettled (hopen.undecided op operands .refl ha _)
    | joining hes =>
      obtain ⟨u, hu, hau⟩ := Formula.mem_leaves_node.mp ha
      obtain ⟨e, he, hue⟩ := exists_of_forall₂ hes hu
      obtain ⟨v, hv, rfl⟩ := List.mem_map.mp (ih u hu hue hau (hopen.operand hu))
      exact List.mem_map.mpr ⟨v, Evaluation.mem_waitsAll.mpr ⟨e, he, hv⟩, rfl⟩

/-- An evaluation that is explained and undecided keeps track of what has ended. -/
theorem tracks (hknown : ∀ a result, .ended a result ∈ notes → known a = some result.isOk)
    (h : Explained notes t e) (hundecided : e.Undecided)
    (hwaits : ∀ v ∈ e.waits, known v.1 = none) : Tracks known (fun a v => v.1 = a) t e := by
  have settled : ∀ {t : Formula α} {e : Evaluation (α × w)} {result : Except RequirementError Unit},
      e.result? = some result → t.Settled notes result →
        Tracks known (fun a (v : α × w) => v.1 = a) t e := by
    intro t e result hresult hsettled
    have houtcome := hsettled.outcome_eq hknown
    cases e with
    | succeeded =>
      cases hresult
      exact .succeeded houtcome
    | failed error =>
      cases hresult
      exact .failed houtcome
    | waiting v => cases hresult
    | joining join es => cases hresult
  induction t using Formula.induction generalizing e with
  | leaf b =>
    cases h with
    | waiting => exact .waiting (hwaits _ (List.mem_singleton_self _)) rfl
    | settled hresult hsettled => exact settled hresult hsettled
  | node op operands ih =>
    cases h with
    | settled hresult hsettled => exact settled hresult hsettled
    | @joining _ _ es hes =>
      cases hundecided with
      | joining hundecided hnone =>
        refine .joining ?_ hnone
        rw [Evaluation.waits] at hwaits
        clear hnone
        induction hes with
        | nil => exact .nil
        | cons he _ ihes =>
          rw [List.forall_mem_cons] at hundecided
          rw [Evaluation.waitsAll, List.forall_mem_append] at hwaits
          exact .cons (ih _ List.mem_cons_self he hundecided.1 hwaits.1)
            (ihes (fun x hx => ih x (List.mem_cons_of_mem _ hx)) hwaits.2 hundecided.2)

end Explained

namespace Tracks

variable {notes : List (Note α σ)} {t u : Formula α} {e : Evaluation (α × w)} {v : α × w}
  {known : α → Option Bool}

theorem mem_leaves (h : Tracks known (fun a v => v.1 = a) t e) (hv : v ∈ e.waits) :
    v.1 ∈ t.leaves := by
  obtain ⟨a, ha, -, rfl⟩ := h.exists_leaf hv
  exact ha

/-- The operand that a waiting leaf belongs to is the one whose evaluation waits for it. -/
theorem exists_operand {ts : List (Formula α)} {es : List (Evaluation (α × w))}
    (h : List.Forall₂ (Tracks known fun a v => v.1 = a) ts es)
    (hnodup : (Formula.leavesAll ts).Nodup) (hu : u ∈ ts) (hleaf : v.1 ∈ u.leaves)
    (hv : v ∈ Evaluation.waitsAll es) :
    ∃ e, Tracks known (fun a v => v.1 = a) u e ∧ v ∈ e.waits := by
  induction h with
  | nil => cases hu
  | @cons t e ts es he hes ih =>
    rw [Formula.leavesAll, List.nodup_append] at hnodup
    obtain ⟨-, hrest, hapart⟩ := hnodup
    rw [Evaluation.waitsAll, List.mem_append] at hv
    rcases List.mem_cons.mp hu with rfl | hu
    · rcases hv with hv | hv
      · exact ⟨e, he, hv⟩
      · obtain ⟨e', he', hv⟩ := Evaluation.mem_waitsAll.mp hv
        obtain ⟨t', ht', htracks⟩ := exists_of_forall₂ hes.flip he'
        exact absurd rfl (hapart _ hleaf _
          (Formula.mem_leavesAll.mpr ⟨t', ht', mem_leaves htracks hv⟩))
    · rcases hv with hv | hv
      · exact absurd rfl (hapart _ (he.mem_leaves hv) _ (Formula.mem_leavesAll.mpr ⟨u, hu, hleaf⟩))
      · exact ih hrest hu hv

/-- **Every part around a waiting leaf** has an evaluation that waits for it. -/
theorem exists_part (h : Tracks known (fun a v => v.1 = a) t e) (hnodup : t.leaves.Nodup)
    (hu : u.Part t) (hleaf : v.1 ∈ u.leaves) (hv : v ∈ e.waits) :
    ∃ e, Tracks known (fun a v => v.1 = a) u e ∧ v ∈ e.waits := by
  induction hu generalizing e with
  | refl => exact ⟨e, h, hv⟩
  | operand hx hpart ih =>
    cases h with
    | succeeded => cases hv
    | failed => cases hv
    | joining hes _ =>
      rw [Formula.leaves] at hnodup
      obtain ⟨e', he', hv'⟩ := exists_operand hes hnodup hx (hpart.mem_leaves hleaf) hv
      exact ih he' ((Formula.sublist_leavesAll hx).nodup hnodup) hv'

/-- **No wait is left too long**: what is waited for is open. -/
theorem open_of_mem_waits
    (hknown : ∀ a result, .ended a result ∈ notes → known a = some result.isOk)
    (h : Tracks known (fun a v => v.1 = a) t e) (hnodup : t.leaves.Nodup) (hv : v ∈ e.waits) :
    t.Open notes v.1 where
  unfinished result hended := by
    obtain ⟨a, -, hnone, rfl⟩ := h.exists_leaf hv
    rw [hknown _ _ hended] at hnone
    cases hnone
  undecided op operands hpart hleaf result hsettled := by
    obtain ⟨e', he', hv'⟩ := h.exists_part hnodup hpart hleaf hv
    have houtcome := he'.outcome_eq
    rw [hsettled.outcome_eq hknown] at houtcome
    rw [Evaluation.waits_of_outcome houtcome.symm] at hv'
    cases hv'

end Tracks

/-- **At every moment of a run** the leaves that are waited for are the open ones. -/
theorem mem_waits_iff_open [DecidableEq α] {t : Formula α} (ht : t.leaves.Nodup)
    (rules : LeafRules α w σ) (s : σ) (changes : List (σ → σ)) {a : α} (ha : a ∈ t.leaves) :
    a ∈ (t.noted rules s changes).1.waits.map (·.1) ↔ t.Open (t.notes rules s changes) a := by
  have hexplained := explained_run rules t s changes
  refine ⟨fun hwait => ?_, hexplained.mem_waits_of_open ha⟩
  obtain ⟨hended, -, hapart⟩ := List.nodup_append.mp (nodup_spent ht rules s changes)
  -- What is known of a leaf is how it has ended, of which there is but one note.
  have hone : ∀ a, ∃ outcome : Option Bool,
      (∀ result, .ended a result ∈ t.notes rules s changes → outcome = some result.isOk) ∧
      ((∀ result, .ended a result ∉ t.notes rules s changes) → outcome = none) := by
    intro a
    by_cases h : ∃ result, .ended a result ∈ t.notes rules s changes
    · obtain ⟨result, hresult⟩ := h
      refine ⟨some result.isOk, fun result' hresult' => ?_, fun hnone => absurd hresult (hnone _)⟩
      have hsame := List.inj_on_of_nodup_map hended (Note.mem_endedOf.mpr hresult)
        (Note.mem_endedOf.mpr hresult') rfl
      rw [(Prod.mk.inj hsame).2]
    · exact ⟨none, fun result hresult => absurd ⟨result, hresult⟩ h, fun _ => rfl⟩
  choose known hknown hnone using hone
  obtain ⟨v, hv, rfl⟩ := List.mem_map.mp hwait
  have htracks := hexplained.tracks hknown (undecided_run rules.noting t (s, []) _) fun u hu =>
    hnone u.1 fun result hresult => hapart _
      (List.mem_map.mpr ⟨_, Note.mem_endedOf.mpr hresult, rfl⟩) _ (List.mem_map_of_mem hu) rfl
  exact htracks.open_of_mem_waits hknown ht hv

end Hydration
