import Hydration.Proofs.Requirement.Outcome

/-!
# Evaluations that keep track

`Tracks known Waits t e` says that the evaluation `e` of the formula `t` is where it
should be when `known` gives the outcomes of the leaves: it has settled exactly if the
formula has an outcome, and otherwise its open leaves are held by waits that stand
for them.

An `Account` says how leaves behave on states of some kind: a leaf that is started, and
a wait that is resumed, reports what is known of its leaf.  Waits may own something in the
state, such as a subscription; whoever resumes or releases a wait changes nothing for
waits that are `Apart` from it.

For every account, starting a formula (`start_tracks`) and resuming an evaluation that
knew less (`resume_tracks`) give an evaluation that keeps track.  Operands that were
not reached because the node had settled do not matter: the node's outcome is that of the
whole formula (`Scanned.combine_eq`).
-/

namespace Hydration

variable {α β w σ : Type}

/-- **The evaluation of a formula is where it should be.** -/
inductive Tracks (known : α → Option Bool) (Waits : α → w → Prop) :
    Formula α → Evaluation w → Prop where
  | waiting {a : α} {v : w} : known a = none → Waits a v → Tracks known Waits (.leaf a) (.waiting v)
  | succeeded {t : Formula α} : t.outcome known = some true → Tracks known Waits t .succeeded
  | failed {t : Formula α} {error : RequirementError} :
      t.outcome known = some false → Tracks known Waits t (.failed error)
  | joining {op : Operator} {operands : List (Formula α)} {es : List (Evaluation w)} :
      List.Forall₂ (Tracks known Waits) operands es →
      (Join.ofOperator op operands.length).combine (es.map (·.outcome?)) = none →
      Tracks known Waits (.node op operands) (.joining (Join.ofOperator op operands.length) es)

namespace Tracks

variable {known known' : α → Option Bool} {Waits Waits' : α → w → Prop} {t : Formula α}
  {e : Evaluation w}

/-- An evaluation that keeps track has the outcome of its formula. -/
theorem outcome_eq (h : Tracks known Waits t e) : t.outcome known = e.outcome? := by
  induction t using Formula.induction generalizing e with
  | leaf a =>
    cases h with
    | waiting hnone _ => exact hnone
    | succeeded h => exact h
    | failed h => exact h
  | node op operands ih =>
    cases h with
    | succeeded h => exact h
    | failed h => exact h
    | @joining _ _ es hes hnone =>
      have hmap : operands.map (Formula.outcome known) = es.map (·.outcome?) := by
        clear hnone
        induction hes with
        | nil => rfl
        | cons he _ ihes =>
          rw [List.map_cons, List.map_cons, ih _ List.mem_cons_self he,
            ihes fun x hx => ih x (List.mem_cons_of_mem _ hx)]
      rw [Formula.outcome_node, hmap, hnone]
      rfl

/-- What is known of the leaves may change as long as nothing is known of those that wait. -/
theorem change (hext : ∀ a, Join.Extends (known' a) (known a)) (h : Tracks known Waits t e)
    (hwaits : ∀ a v, v ∈ e.waits → known a = none → Waits a v → known' a = none ∧ Waits' a v) :
    Tracks known' Waits' t e := by
  induction t using Formula.induction generalizing e with
  | leaf a =>
    cases h with
    | waiting hnone hw =>
      obtain ⟨hnone', hw'⟩ := hwaits a _ (List.mem_singleton_self _) hnone hw
      exact .waiting hnone' hw'
    | succeeded h => exact .succeeded ((Formula.outcome_mono hext _).of_some h)
    | failed h => exact .failed ((Formula.outcome_mono hext _).of_some h)
  | node op operands ih =>
    cases h with
    | succeeded h => exact .succeeded ((Formula.outcome_mono hext _).of_some h)
    | failed h => exact .failed ((Formula.outcome_mono hext _).of_some h)
    | @joining _ _ es hes hnone =>
      refine .joining ?_ hnone
      rw [Evaluation.waits] at hwaits
      clear hnone
      induction hes with
      | nil => exact .nil
      | cons he _ ihes =>
        rw [Evaluation.waitsAll] at hwaits
        refine .cons (ih _ List.mem_cons_self he ?_) (ihes (fun x hx => ih x ?_) ?_)
        · exact fun a v hv => hwaits a v (List.mem_append_left _ hv)
        · exact List.mem_cons_of_mem _ hx
        · exact fun a v hv => hwaits a v (List.mem_append_right _ hv)

/-- Every wait of the evaluation stands for a leaf. -/
theorem exists_leaf (h : Tracks known Waits t e) {v : w} (hv : v ∈ e.waits) :
    ∃ a ∈ t.leaves, known a = none ∧ Waits a v := by
  induction t using Formula.induction generalizing e with
  | leaf a =>
    cases h with
    | waiting hnone hw =>
      obtain rfl := List.mem_singleton.mp hv
      exact ⟨a, List.mem_singleton_self a, hnone, hw⟩
    | succeeded h => cases hv
    | failed h => cases hv
  | node op operands ih =>
    cases h with
    | succeeded h => cases hv
    | failed h => cases hv
    | @joining _ _ es hes hnone =>
      rw [Evaluation.waits] at hv
      rw [Formula.leaves]
      clear hnone
      induction hes with
      | nil => cases hv
      | cons he _ ihes =>
        rw [Evaluation.waitsAll] at hv
        rw [Formula.leavesAll]
        rcases List.mem_append.mp hv with hv | hv
        · obtain ⟨a, ha, hw⟩ := ih _ List.mem_cons_self he hv
          exact ⟨a, List.mem_append_left _ ha, hw⟩
        · obtain ⟨a, ha, hw⟩ := ihes (fun x hx => ih x (List.mem_cons_of_mem _ hx)) hv
          exact ⟨a, List.mem_append_right _ ha, hw⟩

end Tracks

/-! ## Scanning the operands of a node -/

/-- **Operands scanned from the left** up to one that decides the node.  What comes after that
one can be anything. -/
inductive Scanned (T : Formula α → Evaluation w → Prop) (join : Join) :
    Bool → List (Formula α) → List (Evaluation w) → Prop where
  | nil {clean : Bool} : Scanned T join clean [] []
  | decided {clean : Bool} {t : Formula α} {e : Evaluation w} {ts : List (Formula α)}
      {es : List (Evaluation w)} : T t e → join.decides clean e = true →
      Scanned T join clean (t :: ts) (e :: es)
  | cons {clean : Bool} {t : Formula α} {e : Evaluation w} {ts : List (Formula α)}
      {es : List (Evaluation w)} : T t e → Scanned T join (clean && e.isSucceeded) ts es →
      Scanned T join clean (t :: ts) (e :: es)

namespace Scanned

variable {known : α → Option Bool} {T : Formula α → Evaluation w → Prop} {join : Join}
  {clean : Bool} {ts : List (Formula α)} {es : List (Evaluation w)}

/-- An operand that decides gives the node its outcome. -/
theorem step_of_decides {e : Evaluation w} (h : join.decides clean e = true)
    (rest : Option Bool) : join.step e.outcome? rest = e.outcome? ∧ e.outcome? ≠ none := by
  cases join <;> cases e <;>
    simp_all [Join.decides, Evaluation.error?, Evaluation.isSucceeded, Evaluation.outcome?,
      Join.step]

theorem combine_eq (hT : ∀ t e, T t e → t.outcome known = e.outcome?)
    (h : Scanned T join clean ts es) :
    join.combine (ts.map (Formula.outcome known)) = join.combine (es.map (·.outcome?)) := by
  induction h with
  | nil => rfl
  | decided ht hd =>
    rw [List.map_cons, List.map_cons, Join.combine_cons, Join.combine_cons, hT _ _ ht,
      (step_of_decides hd _).1, (step_of_decides hd _).1]
  | cons ht _ ih =>
    rw [List.map_cons, List.map_cons, Join.combine_cons, Join.combine_cons, hT _ _ ht, ih]

/-- The outcome with which an operand decides a node. -/
def decisive (join : Join) : Bool :=
  !join.unit

/-- If no operand decides, all have been scanned. -/
theorem forall₂_or (h : Scanned T join clean ts es) :
    List.Forall₂ T ts es ∨
      join.combine (es.map (·.outcome?)) = some (decisive join) ∧
        (join = .inOrder → clean = true) := by
  induction h with
  | nil => exact .inl .nil
  | @decided clean t e ts es ht hd =>
    right
    rw [List.map_cons, Join.combine_cons, (step_of_decides hd _).1]
    cases join <;> cases e <;> simp_all [Join.decides, Evaluation.error?, Evaluation.isSucceeded,
      Evaluation.outcome?, decisive, Join.unit]
  | @cons clean t e ts es ht _ ih =>
    rcases ih with ih | ⟨hrest, hclean⟩
    · exact .inl (.cons ht ih)
    · right
      rw [List.map_cons, Join.combine_cons, hrest]
      cases join <;> cases e <;> simp_all [Evaluation.isSucceeded, Evaluation.outcome?, decisive,
        Join.unit, Join.step]

theorem forall₂ (h : Scanned T join clean ts es)
    (hnone : join.combine (es.map (·.outcome?)) = none) : List.Forall₂ T ts es := by
  rcases h.forall₂_or with h | ⟨hsome, -⟩
  · exact h
  · rw [hsome] at hnone
    cases hnone

end Scanned

/-! ## Accounts of leaves -/

/-- Two waits own nothing in common, where `key` says what a wait owns. -/
def Apart (key : w → Option Nat) (v u : w) : Prop :=
  ∀ n, key v = some n → key u ≠ some n

theorem Apart.symm {key : w → Option Nat} {v u : w} (h : Apart key v u) : Apart key u v :=
  fun n hu hv => h n hv hu

/-- **How waits behave** on the states that are `Valid`.  A leaf of type `α` is seen as some `β`, of
which `known` gives the outcome.  `Sees s b v` says that in the state `s` the wait `v` stands for
`b`; when it is resumed it reports what is known. -/
structure Account (rules : LeafRules α w σ) (known : β → Option Bool) where
  Valid : σ → Prop
  Sees : σ → β → w → Prop
  /-- What a wait owns in the state. -/
  key : w → Option Nat
  resume_valid : ∀ {s v}, Valid s → Valid (rules.resume v s).2
  resume_outcome : ∀ {s b v}, Valid s → Sees s b v →
    (Evaluation.ofSignal (rules.resume v s).1).outcome? = known b
  resume_sees : ∀ {s b v v'}, Valid s → Sees s b v → (rules.resume v s).1 = .waiting v' →
    v' = v ∧ Sees (rules.resume v s).2 b v
  resume_keeps : ∀ {s v b u}, Valid s → Sees s b u → Apart key v u → Sees (rules.resume v s).2 b u
  release_valid : ∀ {s v}, Valid s → Valid (rules.release v s)
  release_keeps : ∀ {s v b u}, Valid s → Sees s b u → Apart key v u → Sees (rules.release v s) b u

namespace Account

variable {rules : LeafRules α w σ} {known : β → Option Bool} {view : α → β}

/-- **How leaves begin to wait**: they report what is known, or own something new. -/
structure Starts (A : Account rules known) (view : α → β) : Prop where
  valid : ∀ {s a}, A.Valid s → A.Valid (rules.start a s).2
  outcome : ∀ {s a}, A.Valid s →
    (Evaluation.ofSignal (rules.start a s).1).outcome? = known (view a)
  sees : ∀ {s a v}, A.Valid s → (rules.start a s).1 = .waiting v →
    A.Sees (rules.start a s).2 (view a) v
  keeps : ∀ {s a b u}, A.Valid s → A.Sees s b u → A.Sees (rules.start a s).2 b u
  apart : ∀ {s a v b u}, A.Valid s → (rules.start a s).1 = .waiting v → A.Sees s b u →
    Apart A.key v u

variable (A : Account rules known)

/-- The formula `t` and its evaluation in the state `s`. -/
def Tracks (view : α → β) (s : σ) : Formula α → Evaluation w → Prop :=
  Hydration.Tracks (fun a => known (view a)) fun a v => A.Sees s (view a) v

variable {A}

theorem releaseAll_valid {vs : List w} {s : σ} (h : A.Valid s) :
    A.Valid (Evaluation.releaseAll rules vs s) := by
  induction vs generalizing s with
  | nil => exact h
  | cons v vs ih => exact ih (A.release_valid h)

theorem releaseAll_keeps {vs : List w} {s : σ} {b : β} {u : w} (h : A.Valid s) (hu : A.Sees s b u)
    (hvs : ∀ v ∈ vs, Apart A.key v u) : A.Sees (Evaluation.releaseAll rules vs s) b u := by
  induction vs generalizing s with
  | nil => exact hu
  | cons v vs ih =>
    exact ih (A.release_valid h) (A.release_keeps h hu (hvs v List.mem_cons_self))
      fun v' hv' => hvs v' (List.mem_cons_of_mem _ hv')

/-- Seeing the waits of an evaluation is enough to keep track. -/
theorem Tracks.keeps {t : Formula α} {e : Evaluation w} {s s' : σ} (h : A.Tracks view s t e)
    (hkeeps : ∀ b v, v ∈ e.waits → A.Sees s b v → A.Sees s' b v) : A.Tracks view s' t e :=
  h.change (fun _ => .inr rfl) fun _ v hv hnone hw => ⟨hnone, hkeeps _ v hv hw⟩

/-! ## Settling -/

theorem settle_valid {join : Join} {es : List (Evaluation w)} {s : σ} (h : A.Valid s) :
    A.Valid (join.settle rules es s).2 := by
  obtain ⟨-, hnone, hsome⟩ := Join.settle_cases rules join es s
  by_cases hc : join.combine (es.map (·.outcome?)) = none
  · rw [hnone hc]
    exact h
  · rw [hsome hc]
    exact releaseAll_valid h

theorem settle_keeps {join : Join} {es : List (Evaluation w)} {s : σ} {b : β} {u : w}
    (h : A.Valid s) (hu : A.Sees s b u)
    (hapart : ∀ v ∈ Evaluation.waitsAll es, Apart A.key v u) :
    A.Sees (join.settle rules es s).2 b u := by
  obtain ⟨-, hnone, hsome⟩ := Join.settle_cases rules join es s
  by_cases hc : join.combine (es.map (·.outcome?)) = none
  · rw [hnone hc]
    exact hu
  · rw [hsome hc]
    exact releaseAll_keeps h hu hapart

theorem settle_waits {join : Join} {es : List (Evaluation w)} {s : σ} :
    (join.settle rules es s).1.waits.Sublist (Evaluation.waitsAll es) := by
  obtain ⟨houtcome, hnone, -⟩ := Join.settle_cases rules join es s
  cases hc : join.combine (es.map (·.outcome?)) with
  | none =>
    rw [hnone hc, Evaluation.waits]
  | some b =>
    rw [Evaluation.waits_of_outcome (houtcome.trans hc)]
    exact List.nil_sublist _

/-- Once its operands have been scanned, a node keeps track. -/
theorem settle_tracks {op : Operator} {ts : List (Formula α)} {es : List (Evaluation w)} {s : σ}
    (h : Scanned (A.Tracks view s) (Join.ofOperator op ts.length) true ts es) :
    A.Tracks view ((Join.ofOperator op ts.length).settle rules es s).2 (.node op ts)
      ((Join.ofOperator op ts.length).settle rules es s).1 := by
  obtain ⟨houtcome, hnone, -⟩ :=
    Join.settle_cases rules (Join.ofOperator op ts.length) es s
  have hnode : (Formula.node op ts).outcome (fun a => known (view a)) =
      (Join.ofOperator op ts.length).combine (es.map (·.outcome?)) := by
    rw [Formula.outcome_node]
    exact h.combine_eq fun _ _ => Tracks.outcome_eq
  cases hc : (Join.ofOperator op ts.length).combine (es.map (·.outcome?)) with
  | none =>
    -- An open node has looked at every operand: nothing has decided it before.
    rw [hnone hc]
    exact .joining (h.forall₂ hc) hc
  | some b =>
    rw [hc] at houtcome hnode
    generalize ((Join.ofOperator op ts.length).settle rules es s).1 = e at houtcome
    cases e with
    | succeeded =>
      cases houtcome
      exact .succeeded hnode
    | failed error =>
      cases houtcome
      exact .failed hnode
    | waiting v => cases houtcome
    | joining join es => cases houtcome

/-! ## Starting -/

/-- **What starting comes to**: the waits are new, and nothing changes for those there are. -/
structure Begun (A : Account rules known) (s s' : σ) (waits : List w) : Prop where
  valid : A.Valid s'
  keeps : ∀ b u, A.Sees s b u → A.Sees s' b u
  apart : ∀ v ∈ waits, ∀ b u, A.Sees s b u → Apart A.key v u
  seen : ∀ v ∈ waits, ∃ b, A.Sees s' b v
  pairwise : waits.Pairwise (Apart A.key)

theorem Begun.nothing {s : σ} (h : A.Valid s) : A.Begun s s [] :=
  ⟨h, fun _ _ => id, by simp, by simp, .nil⟩

theorem Begun.append {s s₁ s₂ : σ} {vs us : List w} (h : A.Begun s s₁ vs)
    (h' : A.Begun s₁ s₂ us) : A.Begun s s₂ (vs ++ us) where
  valid := h'.valid
  keeps b u hu := h'.keeps b u (h.keeps b u hu)
  apart v hv b u hu := by
    rcases List.mem_append.mp hv with hv | hv
    · exact h.apart v hv b u hu
    · exact h'.apart v hv b u (h.keeps b u hu)
  seen v hv := by
    rcases List.mem_append.mp hv with hv | hv
    · obtain ⟨b, hb⟩ := h.seen v hv
      exact ⟨b, h'.keeps b v hb⟩
    · exact h'.seen v hv
  pairwise := by
    rw [List.pairwise_append]
    refine ⟨h.pairwise, h'.pairwise, fun v hv u hu => ?_⟩
    obtain ⟨b, hb⟩ := h.seen v hv
    exact (h'.apart u hu b v hb).symm

theorem Begun.settle {join : Join} {es : List (Evaluation w)} {s s' : σ}
    (h : A.Begun s s' (Evaluation.waitsAll es)) :
    A.Begun s (join.settle rules es s').2 (join.settle rules es s').1.waits := by
  have hsub : (join.settle rules es s').1.waits.Sublist (Evaluation.waitsAll es) := settle_waits
  refine ⟨settle_valid h.valid, fun b u hu => ?_, fun v hv => h.apart v (hsub.mem hv),
    fun v hv => ?_, h.pairwise.sublist hsub⟩
  · exact settle_keeps h.valid (h.keeps b u hu) fun v hv => h.apart v hv b u hu
  · obtain ⟨b, hb⟩ := h.seen v (hsub.mem hv)
    refine ⟨b, ?_⟩
    obtain ⟨houtcome, hnone, -⟩ := Join.settle_cases rules join es s'
    cases hc : join.combine (es.map (·.outcome?)) with
    | none =>
      rw [hnone hc]
      exact hb
    | some r =>
      rw [Evaluation.waits_of_outcome (houtcome.trans hc)] at hv
      cases hv

theorem startEach_tracks (join : Join) {ts : List (Formula α)}
    (ih : ∀ t ∈ ts, ∀ {s : σ}, A.Valid s → A.Tracks view (t.start rules s).2 t (t.start rules s).1 ∧
      A.Begun s (t.start rules s).2 (t.start rules s).1.waits)
    (clean : Bool) {s : σ} (hs : A.Valid s) :
    Scanned (A.Tracks view (Formula.startEach rules join clean ts s).2) join clean ts
        (Formula.startEach rules join clean ts s).1 ∧
      A.Begun s (Formula.startEach rules join clean ts s).2
        (Evaluation.waitsAll (Formula.startEach rules join clean ts s).1) := by
  induction ts generalizing clean s with
  | nil => exact ⟨.nil, .nothing hs⟩
  | cons t ts ihs =>
    obtain ⟨ht, hbegun⟩ := ih t List.mem_cons_self hs
    rw [Formula.startEach]
    dsimp only
    split
    · next hd =>
      refine ⟨.decided ht hd, ?_⟩
      rw [Evaluation.waitsAll, Evaluation.waitsAll, List.append_nil]
      exact hbegun
    · obtain ⟨hscan, hbegun'⟩ := ihs (fun x hx => ih x (List.mem_cons_of_mem _ hx))
        (clean && (t.start rules s).1.isSucceeded) hbegun.valid
      refine ⟨.cons (ht.keeps fun b v _ hb => hbegun'.keeps b v hb) hscan, ?_⟩
      rw [Evaluation.waitsAll]
      exact hbegun.append hbegun'

/-- **A formula that is started** keeps track. -/
theorem start_tracks (hA : A.Starts view) (t : Formula α) {s : σ} (hs : A.Valid s) :
    A.Tracks view (t.start rules s).2 t (t.start rules s).1 ∧
      A.Begun s (t.start rules s).2 (t.start rules s).1.waits := by
  induction t using Formula.induction generalizing s with
  | leaf a =>
    rw [Formula.start]
    have houtcome := hA.outcome (a := a) hs
    have hsees : ∀ v, (rules.start a s).1 = .waiting v → A.Sees (rules.start a s).2 (view a) v :=
      fun v => hA.sees hs
    have hapart : ∀ v, (rules.start a s).1 = .waiting v → ∀ b u, A.Sees s b u →
        Apart A.key v u := fun v hv b u => hA.apart hs hv
    have hvalid := hA.valid (a := a) hs
    have hkeeps : ∀ b u, A.Sees s b u → A.Sees (rules.start a s).2 b u := fun b u =>
      hA.keeps hs
    generalize rules.start a s = r at houtcome hsees hapart hvalid hkeeps
    obtain ⟨signal, s'⟩ := r
    cases signal with
    | waiting v =>
      refine ⟨.waiting houtcome.symm (hsees v rfl), hvalid, hkeeps, ?_, ?_, ?_⟩
      · intro v' hv'
        obtain rfl := List.mem_singleton.mp hv'
        exact hapart v' rfl
      · intro v' hv'
        obtain rfl := List.mem_singleton.mp hv'
        exact ⟨_, hsees v' rfl⟩
      · exact List.pairwise_singleton _ _
    | succeeded =>
      exact ⟨.succeeded houtcome.symm, hvalid, hkeeps,
        by simp [Evaluation.ofSignal, Evaluation.waits],
        by simp [Evaluation.ofSignal, Evaluation.waits], .nil⟩
    | failed error =>
      exact ⟨.failed houtcome.symm, hvalid, hkeeps, by simp [Evaluation.ofSignal, Evaluation.waits],
        by simp [Evaluation.ofSignal, Evaluation.waits], .nil⟩
  | node op ts ih =>
    -- The operands are started in order, and then the node takes stock of them.
    rw [Formula.start]
    obtain ⟨hscan, hbegun⟩ := startEach_tracks (Join.ofOperator op ts.length)
      (fun t ht _ => ih t ht) true hs
    exact ⟨settle_tracks hscan, hbegun.settle⟩

/-! ## Resuming -/

/-- **What resuming comes to**: no wait is new, and nothing changes for those that are apart from
the ones there were. -/
structure Resumed (A : Account rules known) (s s' : σ) (waits waits' : List w) : Prop where
  valid : A.Valid s'
  keeps : ∀ b u, A.Sees s b u → (∀ v ∈ waits, Apart A.key v u) → A.Sees s' b u
  sublist : waits'.Sublist waits

theorem Resumed.refl {s : σ} {waits : List w} (h : A.Valid s) : A.Resumed s s waits waits :=
  ⟨h, fun _ _ hu _ => hu, .refl _⟩

theorem Resumed.append {s s₁ s₂ : σ} {vs us vs' us' : List w} (h : A.Resumed s s₁ vs vs')
    (h' : A.Resumed s₁ s₂ us us') : A.Resumed s s₂ (vs ++ us) (vs' ++ us') where
  valid := h'.valid
  keeps b u hu hapart := h'.keeps b u
    (h.keeps b u hu fun v hv => hapart v (List.mem_append_left _ hv))
    fun v hv => hapart v (List.mem_append_right _ hv)
  sublist := h.sublist.append h'.sublist

theorem Resumed.settle {join : Join} {es : List (Evaluation w)} {s s' : σ} {waits : List w}
    (h : A.Resumed s s' waits (Evaluation.waitsAll es)) :
    A.Resumed s (join.settle rules es s').2 waits (join.settle rules es s').1.waits where
  valid := settle_valid h.valid
  keeps b u hu hapart := settle_keeps h.valid (h.keeps b u hu hapart) fun v hv =>
    hapart v (h.sublist.mem hv)
  sublist := settle_waits.trans h.sublist

variable {known₀ : α → Option Bool}

/-- The formula `t` and an evaluation that knew only `known₀`, in a state that has gone on. -/
def Lags (A : Account rules known) (view : α → β) (known₀ : α → Option Bool) (s : σ) :
    Formula α → Evaluation w → Prop :=
  Hydration.Tracks known₀ fun a v => A.Sees s (view a) v

/-- Evaluations that wait for other things are not touched when a state goes on. -/
theorem lags_goOn {ts : List (Formula α)} {es : List (Evaluation w)} {s s' : σ}
    (h : List.Forall₂ (A.Lags view known₀ s) ts es)
    (hkeep : ∀ b v, v ∈ Evaluation.waitsAll es → A.Sees s b v → A.Sees s' b v) :
    List.Forall₂ (A.Lags view known₀ s') ts es := by
  induction h with
  | nil => exact .nil
  | @cons t e ts es he _ ih =>
    rw [Evaluation.waitsAll] at hkeep
    refine .cons ?_ (ih fun b v hv => hkeep b v (List.mem_append_right _ hv))
    exact he.change (fun _ => .inr rfl) fun a v hv hnone hw =>
      ⟨hnone, hkeep _ v (List.mem_append_left _ hv) hw⟩

theorem resumeEach_tracks (join : Join) {ts : List (Formula α)}
    (ih : ∀ t ∈ ts, ∀ {e : Evaluation w} {s : σ}, A.Lags view known₀ s t e → A.Valid s →
      e.waits.Pairwise (Apart A.key) → A.Tracks view (e.resume rules s).2 t (e.resume rules s).1 ∧
        A.Resumed s (e.resume rules s).2 e.waits (e.resume rules s).1.waits)
    (clean : Bool) {es : List (Evaluation w)} {s : σ}
    (h : List.Forall₂ (A.Lags view known₀ s) ts es) (hs : A.Valid s)
    (hp : (Evaluation.waitsAll es).Pairwise (Apart A.key)) :
    Scanned (A.Tracks view (Evaluation.resumeEach rules join clean es s).2) join clean ts
        (Evaluation.resumeEach rules join clean es s).1 ∧
      A.Resumed s (Evaluation.resumeEach rules join clean es s).2 (Evaluation.waitsAll es)
        (Evaluation.waitsAll (Evaluation.resumeEach rules join clean es s).1) := by
  induction ts generalizing clean es s with
  | nil =>
    cases h
    exact ⟨.nil, .refl hs⟩
  | cons t ts ihs =>
    cases h with
    | @cons _ e _ es he hes =>
      rw [Evaluation.waitsAll, List.pairwise_append] at hp
      obtain ⟨hpe, hpes, hcross⟩ := hp
      obtain ⟨ht, hresumed⟩ := ih t List.mem_cons_self he hs hpe
      rw [Evaluation.resumeEach]
      dsimp only
      split
      · next hd =>
        refine ⟨.decided ht hd, ?_⟩
        rw [Evaluation.waitsAll, Evaluation.waitsAll]
        exact hresumed.append (.refl hresumed.valid)
      · -- The waits of the other operands are apart from those that have been resumed.
        have hes' : List.Forall₂ (A.Lags view known₀ (e.resume rules s).2) ts es :=
          lags_goOn hes fun b v hv hb => hresumed.keeps b v hb fun u hu => hcross u hu v hv
        obtain ⟨hscan, hresumed'⟩ := ihs (fun x hx => ih x (List.mem_cons_of_mem _ hx))
          (clean && (e.resume rules s).1.isSucceeded) hes' hresumed.valid hpes
        rw [Evaluation.waitsAll, Evaluation.waitsAll]
        refine ⟨.cons (ht.keeps fun b v hv hb => ?_) hscan, hresumed.append hresumed'⟩
        refine hresumed'.keeps b v hb fun u hu => ?_
        exact (hcross v (hresumed.sublist.mem hv) u hu).symm

/-- **An evaluation that is resumed** keeps track of what has become known. -/
theorem resume_tracks (view : α → β) (hext : ∀ a, Join.Extends (known (view a)) (known₀ a))
    (t : Formula α)
    {e : Evaluation w} {s : σ} (h : A.Lags view known₀ s t e) (hs : A.Valid s)
    (hp : e.waits.Pairwise (Apart A.key)) :
    A.Tracks view (e.resume rules s).2 t (e.resume rules s).1 ∧
      A.Resumed s (e.resume rules s).2 e.waits (e.resume rules s).1.waits := by
  induction t using Formula.induction generalizing e s with
  | leaf a =>
    cases h with
    | succeeded h => exact ⟨.succeeded ((Formula.outcome_mono hext _).of_some h), .refl hs⟩
    | failed h => exact ⟨.failed ((Formula.outcome_mono hext _).of_some h), .refl hs⟩
    | @waiting _ v _ hw =>
      rw [Evaluation.resume]
      have houtcome := A.resume_outcome hs hw
      have hsees : ∀ v', (rules.resume v s).1 = .waiting v' →
          v' = v ∧ A.Sees (rules.resume v s).2 (view a) v := fun v' => A.resume_sees hs hw
      have hvalid : A.Valid (rules.resume v s).2 := A.resume_valid hs
      have hkeeps : ∀ b u, A.Sees s b u → (∀ v' ∈ [v], Apart A.key v' u) →
          A.Sees (rules.resume v s).2 b u := fun b u hu hapart =>
        A.resume_keeps hs hu (hapart v List.mem_cons_self)
      generalize rules.resume v s = r at houtcome hsees hvalid hkeeps
      obtain ⟨signal, s'⟩ := r
      cases signal with
      | waiting v' =>
        obtain ⟨rfl, hseen⟩ := hsees v' rfl
        exact ⟨.waiting houtcome.symm hseen, hvalid, hkeeps, .refl _⟩
      | succeeded => exact ⟨.succeeded houtcome.symm, hvalid, hkeeps, List.nil_sublist _⟩
      | failed error => exact ⟨.failed houtcome.symm, hvalid, hkeeps, List.nil_sublist _⟩
  | node op ts ih =>
    cases h with
    | succeeded h => exact ⟨.succeeded ((Formula.outcome_mono hext _).of_some h), .refl hs⟩
    | failed h => exact ⟨.failed ((Formula.outcome_mono hext _).of_some h), .refl hs⟩
    | joining hes _ =>
      -- Each operand has its turn in a state that the ones before it have changed.
      rw [Evaluation.resume]
      obtain ⟨hscan, hresumed⟩ := resumeEach_tracks (Join.ofOperator op ts.length)
        (fun t ht _ _ => ih t ht) true hes hs hp
      exact ⟨settle_tracks hscan, hresumed.settle⟩

end Account

end Hydration
