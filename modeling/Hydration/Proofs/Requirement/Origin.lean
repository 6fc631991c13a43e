import Hydration.Proofs.Requirement.Noting
import Hydration.Proofs.Requirement.Tracking
import Hydration.Proofs.Strategy.Wait

/-!
# Where errors come from

The notes of a run say which leaves have ended and how.  From them the results of all formulas can
be read off (`Formula.Settled`), and the result of the run is one of them
(`settled_of_run`): at every moment the evaluation is `Explained` by the notes.

So an error can be followed to where it comes from.  It passes through ANDs only: it has been
reported by a leaf, or it is the count of the operands of an OR that have all failed
(`Settled.origin`).  Leaves that stand for conditions report what their strategies throw
(`Reports`).  Together this is `error_origin`.
-/

namespace Hydration

variable {α w σ : Type}

/-! ## Results read off notes -/

namespace Formula

/-- **The results of formulas** by what is noted of their leaves. -/
inductive Settled (notes : List (Note α σ)) : Formula α → Except RequirementError Unit → Prop where
  | leaf {a : α} {result : Except RequirementError Unit} :
      .ended a result ∈ notes → Settled notes (leaf a) result
  | all {operands : List (Formula α)} : (∀ u ∈ operands, Settled notes u (.ok ())) →
      Settled notes (node .and operands) (.ok ())
  | short {operands : List (Formula α)} {u : Formula α} {error : RequirementError} :
      operands.length ≤ Join.limit → u ∈ operands → Settled notes u (.error error) →
      Settled notes (node .and operands) (.error error)
  | long {before : List (Formula α)} {u : Formula α} {after : List (Formula α)}
      {error : RequirementError} : (∀ v ∈ before, Settled notes v (.ok ())) →
      Settled notes u (.error error) →
      Settled notes (node .and (before ++ u :: after)) (.error error)
  | any {operands : List (Formula α)} {u : Formula α} : u ∈ operands → Settled notes u (.ok ()) →
      Settled notes (node .or operands) (.ok ())
  | none {operands : List (Formula α)} {errors : Formula α → RequirementError} :
      (∀ u ∈ operands, Settled notes u (.error (errors u))) →
      Settled notes (node .or operands) (.error (.noneSatisfied operands.length))

/-- A formula and those that it cannot succeed without: the operands of its ANDs. -/
inductive Requires : Formula α → Formula α → Prop where
  | refl (t : Formula α) : Requires t t
  | operand {operands : List (Formula α)} {u t : Formula α} : u ∈ operands → Requires u t →
      Requires (node .and operands) t

variable {notes notes' : List (Note α σ)} {t : Formula α} {error : RequirementError}
  {result : Except RequirementError Unit}

/-- More notes leave a result as it is. -/
theorem Settled.mono (h : Settled notes t result) (hnotes : notes ⊆ notes') :
    Settled notes' t result := by
  induction h with
  | leaf ha => exact .leaf (hnotes ha)
  | all _ ih => exact .all ih
  | short hlength hu _ ih => exact .short hlength hu ih
  | long _ _ ihbefore ih => exact .long ihbefore ih
  | any hu _ ih => exact .any hu ih
  | none _ ih => exact .none ih

/-- **An error passes through ANDs only**: it is that of a leaf or that of an OR. -/
theorem Settled.origin (h : Settled notes t (.error error)) :
    (∃ a, t.Requires (.leaf a) ∧ .ended a (.error error) ∈ notes) ∨
      ∃ operands, t.Requires (.node .or operands) ∧ error = .noneSatisfied operands.length ∧
        ∀ u ∈ operands, ∃ error, Settled notes u (.error error) := by
  generalize hresult : Except.error error = result at h
  induction h with
  | @leaf a result ha =>
    subst hresult
    exact .inl ⟨a, .refl _, ha⟩
  | all => cases hresult
  | short _ hu _ ih =>
    rcases ih hresult with ⟨a, ha, hended⟩ | ⟨operands, hor, hfailed⟩
    · exact .inl ⟨a, .operand hu ha, hended⟩
    · exact .inr ⟨operands, .operand hu hor, hfailed⟩
  | @long before u after _ _ _ _ ih =>
    have hu : u ∈ before ++ u :: after := List.mem_append_right _ List.mem_cons_self
    rcases ih hresult with ⟨a, ha, hended⟩ | ⟨operands, hor, hfailed⟩
    · exact .inl ⟨a, .operand hu ha, hended⟩
    · exact .inr ⟨operands, .operand hu hor, hfailed⟩
  | any => cases hresult
  | @none operands errors hfailed =>
    cases hresult
    exact .inr ⟨operands, .refl _, rfl, fun u hu => ⟨errors u, hfailed u hu⟩⟩

/-- An OR fails only if all its operands do. -/
theorem Settled.of_or {operands : List (Formula α)}
    (h : Settled notes (node .or operands) (.error error)) {u : Formula α} (hu : u ∈ operands) :
    ∃ error, Settled notes u (.error error) := by
  cases h with
  | none hfailed => exact ⟨_, hfailed u hu⟩

end Formula

/-! ## Evaluations that notes explain -/

/-- **An evaluation is explained** by notes: where it has settled the formula has the same result
by the notes, and where it waits it waits for the right leaf. -/
inductive Explained (notes : List (Note α σ)) : Formula α → Evaluation (α × w) → Prop where
  | waiting {a : α} {v : w} : Explained notes (.leaf a) (.waiting (a, v))
  | settled {t : Formula α} {e : Evaluation (α × w)} {result : Except RequirementError Unit} :
      e.result? = some result → t.Settled notes result → Explained notes t e
  | joining {op : Operator} {operands : List (Formula α)} {es : List (Evaluation (α × w))} :
      List.Forall₂ (Explained notes) operands es →
      Explained notes (.node op operands) (.joining (Join.ofOperator op operands.length) es)

namespace Explained

variable {notes notes' : List (Note α σ)} {t : Formula α} {e : Evaluation (α × w)}
  {result : Except RequirementError Unit}

theorem settled_of_result (h : Explained notes t e) (hresult : e.result? = some result) :
    t.Settled notes result := by
  cases h with
  | waiting => cases hresult
  | settled hsome hsettled =>
    obtain rfl := Option.some.inj (hsome.symm.trans hresult)
    exact hsettled
  | joining => cases hresult

theorem settled_of_succeeded (h : Explained notes t e) (he : e.isSucceeded = true) :
    t.Settled notes (.ok ()) := by
  cases e with
  | succeeded => exact h.settled_of_result rfl
  | waiting v => cases he
  | failed error => cases he
  | joining join es => cases he

theorem settled_of_error {error : RequirementError} (h : Explained notes t e)
    (he : e.error? = some error) : t.Settled notes (.error error) := by
  cases e with
  | failed error' =>
    obtain rfl := Option.some.inj he
    exact h.settled_of_result rfl
  | waiting v => cases he
  | succeeded => cases he
  | joining join es => cases he

theorem mono (h : Explained notes t e) (hnotes : notes ⊆ notes') : Explained notes' t e := by
  induction t using Formula.induction generalizing e with
  | leaf a =>
    cases h with
    | waiting => exact .waiting
    | settled hresult hsettled => exact .settled hresult (hsettled.mono hnotes)
  | node op operands ih =>
    cases h with
    | settled hresult hsettled => exact .settled hresult (hsettled.mono hnotes)
    | joining hes =>
      refine .joining ?_
      induction hes with
      | nil => exact .nil
      | cons he _ ihes =>
        exact .cons (ih _ List.mem_cons_self he) (ihes fun x hx => ih x (List.mem_cons_of_mem _ hx))

end Explained

/-! ## The operand that settles a node -/

namespace Scanned

variable {T : Formula α → Evaluation w → Prop} {clean : Bool} {ts : List (Formula α)}
  {es : List (Evaluation w)} {error : RequirementError}

theorem exists_error (h : Scanned T .all clean ts es)
    (herror : es.findSome? Evaluation.error? = some error) :
    ∃ t ∈ ts, ∃ e, T t e ∧ e.error? = some error := by
  induction h with
  | nil => cases herror
  | @decided _ t e _ _ ht hd =>
    obtain ⟨error', he⟩ := Option.isSome_iff_exists.mp hd
    rw [List.findSome?_cons, he] at herror
    exact ⟨t, List.mem_cons_self, e, ht, he.trans herror⟩
  | @cons _ t e _ _ ht _ ih =>
    rw [List.findSome?_cons] at herror
    split at herror
    · next he => exact ⟨t, List.mem_cons_self, e, ht, he.trans herror⟩
    · obtain ⟨u, hu, hfailed⟩ := ih herror
      exact ⟨u, List.mem_cons_of_mem _ hu, hfailed⟩

theorem exists_error_inOrder (h : Scanned T .inOrder clean ts es)
    (herror : Join.firstInOrder es = some (.error error)) :
    ∃ before t after, ts = before ++ t :: after ∧
      (∀ u ∈ before, ∃ e, T u e ∧ e.isSucceeded = true) ∧ ∃ e, T t e ∧ e.error? = some error := by
  induction h with
  | nil => cases herror
  | @decided clean t e ts es ht hd =>
    cases e with
    | failed error' =>
      cases herror
      exact ⟨[], t, ts, rfl, nofun, _, ht, rfl⟩
    | waiting v => simp [Join.decides, Evaluation.error?] at hd
    | succeeded => simp [Join.decides, Evaluation.error?] at hd
    | joining join es => simp [Join.decides, Evaluation.error?] at hd
  | @cons clean t e ts es ht _ ih =>
    cases e with
    | failed error' =>
      cases herror
      exact ⟨[], t, ts, rfl, nofun, _, ht, rfl⟩
    | succeeded =>
      obtain ⟨before, u, after, rfl, hbefore, hfailed⟩ := ih herror
      exact ⟨t :: before, u, after, rfl,
        List.forall_mem_cons.mpr ⟨⟨_, ht, rfl⟩, hbefore⟩, hfailed⟩
    | waiting v => cases herror
    | joining join es => cases herror

theorem exists_succeeded (h : Scanned T .any clean ts es)
    (hsucceeded : es.any Evaluation.isSucceeded = true) :
    ∃ t ∈ ts, ∃ e, T t e ∧ e.isSucceeded = true := by
  induction h with
  | nil => cases hsucceeded
  | @decided _ t e _ _ ht hd => exact ⟨t, List.mem_cons_self, e, ht, hd⟩
  | @cons _ t e _ _ ht _ ih =>
    rw [List.any_cons, Bool.or_eq_true] at hsucceeded
    rcases hsucceeded with he | hrest
    · exact ⟨t, List.mem_cons_self, e, ht, he⟩
    · obtain ⟨u, hu, he⟩ := ih hrest
      exact ⟨u, List.mem_cons_of_mem _ hu, he⟩

end Scanned

theorem exists_of_forall₂ {β γ : Type} {R : β → γ → Prop} {xs : List β} {ys : List γ}
    (h : List.Forall₂ R xs ys) {x : β} (hx : x ∈ xs) : ∃ y ∈ ys, R x y := by
  induction h with
  | nil => cases hx
  | @cons y z xs zs hyz _ ih =>
    rcases List.mem_cons.mp hx with rfl | hx
    · exact ⟨z, List.mem_cons_self, hyz⟩
    · obtain ⟨z', hz', hR⟩ := ih hx
      exact ⟨z', List.mem_cons_of_mem _ hz', hR⟩

/-! ## Runs are explained by their notes -/

section

variable {rules : LeafRules α w σ}

/-- More has been noted than before. -/
def Grown (notes : List (Note α σ)) (s : σ × List (Note α σ)) : Prop :=
  notes ⊆ s.2

theorem Grown.refl (s : σ × List (Note α σ)) : Grown s.2 s :=
  List.Subset.refl _

theorem Grown.trans {notes : List (Note α σ)} {s s' : σ × List (Note α σ)} (h : Grown notes s)
    (h' : Grown s.2 s') : Grown notes s' :=
  List.Subset.trans h h'

theorem Grown.append {notes : List (Note α σ)} {s s' : σ × List (Note α σ)}
    {new : List (Note α σ)} (h : Grown notes s) (hs' : s'.2 = s.2 ++ new) : Grown notes s' := by
  rw [Grown, hs']
  exact List.Subset.trans h (List.subset_append_left _ _)

theorem grown_start (t : Formula α) (s : σ × List (Note α σ)) :
    Grown s.2 (t.start rules.noting s).2 :=
  start_keeps (fun _ _ h => h.append rfl) (fun _ _ h => h) t (Grown.refl s)

theorem grown_startEach (join : Join) (clean : Bool) (ts : List (Formula α))
    (s : σ × List (Note α σ)) :
    Grown s.2 (Formula.startEach rules.noting join clean ts s).2 := by
  induction ts generalizing clean s with
  | nil => exact .refl s
  | cons t ts ih =>
    rw [Formula.startEach]
    dsimp only
    split
    · exact grown_start t s
    · exact (grown_start t s).trans (ih _ _)

theorem grown_resume (e : Evaluation (α × w)) (s : σ × List (Note α σ)) :
    Grown s.2 (e.resume rules.noting s).2 :=
  resume_keeps (fun _ _ h => h.append rfl) (fun _ _ h => h) e (Grown.refl s)

theorem grown_resumeEach (join : Join) (clean : Bool) (es : List (Evaluation (α × w)))
    (s : σ × List (Note α σ)) :
    Grown s.2 (Evaluation.resumeEach rules.noting join clean es s).2 := by
  induction es generalizing clean s with
  | nil => exact .refl s
  | cons e es ih =>
    rw [Evaluation.resumeEach]
    dsimp only
    split
    · exact grown_resume e s
    · exact (grown_resume e s).trans (ih _ _)

/-- Where all operands have been scanned, each has the result of its evaluation. -/
theorem settled_of_forall₂ {notes : List (Note α σ)} {ts : List (Formula α)}
    {es : List (Evaluation (α × w))} (h : List.Forall₂ (Explained notes) ts es) {succeeds : Bool}
    (hes : ∀ o ∈ es.map (·.outcome?), o = some succeeds) {u : Formula α} (hu : u ∈ ts) :
    ∃ result, u.Settled notes result ∧ result.isOk = succeeds := by
  obtain ⟨e, he, hue⟩ := exists_of_forall₂ h hu
  have houtcome := hes _ (List.mem_map_of_mem he)
  cases e with
  | succeeded =>
    cases houtcome
    exact ⟨_, hue.settled_of_result rfl, rfl⟩
  | failed error =>
    cases houtcome
    exact ⟨_, hue.settled_of_result rfl, rfl⟩
  | waiting v => cases houtcome
  | joining join es => cases houtcome

theorem settled_and_of_ok {notes : List (Note α σ)} {ts : List (Formula α)}
    {es : List (Evaluation (α × w))}
    (h : Scanned (Explained notes) (Join.ofOperator .and ts.length) true ts es)
    (hcombine : (Join.ofOperator .and ts.length).combine (es.map (·.outcome?)) = some true) :
    (Formula.node .and ts).Settled notes (.ok ()) := by
  have hjoin : Join.ofOperator .and ts.length ≠ .any ∧
      Scanned.decisive (Join.ofOperator .and ts.length) = false := by
    rw [Join.ofOperator]
    split <;> exact ⟨nofun, rfl⟩
  rcases h.forall₂_or with hall | ⟨hdecided, -⟩
  · refine .all fun u hu => ?_
    obtain ⟨result, hresult, hok⟩ :=
      settled_of_forall₂ hall ((Join.combine_eq_true hjoin.1).mp hcombine) hu
    cases result with
    | ok => exact hresult
    | error error => cases hok
  · rw [hcombine, hjoin.2] at hdecided
    cases hdecided

theorem settled_and_of_error {notes : List (Note α σ)} {ts : List (Formula α)}
    {es : List (Evaluation (α × w))} {error : RequirementError}
    (h : Scanned (Explained notes) (Join.ofOperator .and ts.length) true ts es)
    (hverdict : (Join.ofOperator .and ts.length).verdict es = some (.error error)) :
    (Formula.node .and ts).Settled notes (.error error) := by
  rw [Join.ofOperator] at h hverdict
  split at h
  · next hlength =>
    rw [if_pos hlength, Join.verdict] at hverdict
    have herror : es.findSome? Evaluation.error? = some error := by
      split at hverdict
      · next herror =>
        cases hverdict
        exact herror
      · split at hverdict
        · cases hverdict
        · cases hverdict
    obtain ⟨u, hu, e, hue, he⟩ := h.exists_error herror
    exact .short hlength hu (hue.settled_of_error he)
  · next hlength =>
    rw [if_neg hlength] at hverdict
    obtain ⟨before, u, after, rfl, hbefore, e, hue, he⟩ := h.exists_error_inOrder hverdict
    refine .long (fun v hv => ?_) (hue.settled_of_error he)
    obtain ⟨e', hve, hsucceeded⟩ := hbefore v hv
    exact hve.settled_of_succeeded hsucceeded

theorem settled_or {notes : List (Note α σ)} {ts : List (Formula α)}
    {es : List (Evaluation (α × w))} {result : Except RequirementError Unit}
    (h : Scanned (Explained notes) .any true ts es)
    (hverdict : Join.any.verdict es = some result) :
    (Formula.node .or ts).Settled notes result := by
  have hcombine := @Join.verdict_eq_combine _ .any es
  rw [hverdict] at hcombine
  rw [Join.verdict] at hverdict
  split at hverdict
  · next hany =>
    cases hverdict
    obtain ⟨u, hu, e, hue, he⟩ := h.exists_succeeded hany
    exact .any hu (hue.settled_of_succeeded he)
  · split at hverdict
    · cases hverdict
      rcases h.forall₂_or with hall | ⟨hdecided, -⟩
      · -- No operand has succeeded, so none has been left out.
        have hfailed : ∀ u ∈ ts, ∃ error, u.Settled notes (.error error) := by
          intro u hu
          obtain ⟨result, hresult, hok⟩ :=
            settled_of_forall₂ hall (Join.combine_any_eq_false.mp hcombine.symm) hu
          cases result with
          | ok => cases hok
          | error error => exact ⟨error, hresult⟩
        choose! errors herrors using hfailed
        rw [← hall.length_eq]
        exact .none herrors
      · rw [← hcombine] at hdecided
        cases hdecided
    · cases hverdict

/-- **A verdict is explained**: the node has that result by the notes. -/
theorem settled_of_verdict {notes : List (Note α σ)} {op : Operator} {ts : List (Formula α)}
    {es : List (Evaluation (α × w))} {result : Except RequirementError Unit}
    (h : Scanned (Explained notes) (Join.ofOperator op ts.length) true ts es)
    (hverdict : (Join.ofOperator op ts.length).verdict es = some result) :
    (Formula.node op ts).Settled notes result := by
  cases op with
  | or => exact settled_or h hverdict
  | and =>
    cases result with
    | error error => exact settled_and_of_error h hverdict
    | ok =>
      have hcombine := @Join.verdict_eq_combine _ (Join.ofOperator .and ts.length) es
      rw [hverdict] at hcombine
      exact settled_and_of_ok h hcombine.symm

/-- **A node is explained** once its operands have been scanned. -/
theorem explained_settle {op : Operator} {ts : List (Formula α)} {es : List (Evaluation (α × w))}
    {s : σ × List (Note α σ)}
    (h : Scanned (Explained s.2) (Join.ofOperator op ts.length) true ts es) :
    Explained s.2 (.node op ts) ((Join.ofOperator op ts.length).settle rules.noting es s).1 := by
  rw [Join.settle]
  cases hverdict : (Join.ofOperator op ts.length).verdict es with
  | none =>
    have hcombine := @Join.verdict_eq_combine _ (Join.ofOperator op ts.length) es
    rw [hverdict] at hcombine
    exact .joining (h.forall₂ hcombine.symm)
  | some result =>
    have hsettled := settled_of_verdict h hverdict
    cases result with
    | ok => exact .settled rfl hsettled
    | error error => exact .settled rfl hsettled

theorem explained_startEach {ts : List (Formula α)}
    (ih : ∀ t ∈ ts, ∀ s, Explained (t.start rules.noting s).2.2 t (t.start rules.noting s).1)
    (join : Join) (clean : Bool) (s : σ × List (Note α σ)) :
    Scanned (Explained (Formula.startEach rules.noting join clean ts s).2.2) join clean ts
      (Formula.startEach rules.noting join clean ts s).1 := by
  induction ts generalizing clean s with
  | nil => exact .nil
  | cons t ts ihs =>
    have ht := ih t List.mem_cons_self s
    rw [Formula.startEach]
    dsimp only
    split
    · next hd => exact .decided ht hd
    · exact .cons (ht.mono (grown_startEach join _ ts _))
        (ihs (fun x hx => ih x (List.mem_cons_of_mem _ hx)) _ _)

/-- **What is started** is explained by the notes. -/
theorem explained_start (t : Formula α) (s : σ × List (Note α σ)) :
    Explained (t.start rules.noting s).2.2 t (t.start rules.noting s).1 := by
  induction t using Formula.induction generalizing s with
  | leaf a =>
    rw [Formula.start, LeafRules.noting]
    dsimp only
    rcases (rules.start a s.1).1 with v | _ | error
    · exact .waiting
    · exact .settled rfl (.leaf (by simp [Note.ofSignal]))
    · exact .settled rfl (.leaf (by simp [Note.ofSignal]))
  | node op ts ih =>
    rw [Formula.start]
    dsimp only
    rw [notes_settle]
    exact explained_settle (explained_startEach ih _ true s)

theorem explained_resumeEach {ts : List (Formula α)}
    (ih : ∀ t ∈ ts, ∀ (e : Evaluation (α × w)) (s : σ × List (Note α σ)), Explained s.2 t e →
      Explained (e.resume rules.noting s).2.2 t (e.resume rules.noting s).1)
    (join : Join) (clean : Bool) {es : List (Evaluation (α × w))} {s : σ × List (Note α σ)}
    (h : List.Forall₂ (Explained s.2) ts es) :
    Scanned (Explained (Evaluation.resumeEach rules.noting join clean es s).2.2) join clean ts
      (Evaluation.resumeEach rules.noting join clean es s).1 := by
  induction ts generalizing clean es s with
  | nil =>
    cases h
    exact .nil
  | cons t ts ihs =>
    cases h with
    | @cons _ e _ es he hes =>
      have ht := ih t List.mem_cons_self e s he
      rw [Evaluation.resumeEach]
      dsimp only
      split
      · next hd => exact .decided ht hd
      · have hrest : List.Forall₂ (Explained (e.resume rules.noting s).2.2) ts es :=
          hes.imp fun _ _ h => h.mono (grown_resume e s)
        exact .cons (ht.mono (grown_resumeEach join _ es _))
          (ihs (fun x hx => ih x (List.mem_cons_of_mem _ hx)) _ hrest)

/-- **What is resumed** is explained by the notes. -/
theorem explained_resume (t : Formula α) {e : Evaluation (α × w)} {s : σ × List (Note α σ)}
    (h : Explained s.2 t e) :
    Explained (e.resume rules.noting s).2.2 t (e.resume rules.noting s).1 := by
  induction t using Formula.induction generalizing e s with
  | leaf a =>
    cases h with
    | settled hresult hsettled =>
      cases e with
      | succeeded => exact .settled hresult hsettled
      | failed error => exact .settled hresult hsettled
      | waiting v => cases hresult
      | joining join es => cases hresult
    | @waiting _ v =>
      rw [Evaluation.resume, LeafRules.noting]
      dsimp only
      rcases (rules.resume v s.1).1 with v | _ | error
      · exact .waiting
      · exact .settled rfl (.leaf (by simp [Note.ofSignal]))
      · exact .settled rfl (.leaf (by simp [Note.ofSignal]))
  | node op ts ih =>
    cases h with
    | settled hresult hsettled =>
      cases e with
      | succeeded => exact .settled hresult hsettled
      | failed error => exact .settled hresult hsettled
      | waiting v => cases hresult
      | joining join es => cases hresult
    | joining hes =>
      rw [Evaluation.resume]
      dsimp only
      rw [notes_settle]
      exact explained_settle (explained_resumeEach (fun t ht _ _ => ih t ht) _ true hes)

/-- **A run is explained** by its notes at every moment. -/
theorem explained_run (rules : LeafRules α w σ) (t : Formula α) (s : σ)
    (changes : List (σ → σ)) :
    Explained (t.notes rules s changes) t (t.noted rules s changes).1 := by
  rw [Formula.notes]
  induction changes using List.reverseRecOn with
  | nil => exact explained_start t (s, [])
  | append_singleton changes change ih =>
    rw [Formula.noted, List.map_append, List.map_singleton, Formula.run_concat]
    exact explained_resume t ih

/-- **The result of a run** is read off its notes. -/
theorem settled_of_run {t : Formula α} {s : σ} {changes : List (σ → σ)}
    {result : Except RequirementError Unit} (h : (t.run rules s changes).1.result? = some result) :
    t.Settled (t.notes rules s changes) result := by
  refine (explained_run rules t s changes).settled_of_result ?_
  rw [run_noting] at h
  rwa [← Evaluation.result?_map]

end

end Hydration
