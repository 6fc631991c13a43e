import Hydration.Proofs.Requirement.Composing
import Hydration.Requirement.Timed
import Mathlib.Data.List.Induction

/-!
# Notes on the leaves

A node that has settled forgets its operands, so the evaluation of a requirement does not say
which leaves have been started and how they have ended.  `LeafRules.noting` takes **notes** of
this beside the state.  They change nothing: without them the run is the same (`run_noting`).

A **run** starts a formula and resumes its evaluation whenever the state has changed in some way
(`Formula.run`).  Waiting for a formula on the clock is such a run (`await_eq_run`).

What every leaf upholds, a formula upholds when it is started and its evaluation when it is resumed,
for upholding composes (`start_upholds`, `resume_upholds`).
-/

namespace Hydration

variable {α w w' σ σ' : Type}

/-! ## Waits of another kind -/

/-- A report with another wait. -/
def Signal.map (f : w' → w) : Signal w' → Signal w
  | .waiting v => .waiting (f v)
  | .succeeded => .succeeded
  | .failed error => .failed error

theorem Signal.map_eq_waiting {f : w' → w} {signal : Signal w'} {v : w} :
    signal.map f = .waiting v ↔ ∃ u, signal = .waiting u ∧ f u = v := by
  cases signal <;> simp [Signal.map]

namespace Evaluation

theorem mem_waits_ofSignal {signal : Signal w} {v : w} :
    v ∈ (ofSignal signal).waits ↔ signal = .waiting v := by
  cases signal <;> simp [ofSignal, waits, eq_comm]

mutual

/-- An evaluation with other waits. -/
def map (f : w' → w) : Evaluation w' → Evaluation w
  | waiting v => waiting (f v)
  | succeeded => succeeded
  | failed error => failed error
  | joining join operands => joining join (mapAll f operands)

/-- Operands with other waits. -/
def mapAll (f : w' → w) : List (Evaluation w') → List (Evaluation w)
  | [] => []
  | operand :: rest => operand.map f :: mapAll f rest

end

variable {f : w' → w} {e : Evaluation w'} {es : List (Evaluation w')}

@[simp] theorem ofSignal_map {signal : Signal w'} :
    ofSignal (signal.map f) = (ofSignal signal).map f := by
  cases signal <;> rfl

@[simp] theorem outcome?_map : (e.map f).outcome? = e.outcome? := by
  cases e <;> rfl

theorem result?_map : (e.map f).result? = e.result? := by
  cases e <;> rfl

@[simp] theorem isSucceeded_map : (e.map f).isSucceeded = e.isSucceeded := by
  cases e <;> rfl

@[simp] theorem error?_map : (e.map f).error? = e.error? := by
  cases e <;> rfl

theorem mapAll_eq_map : mapAll f es = es.map (map f) := by
  induction es with
  | nil => rfl
  | cons e es ih => rw [mapAll, ih, List.map_cons]

theorem waits_map (e : Evaluation w') : (e.map f).waits = e.waits.map f := by
  induction e using Evaluation.induction with
  | waiting v => rfl
  | succeeded => rfl
  | failed error => rfl
  | joining join operands ih =>
    rw [map, waits, waits]
    induction operands with
    | nil => rfl
    | cons e es ihes =>
      rw [mapAll, waitsAll, waitsAll, List.map_append, ih e List.mem_cons_self,
        ihes fun x hx => ih x (List.mem_cons_of_mem _ hx)]

theorem waitsAll_map : waitsAll (es.map (map f)) = (waitsAll es).map f := by
  induction es with
  | nil => rfl
  | cons e es ih => rw [List.map_cons, waitsAll, waitsAll, List.map_append, waits_map, ih]

end Evaluation

namespace Join

variable {join : Join} {f : w' → w} {es : List (Evaluation w')}

@[simp] theorem decides_map {clean : Bool} {e : Evaluation w'} :
    join.decides clean (e.map f) = join.decides clean e := by
  cases join <;> simp [decides]

theorem firstInOrder_map : firstInOrder (es.map (Evaluation.map f)) = firstInOrder es := by
  induction es with
  | nil => rfl
  | cons e es ih =>
    cases e with
    | succeeded => exact ih
    | waiting v => rfl
    | failed error => rfl
    | joining join operands => rfl

@[simp] theorem verdict_map : join.verdict (es.map (Evaluation.map f)) = join.verdict es := by
  cases join with
  | all => simp [verdict, List.findSome?_map, Function.comp_def, List.all_map]
  | inOrder => exact firstInOrder_map
  | any => simp [verdict, List.any_map, List.all_map, Function.comp_def]

end Join

/-! ## Simulations -/

/-- **Leaves behave alike**, where `f` and `g` forget what the others do not know. -/
structure Simulates (rules' : LeafRules α w' σ') (rules : LeafRules α w σ) (f : w' → w)
    (g : σ' → σ) : Prop where
  start : ∀ a s, rules.start a (g s) = ((rules'.start a s).1.map f, g (rules'.start a s).2)
  resume : ∀ v s,
    rules.resume (f v) (g s) = ((rules'.resume v s).1.map f, g (rules'.resume v s).2)
  release : ∀ v s, rules.release (f v) (g s) = g (rules'.release v s)

namespace Simulates

variable {rules' : LeafRules α w' σ'} {rules : LeafRules α w σ} {f : w' → w} {g : σ' → σ}

theorem releaseAll (h : Simulates rules' rules f g) (vs : List w') (s : σ') :
    Evaluation.releaseAll rules (vs.map f) (g s) = g (Evaluation.releaseAll rules' vs s) := by
  induction vs generalizing s with
  | nil => rfl
  | cons v vs ih =>
    show Evaluation.releaseAll rules (vs.map f) (rules.release (f v) (g s)) =
      g (Evaluation.releaseAll rules' vs (rules'.release v s))
    rw [h.release, ih]

theorem settle (h : Simulates rules' rules f g) (join : Join) (es : List (Evaluation w'))
    (s : σ') : join.settle rules (es.map (Evaluation.map f)) (g s) =
      ((join.settle rules' es s).1.map f, g (join.settle rules' es s).2) := by
  rw [Join.settle, Join.settle, Join.verdict_map, Evaluation.waitsAll_map, h.releaseAll]
  rcases join.verdict es with _ | _ | _
  · rw [Evaluation.map, Evaluation.mapAll_eq_map]
  · rfl
  · rfl

theorem startEach {ts : List (Formula α)}
    (ih : ∀ t ∈ ts, ∀ s, t.start rules (g s) = ((t.start rules' s).1.map f, g (t.start rules' s).2))
    (join : Join) (clean : Bool) (s : σ') : Formula.startEach rules join clean ts (g s) =
      ((Formula.startEach rules' join clean ts s).1.map (Evaluation.map f),
        g (Formula.startEach rules' join clean ts s).2) := by
  induction ts generalizing clean s with
  | nil => rfl
  | cons t ts ihs =>
    rw [Formula.startEach, Formula.startEach]
    dsimp only
    rw [ih t List.mem_cons_self, Join.decides_map, Evaluation.isSucceeded_map]
    split
    · rfl
    · rw [ihs fun x hx => ih x (List.mem_cons_of_mem _ hx)]
      rfl

/-- **Formulas start alike** where leaves behave alike. -/
theorem formula_start (h : Simulates rules' rules f g) (t : Formula α) (s : σ') :
    t.start rules (g s) = ((t.start rules' s).1.map f, g (t.start rules' s).2) := by
  induction t using Formula.induction generalizing s with
  | leaf a =>
    rw [Formula.start, Formula.start, h.start]
    simp
  | node op ts ih =>
    rw [Formula.start, Formula.start]
    dsimp only
    rw [startEach ih, h.settle]

theorem resumeEach {es : List (Evaluation w')}
    (ih : ∀ e ∈ es, ∀ s,
      (e.map f).resume rules (g s) = ((e.resume rules' s).1.map f, g (e.resume rules' s).2))
    (join : Join) (clean : Bool) (s : σ') :
    Evaluation.resumeEach rules join clean (es.map (Evaluation.map f)) (g s) =
      ((Evaluation.resumeEach rules' join clean es s).1.map (Evaluation.map f),
        g (Evaluation.resumeEach rules' join clean es s).2) := by
  induction es generalizing clean s with
  | nil => rfl
  | cons e es ihes =>
    rw [List.map_cons, Evaluation.resumeEach, Evaluation.resumeEach]
    dsimp only
    rw [ih e List.mem_cons_self, Join.decides_map, Evaluation.isSucceeded_map]
    split
    · rfl
    · rw [ihes fun x hx => ih x (List.mem_cons_of_mem _ hx)]
      rfl

/-- **Evaluations are resumed alike.** -/
theorem evaluation_resume (h : Simulates rules' rules f g) (e : Evaluation w') (s : σ') :
    (e.map f).resume rules (g s) = ((e.resume rules' s).1.map f, g (e.resume rules' s).2) := by
  induction e using Evaluation.induction generalizing s with
  | waiting v =>
    rw [Evaluation.map, Evaluation.resume, Evaluation.resume, h.resume]
    simp
  | succeeded => rfl
  | failed error => rfl
  | joining join operands ih =>
    rw [Evaluation.map, Evaluation.resume, Evaluation.resume, Evaluation.mapAll_eq_map]
    dsimp only
    rw [resumeEach ih, h.settle]

end Simulates

/-! ## Runs -/

/-- **A run**: the formula is started, and its evaluation is resumed after each of the changes. -/
def Formula.run (rules : LeafRules α w σ) (t : Formula α) (s : σ) (changes : List (σ → σ)) :
    Evaluation w × σ :=
  changes.foldl (fun r change => r.1.resume rules (change r.2)) (t.start rules s)

theorem Formula.run_concat (rules : LeafRules α w σ) (t : Formula α) (s : σ)
    (changes : List (σ → σ)) (change : σ → σ) : t.run rules s (changes ++ [change]) =
      (t.run rules s changes).1.resume rules (change (t.run rules s changes).2) :=
  List.foldl_concat ..

/-- A run up to its result, from one time to the next. -/
theorem resumeAt_eq_foldl (rules : LeafRules α NamedWait Surroundings) (times : List Nat)
    (r : Evaluation NamedWait × Surroundings) :
    ∃ changes : List (Surroundings → Surroundings), Formula.resumeAt rules times r =
      changes.foldl (fun r change => r.1.resume rules (change r.2)) r := by
  induction times generalizing r with
  | nil => exact ⟨[], rfl⟩
  | cons time times ih =>
    rw [Formula.resumeAt]
    split
    · exact ⟨[], rfl⟩
    · obtain ⟨changes, h⟩ := ih (r.1.resume rules { r.2 with now := time })
      exact ⟨(fun s => { s with now := time }) :: changes, h⟩

/-- **Waiting on the clock** is a run. -/
theorem await_eq_run (t : Formula α) (rules : LeafRules α NamedWait Surroundings) (limit : Nat)
    (s : Surroundings) : ∃ changes, t.await rules limit s = t.run rules s changes :=
  resumeAt_eq_foldl rules _ _

/-! ## Notes -/

/-- What is noted of a leaf. -/
inductive Note (α σ : Type) where
  /-- The leaf has been started in a state. -/
  | begun (leaf : α) (state : σ)
  | ended (leaf : α) (result : Except RequirementError Unit)

/-- What is noted when a leaf reports. -/
def Note.ofSignal (a : α) : Signal w → List (Note α σ)
  | .waiting _ => []
  | .succeeded => [.ended a (.ok ())]
  | .failed error => [.ended a (.error error)]

/-- **The same leaves, with notes** beside the state, where each wait knows its leaf. -/
def LeafRules.noting (rules : LeafRules α w σ) : LeafRules α (α × w) (σ × List (Note α σ)) where
  start a s :=
    let r := rules.start a s.1
    (r.1.map (a, ·), r.2, s.2 ++ .begun a s.1 :: Note.ofSignal a r.1)
  resume v s :=
    let r := rules.resume v.2 s.1
    (r.1.map (v.1, ·), r.2, s.2 ++ Note.ofSignal v.1 r.1)
  release v s := (rules.release v.2 s.1, s.2)

/-- A change of the state leaves the notes as they are. -/
def onState (change : σ → σ) (s : σ × List (Note α σ)) : σ × List (Note α σ) :=
  (change s.1, s.2)

/-- A run with notes. -/
def Formula.noted (rules : LeafRules α w σ) (t : Formula α) (s : σ) (changes : List (σ → σ)) :
    Evaluation (α × w) × σ × List (Note α σ) :=
  t.run rules.noting (s, []) (changes.map onState)

/-- **The notes of a run.** -/
def Formula.notes (rules : LeafRules α w σ) (t : Formula α) (s : σ) (changes : List (σ → σ)) :
    List (Note α σ) :=
  (t.noted rules s changes).2.2

theorem Signal.map_map_snd (a : α) (signal : Signal w) :
    (signal.map (a, ·)).map Prod.snd = signal := by
  cases signal <;> rfl

theorem simulates_noting (rules : LeafRules α w σ) :
    Simulates rules.noting rules Prod.snd Prod.fst where
  start a _ := Prod.ext (Signal.map_map_snd a _).symm rfl
  resume v _ := Prod.ext (Signal.map_map_snd v.1 _).symm rfl
  release _ _ := rfl

/-- **Taking notes** changes nothing. -/
theorem run_noting (rules : LeafRules α w σ) (t : Formula α) (s : σ) (changes : List (σ → σ)) :
    t.run rules s changes =
      ((t.noted rules s changes).1.map Prod.snd, (t.noted rules s changes).2.1) := by
  have hrules := simulates_noting rules
  induction changes using List.reverseRecOn with
  | nil => exact hrules.formula_start t (s, [])
  | append_singleton changes change ih =>
    rw [Formula.noted, List.map_append, List.map_singleton, Formula.run_concat, Formula.run_concat,
      ih]
    exact hrules.evaluation_resume _ (onState change _)

/-- Giving up waits is not noted. -/
theorem notes_releaseAll {rules : LeafRules α w σ} (vs : List (α × w)) (s : σ × List (Note α σ)) :
    (Evaluation.releaseAll rules.noting vs s).2 = s.2 := by
  induction vs generalizing s with
  | nil => rfl
  | cons v vs ih => exact ih (rules.noting.release v s)

/-- Settling a node is not noted. -/
theorem notes_settle {rules : LeafRules α w σ} (join : Join) (es : List (Evaluation (α × w)))
    (s : σ × List (Note α σ)) : (join.settle rules.noting es s).2.2 = s.2 := by
  rw [Join.settle]
  rcases join.verdict es with _ | _ | _
  · rfl
  · exact notes_releaseAll _ s
  · exact notes_releaseAll _ s

/-! ## What is upheld -/

/-- **What is upheld** on the way from one state to another: `Q` holds of the state, and `W` of the
waits of before and of the new ones. -/
structure Upheld (Q : σ → Prop) (W : σ → w → Prop) (s s' : σ) (waits : List w) : Prop where
  state : Q s'
  keeps : ∀ u, W s u → W s' u
  waits : ∀ v ∈ waits, W s' v

namespace Upheld

variable {Q : σ → Prop} {W : σ → w → Prop} {s s₁ s₂ : σ} {vs us : List w}
  {rules : LeafRules α w σ}

/-- A change that brings no wait. -/
theorem change (h : Q s₁) (hkeeps : ∀ u, W s u → W s₁ u) : Upheld Q W s s₁ [] :=
  ⟨h, hkeeps, fun _ hv => absurd hv List.not_mem_nil⟩

theorem refl (h : Q s) : Upheld Q W s s [] :=
  change h fun _ => id

theorem trans (h : Upheld Q W s s₁ vs) (h' : Upheld Q W s₁ s₂ us) :
    Upheld Q W s s₂ (vs ++ us) where
  state := h'.state
  keeps u hu := h'.keeps u (h.keeps u hu)
  waits v hv := by
    rcases List.mem_append.mp hv with hv | hv
    · exact h'.keeps v (h.waits v hv)
    · exact h'.waits v hv

theorem sub (h : Upheld Q W s s₁ vs) (hsub : ∀ v ∈ us, v ∈ vs) : Upheld Q W s s₁ us :=
  ⟨h.state, h.keeps, fun v hv => h.waits v (hsub v hv)⟩

theorem releaseAll (hrelease : ∀ v s, Q s → W s v → Upheld Q W s (rules.release v s) [])
    (hs : Q s) (hvs : ∀ v ∈ vs, W s v) : Upheld Q W s (Evaluation.releaseAll rules vs s) [] := by
  induction vs generalizing s with
  | nil => exact refl hs
  | cons v vs ih =>
    rw [List.forall_mem_cons] at hvs
    have hfirst := hrelease v s hs hvs.1
    exact hfirst.trans (ih hfirst.state fun u hu => hfirst.keeps u (hvs.2 u hu))

/-- The waits are given up. -/
theorem giveUp (hrelease : ∀ v s, Q s → W s v → Upheld Q W s (rules.release v s) [])
    (h : Upheld Q W s s₁ vs) : Upheld Q W s (Evaluation.releaseAll rules vs s₁) [] :=
  (h.trans (releaseAll hrelease h.state h.waits)).sub (List.nil_subset _)

end Upheld

section

variable {Q : σ → Prop} {W : σ → w → Prop} {rules : LeafRules α w σ}

theorem starting_upholds
    (hstart : ∀ a s, Q s →
      Upheld Q W s (rules.start a s).2 (Evaluation.ofSignal (rules.start a s).1).waits)
    (hrelease : ∀ v s, Q s → W s v → Upheld Q W s (rules.release v s) []) :
    Starting rules fun s s' _ vs => Q s → Upheld Q W s s' vs where
  nil _ hs := .refl hs
  leaf := hstart
  append h h' hs := (h hs).trans (h' (h hs).state)
  skip _ h := h
  release h hs := (h hs).giveUp hrelease

/-- **What leaves uphold when they are started**, formulas do. -/
theorem start_upholds
    (hstart : ∀ a s, Q s →
      Upheld Q W s (rules.start a s).2 (Evaluation.ofSignal (rules.start a s).1).waits)
    (hrelease : ∀ v s, Q s → W s v → Upheld Q W s (rules.release v s) []) (t : Formula α) {s : σ}
    (hs : Q s) : Upheld Q W s (t.start rules s).2 (t.start rules s).1.waits :=
  (starting_upholds hstart hrelease).start t s hs

theorem resuming_upholds
    (hresume : ∀ v s, Q s → W s v →
      Upheld Q W s (rules.resume v s).2 (Evaluation.ofSignal (rules.resume v s).1).waits)
    (hrelease : ∀ v s, Q s → W s v → Upheld Q W s (rules.release v s) []) :
    Resuming rules fun s s' vs us => Q s → (∀ v ∈ vs, W s v) → Upheld Q W s s' us where
  refl _ _ hs hvs := ⟨hs, fun _ => id, hvs⟩
  wait v s hs hv := hresume v s hs (hv v (List.mem_singleton_self v))
  append h h' hs hvs := by
    rw [List.forall_mem_append] at hvs
    have hfirst := h hs hvs.1
    exact hfirst.trans (h' hfirst.state fun u hu => hfirst.keeps u (hvs.2 u hu))
  release h hs hvs := (h hs hvs).giveUp hrelease

/-- **What waits uphold when they are resumed**, evaluations do. -/
theorem resume_upholds
    (hresume : ∀ v s, Q s → W s v →
      Upheld Q W s (rules.resume v s).2 (Evaluation.ofSignal (rules.resume v s).1).waits)
    (hrelease : ∀ v s, Q s → W s v → Upheld Q W s (rules.release v s) []) (e : Evaluation w) {s : σ}
    (hs : Q s) (he : ∀ v ∈ e.waits, W s v) :
    Upheld Q W s (e.resume rules s).2 (e.resume rules s).1.waits :=
  (resuming_upholds hresume hrelease).resume e s hs he

/-- What a run has upheld, if all that leaves do and all that changes upholds it. -/
theorem run_upholds
    (hstart : ∀ a s, Q s →
      Upheld Q W s (rules.start a s).2 (Evaluation.ofSignal (rules.start a s).1).waits)
    (hresume : ∀ v s, Q s → W s v →
      Upheld Q W s (rules.resume v s).2 (Evaluation.ofSignal (rules.resume v s).1).waits)
    (hrelease : ∀ v s, Q s → W s v → Upheld Q W s (rules.release v s) []) {changes : List (σ → σ)}
    (hchanges : ∀ change ∈ changes, ∀ s, Q s → Upheld Q W s (change s) []) (t : Formula α) {s : σ}
    (hs : Q s) :
    Upheld Q W s (t.run rules s changes).2 (t.run rules s changes).1.waits := by
  induction changes using List.reverseRecOn with
  | nil => exact start_upholds hstart hrelease t hs
  | append_singleton changes change ih =>
    rw [List.forall_mem_append, List.forall_mem_singleton] at hchanges
    have hrun := ih hchanges.1
    rw [Formula.run_concat]
    have hchange := hchanges.2 _ hrun.state
    have hresumed := resume_upholds hresume hrelease _ hchange.state fun v hv =>
      hchange.keeps v (hrun.waits v hv)
    exact ⟨hresumed.state, fun u hu => hresumed.keeps u (hchange.keeps u (hrun.keeps u hu)),
      hresumed.waits⟩

/-- What holds of every state, whatever waits there are. -/
theorem upheld_state {s s' : σ} {vs : List w} (h : Q s') : Upheld Q (fun _ _ => True) s s' vs :=
  ⟨h, fun _ _ => trivial, fun _ _ => trivial⟩

theorem start_keeps (hstart : ∀ a s, Q s → Q (rules.start a s).2)
    (hrelease : ∀ v s, Q s → Q (rules.release v s)) (t : Formula α) {s : σ} (hs : Q s) :
    Q (t.start rules s).2 :=
  (start_upholds (fun a s h => upheld_state (hstart a s h))
    (fun v s h _ => upheld_state (hrelease v s h)) t hs).state

theorem resume_keeps (hresume : ∀ v s, Q s → Q (rules.resume v s).2)
    (hrelease : ∀ v s, Q s → Q (rules.release v s)) (e : Evaluation w) {s : σ} (hs : Q s) :
    Q (e.resume rules s).2 :=
  (resume_upholds (fun v s h _ => upheld_state (hresume v s h))
    (fun v s h _ => upheld_state (hrelease v s h)) e hs fun _ _ => trivial).state

end

end Hydration
