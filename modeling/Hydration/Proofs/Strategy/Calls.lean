import Hydration.Proofs.Requirement.Reached
import Hydration.Proofs.Strategy.Awaited

/-!
# How strategies are called

A strategy that is called may settle at once, and whether it does depends only on the platform
(`outcome_start`).  So the leaves of a requirement come to the same at once wherever among the
others they are started, and those that are called are the leaves that are reached.

A call leaves its marks on the surroundings (`start_marks`): one that is not built in is recorded,
and `event` subscribes to the bus.  The marks of all leaves that are started follow each other
(`called_start`), and resuming leaves none (`resume_leaves`).
-/

namespace Hydration

variable {α : Type} {condition : α → Condition} {strategy? : α → Option Strategy}
  {component : ComponentHandle} {a : α} {s s' : Surroundings} {name : String}
  {argument : Option String}

/-! ## Calls -/

theorem filterMap_concat {β : Type} (f : α → Option β) (xs : List α) (a : α) :
    (xs ++ [a]).filterMap f = xs.filterMap f ++ (f a).toList := by
  rw [List.filterMap_append]
  cases h : f a <;> simp [h]

namespace Strategy

/-- What is recorded of a call. -/
def call? (strategy : Strategy) (name : String) (component : ComponentHandle)
    (argument : Option String) (now : Nat) : Option Call :=
  match strategy with
  | custom _ => some ⟨name, argument, component, now⟩
  | _ => none

/-- What a strategy subscribes for. -/
def listens? (strategy : Strategy) (component : ComponentHandle) (argument : Option String) :
    Option (Event → Bool) :=
  match strategy with
  | event => some (awaited component argument)
  | _ => none

/-- The **marks** of a call: it is recorded, and it subscribes. -/
structure Marks (call? : Option Call) (listens? : Option (Event → Bool)) (s s' : Surroundings) :
    Prop where
  now : s'.now = s.now
  platform : s'.platform = s.platform
  calls : s'.calls = s.calls ++ call?.toList
  listeners : s'.bus.subscriptions.map (·.accepts) =
    s.bus.subscriptions.map (·.accepts) ++ listens?.toList

/-- Taking a ticket leaves no marks. -/
theorem marks_ticket (ticket : Nat) : Marks none none s { s with nextTicket := ticket } :=
  ⟨rfl, rfl, by simp, by simp⟩

theorem marks_none : Marks none none s s :=
  marks_ticket s.nextTicket

theorem start_marks (strategy : Strategy) :
    Marks (strategy.call? name component argument s.now) (strategy.listens? component argument) s
      (strategy.start name component argument s).2 := by
  cases strategy with
  | eager => exact marks_none
  | event =>
    rw [start_event]
    refine ⟨rfl, rfl, by simp [call?], ?_⟩
    rw [Bus.listen, List.map_append]
    rfl
  | idle =>
    rw [start]
    split
    · exact marks_ticket _
    · exact marks_ticket _
  | media =>
    rw [start]
    split
    · exact marks_none
    · dsimp only
      split
      · exact marks_none
      · exact marks_ticket _
  | visible =>
    rw [start]
    split
    · exact marks_none
    · exact marks_ticket _
  | custom behaviour =>
    rw [start]
    dsimp only
    split
    · exact ⟨rfl, rfl, rfl, by simp [listens?]⟩
    · exact ⟨rfl, rfl, rfl, by simp [listens?]⟩
    · exact ⟨rfl, rfl, rfl, by simp [listens?, setTimer]⟩

/-- **What a call comes to at once** depends on the platform alone. -/
theorem outcome_start (strategy : Strategy) (hplatform : s'.platform = s.platform) :
    (Evaluation.ofSignal (strategy.start name component argument s').1).outcome? =
      (Evaluation.ofSignal (strategy.start name component argument s).1).outcome? := by
  cases strategy with
  | eager => rfl
  | event => rfl
  | idle =>
    rw [start, start, hplatform]
    split <;> rfl
  | media =>
    rw [start, start, hplatform]
    split
    · rfl
    · dsimp only
      split <;> rfl
  | visible =>
    rw [start, start, hplatform]
    split <;> rfl
  | custom behaviour =>
    rw [start, start]
    dsimp only
    split <;> rfl

end Strategy

/-! ## Leaves that are called -/

namespace Formula

variable (condition strategy? component)

/-- What is recorded when a leaf is called. -/
def call? (now : Nat) (a : α) : Option Call :=
  (strategy? a).bind (·.call? (condition a).name component (condition a).argument now)

/-- What a leaf subscribes for. -/
def listens? (a : α) : Option (Event → Bool) :=
  (strategy? a).bind (·.listens? component (condition a).argument)

/-- What a leaf comes to at once. -/
def settledAtOnce (s : Surroundings) (a : α) : Option Bool :=
  (Evaluation.ofSignal ((rules condition strategy? component).start a s).1).outcome?

variable {condition strategy? component}

theorem rules_start_of_none (h : strategy? a = none) :
    (rules condition strategy? component).start a s =
      (.waiting ⟨(condition a).name, .never⟩, s) := by
  rw [rules]
  dsimp only
  rw [h]

theorem rules_start_of_some {strategy : Strategy} (h : strategy? a = some strategy) :
    (rules condition strategy? component).start a s =
      (NamedWait.attach (condition a).name
        (strategy.start (condition a).name component (condition a).argument s).1,
        (strategy.start (condition a).name component (condition a).argument s).2) := by
  rw [rules]
  dsimp only
  rw [h]

variable (condition strategy? component)

theorem rules_start_marks (s : Surroundings) (a : α) :
    Strategy.Marks (call? condition strategy? component s.now a)
      (listens? condition strategy? component a) s
      ((rules condition strategy? component).start a s).2 := by
  rw [call?, listens?]
  cases h : strategy? a with
  | none =>
    rw [rules_start_of_none h]
    exact Strategy.marks_none
  | some strategy =>
    rw [rules_start_of_some h]
    exact Strategy.start_marks strategy

theorem outcome_attach (signal : Signal Wait) :
    (Evaluation.ofSignal (NamedWait.attach name signal)).outcome? =
      (Evaluation.ofSignal signal).outcome? := by
  cases signal <;> rfl

/-- **Leaves come to the same at once** as long as the platform stays what it is. -/
theorem steady_rules (s : Surroundings) :
    Steady (rules condition strategy? component)
      (fun s' => s'.now = s.now ∧ s'.platform = s.platform)
      (settledAtOnce condition strategy? component s) where
  start a s' h := by
    have hmarks := rules_start_marks condition strategy? component s' a
    exact ⟨hmarks.now.trans h.1, hmarks.platform.trans h.2⟩
  release v s' h := ⟨Wait.now_release.trans h.1, Wait.platform_release.trans h.2⟩
  known a s' h := by
    rw [settledAtOnce]
    cases hstrategy : strategy? a with
    | none => rw [rules_start_of_none hstrategy, rules_start_of_none hstrategy]
    | some strategy =>
      rw [rules_start_of_some hstrategy, rules_start_of_some hstrategy, outcome_attach,
        outcome_attach]
      exact strategy.outcome_start h.2

/-! ## Marks of all calls -/

/-- What holds of the surroundings `s'` and the notes when leaves have been called since `s`: all of
them have been called at its time, and their marks follow each other. -/
structure Called (condition : α → Condition) (strategy? : α → Option Strategy)
    (component : ComponentHandle) (s : Surroundings)
    (s' : Surroundings × List (Note α Surroundings)) : Prop where
  now : s'.1.now = s.now
  times : ∀ p ∈ Note.begunOf s'.2, p.2.now = s.now
  calls : s'.1.calls = s.calls ++
    ((Note.begunOf s'.2).map (·.1)).filterMap (call? condition strategy? component s.now)
  listeners : s'.1.bus.subscriptions.map (·.accepts) = s.bus.subscriptions.map (·.accepts) ++
    ((Note.begunOf s'.2).map (·.1)).filterMap (listens? condition strategy? component)

variable {condition strategy? component} in
theorem Called.start {s' : Surroundings × List (Note α Surroundings)}
    (h : Called condition strategy? component s s') (a : α) :
    Called condition strategy? component s
      ((rules condition strategy? component).noting.start a s').2 := by
  have hmarks := rules_start_marks condition strategy? component s'.1 a
  rw [h.now] at hmarks
  have hbegun := begunOf_noting_start (rules condition strategy? component) a s'
  refine ⟨hmarks.now.trans h.now, ?_, ?_, ?_⟩
  · rw [hbegun, List.forall_mem_append, List.forall_mem_singleton]
    exact ⟨h.times, h.now⟩
  · rw [hbegun, List.map_append, List.map_singleton, filterMap_concat, ← List.append_assoc,
      ← h.calls]
    exact hmarks.calls
  · rw [hbegun, List.map_append, List.map_singleton, filterMap_concat, ← List.append_assoc,
      ← h.listeners]
    exact hmarks.listeners

end Formula

/-- Neither a look at the inbox nor the end of a subscription changes what the others are for. -/
theorem Bus.accepts_map {b : Bus} {f : Subscription → Subscription}
    (hf : ∀ sub, (f sub).accepts = sub.accepts) :
    (b.subscriptions.map f).map (·.accepts) = b.subscriptions.map (·.accepts) := by
  rw [List.map_map]
  exact List.map_congr_left fun sub _ => hf sub

namespace Wait

variable {wait : Wait}

theorem release_leaves : (wait.release s).calls = s.calls ∧
    (wait.release s).bus.subscriptions.map (·.accepts) = s.bus.subscriptions.map (·.accepts) := by
  cases wait with
  | event number awaited =>
    refine ⟨rfl, Bus.accepts_map fun sub => ?_⟩
    split <;> rfl
  | _ => exact ⟨rfl, rfl⟩

theorem resume_leaves : (wait.resume name s).2.calls = s.calls ∧
    (wait.resume name s).2.bus.subscriptions.map (·.accepts) =
      s.bus.subscriptions.map (·.accepts) := by
  rw [resume_snd]
  cases wait with
  | event number awaited =>
    refine ⟨rfl, ?_⟩
    dsimp only
    rw [Bus.look]
    split
    · refine Bus.accepts_map fun sub => ?_
      split <;> rfl
    · refine Bus.accepts_map fun sub => ?_
      split <;> rfl
  | _ => exact ⟨rfl, rfl⟩

end Wait

namespace Formula

variable (condition strategy? component)

theorem called_start (t : Formula α) (s : Surroundings) :
    Called condition strategy? component s
      (t.start (rules condition strategy? component).noting (s, [])).2 := by
  have hfirst : Called condition strategy? component s (s, []) :=
    ⟨rfl, nofun, (List.append_nil _).symm, (List.append_nil _).symm⟩
  refine start_keeps (fun a s' h => h.start a) (fun v s' h => ?_) t hfirst
  have hleaves := @Wait.release_leaves s'.1 v.2.wait
  exact ⟨Wait.now_release.trans h.now, h.times, hleaves.1.trans h.calls,
    hleaves.2.trans h.listeners⟩

variable {condition strategy? component}

/-- **Resuming** calls nothing and subscribes for nothing. -/
theorem resume_leaves (e : Evaluation NamedWait) (s : Surroundings) :
    (e.resume (rules condition strategy? component) s).2.calls = s.calls ∧
      (e.resume (rules condition strategy? component) s).2.bus.subscriptions.map (·.accepts) =
        s.bus.subscriptions.map (·.accepts) := by
  let Same (s' : Surroundings) : Prop := s'.calls = s.calls ∧
    s'.bus.subscriptions.map (·.accepts) = s.bus.subscriptions.map (·.accepts)
  have hsame : Same s := ⟨rfl, rfl⟩
  refine resume_keeps (fun v s' h => ?_) (fun v s' h => ?_) e hsame
  · have hleaves := @Wait.resume_leaves s' v.strategy v.wait
    exact ⟨hleaves.1.trans h.1, hleaves.2.trans h.2⟩
  · have hleaves := @Wait.release_leaves s' v.wait
    exact ⟨hleaves.1.trans h.1, hleaves.2.trans h.2⟩

end Formula

end Hydration
