import Mathlib.Data.List.Nodup
import Mathlib.Data.List.Perm.Subperm
import Mathlib.Logic.Relation
import Hydration.Document

/-!
# The tree of a document

What the walks over a document visit.

**Above.**  `Parent d a x` says that `a` is the parent of `x`, `Ancestor d a x` that `a` is one of
the ancestors of `x`, and `Above d a x` that it is one of them or `x`.  A document is
`Grounded` when the parent of each element was created before it or does not exist.
Then references do not go in a circle (`Grounded.not_ancestor_self`).

**Walking down** comes to an end within `enoughSteps` unless it comes back to its root
(`walk_isSome`), and **climbing up** unless it comes to a circle (`climb_isSome`).

In a grounded document the subtree of an element under a pruning is the set of elements
`Reached` from it: each of them is met with no pruned element on the way
(`mem_subtree`).  Climbing up finds an inert ancestor exactly if there is one
(`hasInertAncestor_iff`).

**Flags.**  `destroyTree` and `initTree` are given by what they do to the flags of each
element; the tree itself, its `skeleton`, never changes.
-/

namespace Hydration.Document

variable {d d' : Document} {prune : Element → Bool} {a b x y el : ElementRef}

/-! ## Parents -/

/-- `a` is the parent of `x`. -/
def Parent (d : Document) (a x : ElementRef) : Prop :=
  ∃ e, d.element? x = some e ∧ e.parent = some a

/-- `a` is `x` or an ancestor of `x`. -/
def Above (d : Document) : ElementRef → ElementRef → Prop :=
  Relation.ReflTransGen d.Parent

/-- `a` is an ancestor of `x`.  In a circle an element is its own ancestor. -/
def Ancestor (d : Document) : ElementRef → ElementRef → Prop :=
  Relation.TransGen d.Parent

/-- Whether an element exists. -/
def Exists (d : Document) (x : ElementRef) : Prop :=
  (d.element? x).isSome

/-- The parent of each element was created before it or does not exist. -/
def Grounded (d : Document) : Prop :=
  ∀ a x, d.Parent a x → a.index < x.index ∨ ¬ d.Exists a

/-- The parent of each element was created before it. -/
def Ordered (d : Document) : Prop :=
  ∀ a x, d.Parent a x → a.index < x.index

theorem exists_iff : d.Exists x ↔ x.index < d.elements.length := by
  simp [Exists, element?]

theorem mem_refs : x ∈ d.refs ↔ d.Exists x := by
  rw [exists_iff]
  constructor
  · intro h
    obtain ⟨i, hi, rfl⟩ := List.mem_map.mp h
    exact List.mem_range.mp hi
  · intro h
    exact List.mem_map.mpr ⟨x.index, List.mem_range.mpr h, rfl⟩

theorem nodup_refs : d.refs.Nodup :=
  List.nodup_range.map fun _ _ h => congrArg ElementRef.index h

theorem Parent.exists (h : d.Parent a x) : d.Exists x := by
  obtain ⟨e, he, -⟩ := h
  simp [Exists, he]

theorem Parent.unique (ha : d.Parent a x) (hb : d.Parent b x) : a = b := by
  obtain ⟨e, he, hea⟩ := ha
  obtain ⟨f, hf, hfb⟩ := hb
  rw [he] at hf
  obtain rfl := Option.some.inj hf
  exact Option.some.inj (hea.symm.trans hfb)

theorem Ordered.grounded (h : d.Ordered) : d.Grounded :=
  fun a x hp => .inl (h a x hp)

theorem Above.exists (h : d.Above a x) (ha : d.Exists a) : d.Exists x := by
  cases h with
  | refl => exact ha
  | tail _ hp => exact hp.exists

theorem Ancestor.exists (h : d.Ancestor a x) : d.Exists x := by
  obtain ⟨p, -, hp⟩ := Relation.TransGen.tail'_iff.mp h
  exact hp.exists

theorem Grounded.lt_of_ancestor (hd : d.Grounded) (ha : d.Exists a) (h : d.Ancestor a x) :
    a.index < x.index := by
  induction h with
  | single hp => exact (hd _ _ hp).resolve_right fun hne => hne ha
  | tail hay hp ih =>
    exact Nat.lt_trans ih ((hd _ _ hp).resolve_right fun hne => hne (Ancestor.exists hay))

/-- In a grounded document references do not go in a circle. -/
theorem Grounded.not_ancestor_self (hd : d.Grounded) : ¬d.Ancestor x x :=
  fun h => Nat.lt_irrefl _ (hd.lt_of_ancestor h.exists h)

theorem mem_children : x ∈ d.children a ↔ d.Parent a x := by
  rw [children, List.mem_filter, mem_refs]
  constructor
  · rintro ⟨hx, h⟩
    obtain ⟨e, he⟩ := Option.isSome_iff_exists.mp hx
    exact ⟨e, he, by simpa [he] using h⟩
  · intro hp
    obtain ⟨e, he, hea⟩ := id hp
    exact ⟨hp.exists, by simp [he, hea]⟩

theorem nodup_children : (d.children a).Nodup :=
  nodup_refs.filter _

theorem mem_roots : x ∈ d.roots ↔ ∃ e, d.element? x = some e ∧ e.parent = none := by
  rw [roots, List.mem_filter, mem_refs, Exists]
  cases h : d.element? x with
  | none => simp
  | some e => simp

/-! ## Walking down -/

/-- `x` is met on the way down from `a` without a pruned element. -/
inductive Reached (d : Document) (prune : Element → Bool) (a : ElementRef) : ElementRef → Prop where
  | root {e : Element} : d.element? a = some e → prune e = false → Reached d prune a a
  | child {x y : ElementRef} {e : Element} : Reached d prune a x → d.element? y = some e →
      e.parent = some x → prune e = false → Reached d prune a y

theorem Reached.above (h : d.Reached prune a x) : d.Above a x := by
  induction h with
  | root _ _ => exact .refl
  | child _ he hp _ ih => exact ih.tail ⟨_, he, hp⟩

theorem Reached.exists (h : d.Reached prune a x) : d.Exists x := by
  cases h with
  | root he _ => simp [Exists, he]
  | child _ he _ _ => simp [Exists, he]

/-- What is reached from an element is the element and what is reached from its children. -/
theorem reached_iff {e : Element} (he : d.element? a = some e) (hp : prune e = false) :
    d.Reached prune a x ↔ x = a ∨ ∃ c ∈ d.children a, d.Reached prune c x := by
  constructor
  · intro h
    induction h with
    | root _ _ => exact .inl rfl
    | @child y z f _ hz hfy hpz ih =>
      rcases ih with rfl | ⟨c, hc, hcy⟩
      · exact .inr ⟨z, mem_children.mpr ⟨f, hz, hfy⟩, .root hz hpz⟩
      · exact .inr ⟨c, hc, .child hcy hz hfy hpz⟩
  · rintro (rfl | ⟨c, hc, h⟩)
    · exact .root he hp
    · obtain ⟨f, hf, hfa⟩ := mem_children.mp hc
      induction h with
      | root hf' hpc =>
        rw [hf] at hf'
        obtain rfl := Option.some.inj hf'
        exact .child (.root he hp) hf hfa hpc
      | child _ hz hfy hpz ih => exact .child ih hz hfy hpz

theorem not_reached_of_missing (h : d.element? a = none) : ¬ d.Reached prune a x := by
  intro hr
  induction hr with
  | root he _ => rw [h] at he; cases he
  | child _ _ _ _ ih => exact ih

theorem not_reached_of_pruned {e : Element} (he : d.element? a = some e) (hp : prune e = true) :
    ¬ d.Reached prune a x := by
  intro hr
  induction hr with
  | root he' hp' =>
    rw [he] at he'
    obtain rfl := Option.some.inj he'
    rw [hp] at hp'
    cases hp'
  | child _ _ _ _ ih => exact ih

/-- A walk that ends visits what is reached from its stack. -/
theorem mem_walk {steps : Nat} {stack visited : List ElementRef}
    (h : d.walk prune steps stack = some visited) :
    x ∈ visited ↔ ∃ r ∈ stack, d.Reached prune r x := by
  induction steps generalizing stack visited with
  | zero =>
    cases stack with
    | nil => simp only [walk, Option.some.injEq] at h; simp [← h]
    | cons r stack => simp [walk] at h
  | succ steps ih =>
    cases stack with
    | nil => simp only [walk, Option.some.injEq] at h; simp [← h]
    | cons r stack =>
      rw [walk] at h
      cases hr : d.element? r with
      | none =>
        rw [hr] at h
        rw [ih h]
        simp [not_reached_of_missing hr]
      | some e =>
        rw [hr] at h
        simp only at h
        cases hp : prune e with
        | true =>
          -- A pruned element is passed over with everything below it.
          rw [hp, if_pos rfl] at h
          rw [ih h]
          simp [not_reached_of_pruned hr hp]
        | false =>
          rw [hp, if_neg (by simp)] at h
          obtain ⟨rest, hrest, rfl⟩ := Option.map_eq_some_iff.mp h
          rw [List.mem_cons, ih hrest]
          constructor
          · rintro (rfl | ⟨c, hc, hcx⟩)
            · exact ⟨_, List.mem_cons_self, .root hr hp⟩
            · rcases List.mem_append.mp hc with hc | hc
              · exact ⟨r, List.mem_cons_self, (reached_iff hr hp).mpr (.inr ⟨c, hc, hcx⟩)⟩
              · exact ⟨c, List.mem_cons_of_mem _ hc, hcx⟩
          · rintro ⟨c, hc, hcx⟩
            rcases List.mem_cons.mp hc with rfl | hc
            · rcases (reached_iff hr hp).mp hcx with rfl | ⟨f, hf, hfx⟩
              · exact .inl rfl
              · exact .inr ⟨f, List.mem_append_left _ hf, hfx⟩
            · exact .inr ⟨c, List.mem_append_right _ hc, hcx⟩

/-- The way down from an element comes back to it. -/
def Returns (d : Document) (prune : Element → Bool) (root : ElementRef) : Prop :=
  ∃ x, d.Reached prune root x ∧ d.Parent x root

/-- **The state of a walk from `root`.**  The elements taken from the stack so far and those on
it are different, and each but the root is a child of one that has been taken and is reached from
the root. -/
structure Walking (d : Document) (prune : Element → Bool) (root : ElementRef)
    (taken stack : List ElementRef) : Prop where
  nodup : (taken ++ stack).Nodup
  parent : ∀ x ∈ taken ++ stack, x ≠ root →
    ∃ p ∈ taken, d.Reached prune root p ∧ d.Parent p x

theorem Walking.initial (d : Document) (prune : Element → Bool) (root : ElementRef) :
    d.Walking prune root [] [root] where
  nodup := by simp
  parent := by simp

theorem Walking.pass {root r : ElementRef} {taken stack : List ElementRef}
    (h : d.Walking prune root taken (r :: stack)) : d.Walking prune root (taken ++ [r]) stack where
  nodup := by simpa using h.nodup
  parent := by
    intro x hx hne
    obtain ⟨p, hp, hpx⟩ := h.parent x (by simpa using hx) hne
    exact ⟨p, List.mem_append_left _ hp, hpx⟩

/-- An element on the stack that exists and is not pruned is reached. -/
theorem Walking.reached {root r : ElementRef} {e : Element} {taken stack : List ElementRef}
    (h : d.Walking prune root taken (r :: stack)) (hr : d.element? r = some e)
    (hprune : prune e = false) : d.Reached prune root r := by
  by_cases hroot : r = root
  · exact hroot ▸ .root (hroot ▸ hr) hprune
  · obtain ⟨p, -, hreached, f, hf, hparent⟩ := h.parent r (by simp) hroot
    obtain rfl := Option.some.inj (hr.symm.trans hf)
    exact .child hreached hr hparent hprune

theorem Walking.descend {root r : ElementRef} {taken stack : List ElementRef}
    (hroot : ¬d.Returns prune root) (hr : d.Reached prune root r)
    (h : d.Walking prune root taken (r :: stack)) :
    d.Walking prune root (taken ++ [r]) (d.children r ++ stack) := by
  -- A child is not the root, it has only one parent, and `r` has not been taken before.
  have hfresh : ∀ c ∈ d.children r, c ∉ taken ++ (r :: stack) := by
    intro c hc hmem
    have hne : c ≠ root := by
      rintro rfl
      exact hroot ⟨r, hr, mem_children.mp hc⟩
    obtain ⟨p, hp, -, hpc⟩ := h.parent c hmem hne
    obtain rfl := hpc.unique (mem_children.mp hc)
    exact (List.nodup_append.mp h.nodup).2.2 p hp p (by simp) rfl
  have hmem : ∀ x, x ∈ taken ++ [r] ++ (d.children r ++ stack) ↔
      x ∈ d.children r ∨ x ∈ taken ++ (r :: stack) := by
    intro x
    simp only [List.mem_append, List.mem_cons, List.not_mem_nil, or_false]
    tauto
  refine ⟨?_, ?_⟩
  · -- The new stack is the old one with the children put on it, up to the order.
    have hperm : (taken ++ [r] ++ (d.children r ++ stack)).Perm
        (d.children r ++ (taken ++ r :: stack)) := by
      have h1 : (taken ++ [r] ++ (d.children r ++ stack)).Perm
          (d.children r ++ (taken ++ [r] ++ stack)) := by
        rw [← List.append_assoc, ← List.append_assoc]
        exact (List.perm_append_comm).append_right stack
      simpa using h1
    rw [hperm.nodup_iff]
    refine List.nodup_append.mpr ⟨nodup_children, h.nodup, ?_⟩
    rintro c hc x hx rfl
    exact hfresh c hc hx
  · intro x hx hne
    rcases (hmem x).mp hx with hx | hx
    · exact ⟨r, by simp, hr, mem_children.mp hx⟩
    · obtain ⟨p, hp, hpx⟩ := h.parent x hx hne
      exact ⟨p, List.mem_append_left _ hp, hpx⟩

theorem Walking.length_le {root : ElementRef} {taken stack : List ElementRef}
    (h : d.Walking prune root taken stack) : (taken ++ stack).length ≤ d.enoughSteps := by
  have hsub : taken ++ stack ⊆ root :: d.refs := by
    intro x hx
    by_cases hroot : x = root
    · exact hroot ▸ List.mem_cons_self
    · obtain ⟨p, -, -, hp⟩ := h.parent x hx hroot
      exact List.mem_cons_of_mem _ (mem_refs.mpr hp.exists)
  have hle := (h.nodup.subperm hsub).length_le
  simpa [refs, enoughSteps] using hle

/-- A walk that does not return to its root comes to an end. -/
theorem Walking.walk_isSome {root : ElementRef} {steps : Nat} {taken stack : List ElementRef}
    (hroot : ¬d.Returns prune root) (h : d.Walking prune root taken stack)
    (hsteps : d.enoughSteps ≤ steps + taken.length) : (d.walk prune steps stack).isSome := by
  induction steps generalizing taken stack with
  | zero =>
    cases stack with
    | nil => rfl
    | cons r stack =>
      -- Without steps left, more elements have been seen than there are.
      have := h.length_le
      simp only [List.length_append, List.length_cons] at this
      omega
  | succ steps ih =>
    cases stack with
    | nil => rfl
    | cons r stack =>
      have hsteps' : d.enoughSteps ≤ steps + (taken ++ [r]).length := by
        simp only [List.length_append, List.length_singleton]
        omega
      rw [walk]
      cases hr : d.element? r with
      | none => exact ih h.pass hsteps'
      | some e =>
        simp only
        split
        · exact ih h.pass hsteps'
        · next hprune =>
          rw [Option.isSome_map]
          exact ih (h.descend hroot (h.reached hr (Bool.eq_false_iff.mpr hprune))) hsteps'

theorem walk_isSome (h : ¬d.Returns prune el) : (d.walk prune d.enoughSteps [el]).isSome :=
  (Walking.initial d prune el).walk_isSome h (by simp)

theorem Grounded.not_returns (hd : d.Grounded) : ¬d.Returns prune el := by
  rintro ⟨x, hx, hp⟩
  exact hd.not_ancestor_self (Relation.TransGen.tail' hx.above hp)

/-- In a grounded document the walk down from an element comes to an end. -/
theorem exists_walk (hd : d.Grounded) (prune : Element → Bool) (el : ElementRef) :
    ∃ visited, d.walk prune d.enoughSteps [el] = some visited :=
  Option.isSome_iff_exists.mp (walk_isSome hd.not_returns)

/-- **The subtree of an element** is what is reached from it. -/
theorem mem_subtree (hd : d.Grounded) : x ∈ d.subtree prune el ↔ d.Reached prune el x := by
  obtain ⟨visited, hv⟩ := exists_walk hd prune el
  have hdescent : d.descent prune el d.enoughSteps = some visited := hv
  rw [subtree, hdescent, Option.getD_some, mem_walk hv]
  simp

/-! ## Climbing up -/

theorem climb_spec {steps : Nat} {answer : Bool} (h : d.climb steps (some x) = some answer) :
    answer = true ↔ ∃ a, d.Above a x ∧ d.isInert a = true := by
  induction steps generalizing x with
  | zero => simp [climb] at h
  | succ steps ih =>
    rw [climb] at h
    cases hx : d.element? x with
    | none =>
      rw [hx] at h
      obtain rfl := Option.some.inj h
      constructor
      · intro hf; cases hf
      · rintro ⟨a, ha, hia⟩
        rcases Relation.ReflTransGen.cases_tail ha with rfl | ⟨w, -, hw⟩
        · simp [isInert, hx] at hia
        · obtain ⟨e, he, -⟩ := hw
          rw [hx] at he
          cases he
    | some e =>
      rw [hx] at h
      simp only at h
      cases hi : e.inert with
      | true =>
        rw [hi, if_pos rfl] at h
        obtain rfl := Option.some.inj h
        exact ⟨fun _ => ⟨x, .refl, by simp [isInert, hx, hi]⟩, fun _ => rfl⟩
      | false =>
        rw [hi, if_neg (by simp)] at h
        -- What is above an element is the element itself or above its parent.
        have habove : (∃ a, d.Above a x ∧ d.isInert a = true) ↔
            ∃ p, e.parent = some p ∧ ∃ a, d.Above a p ∧ d.isInert a = true := by
          constructor
          · rintro ⟨a, ha, hia⟩
            rcases Relation.ReflTransGen.cases_tail ha with rfl | ⟨p, hap, hp⟩
            · simp [isInert, hx, hi] at hia
            · obtain ⟨f, hf, hfp⟩ := hp
              rw [hx] at hf
              obtain rfl := Option.some.inj hf
              exact ⟨p, hfp, a, hap, hia⟩
          · rintro ⟨p, hp, a, ha, hia⟩
            exact ⟨a, ha.tail ⟨e, hx, hp⟩, hia⟩
        rw [habove]
        cases hp : e.parent with
        | none =>
          rw [hp] at h
          have hfalse : answer = false := by
            cases steps with
            | zero => simpa [climb] using h.symm
            | succ n => simpa [climb] using h.symm
          simp [hfalse]
        | some p =>
          rw [hp] at h
          rw [ih h]
          simp

/-- A climb that has come to `x` goes on to `a`. -/
def Climbs (d : Document) (a x : ElementRef) : Prop :=
  d.Parent a x ∧ d.isInert x = false

/-- A climb from `x` comes to a circle. -/
def Caught (d : Document) (x : ElementRef) : Prop :=
  ∃ c, Relation.ReflTransGen d.Climbs c x ∧ Relation.TransGen d.Climbs c c

/-- A climb that does not come to a circle comes to an end.  The elements passed so far are
different, and from each the climb has come to `x`. -/
theorem climb_isSome {steps : Nat} {passed : List ElementRef} (hfree : ¬d.Caught x)
    (hpassed : ∀ y ∈ passed, Relation.TransGen d.Climbs x y) (hnodup : passed.Nodup)
    (hsteps : d.enoughSteps ≤ steps + passed.length) : (d.climb steps (some x)).isSome := by
  induction steps generalizing x passed with
  | zero =>
    have hsub : passed ⊆ d.refs := by
      intro y hy
      obtain ⟨p, -, hp⟩ := Relation.TransGen.tail'_iff.mp (hpassed y hy)
      exact mem_refs.mpr hp.1.exists
    have hle := (hnodup.subperm hsub).length_le
    simp only [refs, List.length_map, List.length_range, enoughSteps] at hle hsteps
    omega
  | succ steps ih =>
    rw [climb]
    cases hx : d.element? x with
    | none => rfl
    | some e =>
      dsimp only
      split
      · rfl
      · next hinert =>
        cases hp : e.parent with
        | none => cases steps <;> rfl
        | some p =>
          have hclimbs : d.Climbs p x := ⟨⟨e, hx, hp⟩, by simpa [isInert, hx] using hinert⟩
          have hnew : x ∉ passed := fun h => hfree ⟨x, .refl, hpassed x h⟩
          have hfree' : ¬d.Caught p := by
            rintro ⟨c, hc, hcc⟩
            exact hfree ⟨c, hc.tail hclimbs, hcc⟩
          refine ih hfree' ?_ (List.nodup_cons.mpr ⟨hnew, hnodup⟩)
            (by simp only [List.length_cons]; omega)
          intro y hy
          rcases List.mem_cons.mp hy with rfl | hy
          · exact .single hclimbs
          · exact .head hclimbs (hpassed y hy)

/-- In a grounded document the climb from an element comes to an end. -/
theorem Grounded.climb_isSome (hd : d.Grounded) : (d.climb d.enoughSteps (some x)).isSome := by
  refine Document.climb_isSome ?_ (by simp) List.nodup_nil (by simp)
  rintro ⟨c, -, h⟩
  exact hd.not_ancestor_self (Relation.TransGen.mono (fun _ _ hc => hc.1) _ _ h)

/-- **Climbing up** finds an inert ancestor exactly if there is one. -/
theorem hasInertAncestor_iff (hd : d.Grounded) :
    d.hasInertAncestor el = true ↔ ∃ p, d.Parent p el ∧ ∃ a, d.Above a p ∧ d.isInert a = true := by
  have hparent : ∀ p, (d.element? el).bind (·.parent) = some p ↔ d.Parent p el := fun p =>
    Option.bind_eq_some_iff
  cases hp : (d.element? el).bind (·.parent) with
  | none =>
    have hascent : d.ascent el d.enoughSteps = some false := by
      rw [ascent, hp]
      rfl
    rw [hasInertAncestor, hascent]
    simp [← hparent, hp]
  | some p =>
    obtain ⟨answer, ha⟩ := Option.isSome_iff_exists.mp (hd.climb_isSome (x := p))
    have hascent : d.ascent el d.enoughSteps = some answer := by rw [ascent, hp, ha]
    rw [hasInertAncestor, hascent, Option.getD_some, climb_spec ha]
    simp [← hparent, hp]

/-! ## The tree stays -/

/-- What an element keeps for ever: its parent and its attributes. -/
def skeleton (d : Document) : List (Option ElementRef × List (String × String)) :=
  d.elements.map fun e => (e.parent, e.attributes)

theorem element?_skeleton (d : Document) (x : ElementRef) :
    d.skeleton[x.index]? = (d.element? x).map fun e => (e.parent, e.attributes) := by
  rw [skeleton, List.getElem?_map, element?]

theorem parent_congr (h : d.skeleton = d'.skeleton) : d.Parent = d'.Parent := by
  have hiff : ∀ (c : Document) a x,
      c.Parent a x ↔ ∃ r, c.skeleton[x.index]? = some (some a, r) := by
    intro c a x
    rw [element?_skeleton]
    constructor
    · rintro ⟨e, he, hp⟩
      exact ⟨e.attributes, by simp [he, hp]⟩
    · rintro ⟨r, hr⟩
      obtain ⟨e, he, hpair⟩ := Option.map_eq_some_iff.mp hr
      exact ⟨e, he, (Prod.mk.inj hpair).1⟩
  funext a x
  rw [eq_iff_iff, hiff, hiff, h]

theorem above_congr (h : d.skeleton = d'.skeleton) : d.Above = d'.Above := by
  rw [Above, Above, parent_congr h]

theorem exists_congr (h : d.skeleton = d'.skeleton) : d.Exists = d'.Exists := by
  have hlen : d.elements.length = d'.elements.length := by
    simpa [skeleton] using congrArg List.length h
  funext x
  rw [eq_iff_iff, exists_iff, exists_iff, hlen]

theorem ordered_congr (h : d.skeleton = d'.skeleton) : d.Ordered ↔ d'.Ordered := by
  rw [Ordered, Ordered, parent_congr h]

theorem climb_congr (h : d.skeleton = d'.skeleton) (hinert : ∀ x, d.isInert x = d'.isInert x)
    (steps : Nat) (from? : Option ElementRef) : d.climb steps from? = d'.climb steps from? := by
  induction steps generalizing from? with
  | zero =>
    cases from? with
    | none => rfl
    | some x => rfl
  | succ steps ih =>
    cases from? with
    | none => rfl
    | some x =>
      have hx := congrArg (·[x.index]?) h
      have hxi := hinert x
      simp only [element?_skeleton] at hx
      rw [isInert, isInert] at hxi
      rw [climb, climb]
      cases he : d.element? x with
      | none =>
        rw [he] at hx
        rw [Option.map_eq_none_iff.mp hx.symm]
      | some e =>
        rw [he] at hx
        obtain ⟨e', he', hpair⟩ := Option.map_eq_some_iff.mp hx.symm
        rw [he, he'] at hxi
        rw [he']
        dsimp only
        rw [show e.inert = e'.inert from hxi, (Prod.mk.inj hpair).1, ih]

theorem ascent_congr (h : d.skeleton = d'.skeleton) (hinert : ∀ x, d.isInert x = d'.isInert x) :
    d.ascent el = d'.ascent el := by
  have hel := congrArg (·[el.index]?) h
  have hparent : (d.element? el).bind (·.parent) = (d'.element? el).bind (·.parent) := by
    have hfst := congrArg (fun r => r.bind fun r : Option ElementRef × List (String × String) =>
      r.1) hel
    simpa only [element?_skeleton, Option.bind_map, Function.comp_def] using hfst
  funext steps
  rw [ascent, ascent, hparent, climb_congr h hinert]

/-- Whether an ancestor is inert is a matter of the tree and the inert marks. -/
theorem hasInertAncestor_congr (h : d.skeleton = d'.skeleton)
    (hinert : ∀ x, d.isInert x = d'.isInert x) :
    d.hasInertAncestor el = d'.hasInertAncestor el := by
  have hlength : d.elements.length = d'.elements.length := by
    simpa [skeleton] using congrArg List.length h
  rw [hasInertAncestor, hasInertAncestor, ascent_congr h hinert, enoughSteps, enoughSteps, hlength]

theorem attribute?_congr (h : d.skeleton = d'.skeleton) (name : String) :
    d.attribute? x name = d'.attribute? x name := by
  have hiff : ∀ c : Document, c.attribute? x name =
      c.skeleton[x.index]?.bind fun r => r.2.reverse.lookup name := by
    intro c
    rw [element?_skeleton, attribute?, Option.bind_map]
    rfl
  rw [hiff, hiff, h]

/-! ## Flags -/

theorem element?_modify (f : Element → Element) :
    (d.modify el f).element? x = if x = el then (d.element? x).map f else d.element? x := by
  rw [modify, element?, element?, List.getElem?_modify]
  by_cases h : x = el
  · subst h; simp
  · have hne : ¬ el.index = x.index := fun hi => h (by cases x; cases el; simp_all)
    simp [h, hne]

theorem skeleton_modify {f : Element → Element}
    (hf : ∀ e, (f e).parent = e.parent ∧ (f e).attributes = e.attributes) :
    (d.modify el f).skeleton = d.skeleton := by
  refine List.ext_getElem? fun i => ?_
  rw [element?_skeleton (d.modify el f) ⟨i⟩, element?_skeleton d ⟨i⟩, element?_modify]
  split
  · cases d.element? ⟨i⟩ with
    | none => rfl
    | some e => simp [hf e]
  · rfl

@[simp] theorem skeleton_markInert : (d.markInert el).skeleton = d.skeleton :=
  skeleton_modify fun _ => ⟨rfl, rfl⟩

@[simp] theorem skeleton_clearInert : (d.clearInert el).skeleton = d.skeleton :=
  skeleton_modify fun _ => ⟨rfl, rfl⟩

theorem skeleton_setInitialized (value : Bool) (els : List ElementRef) :
    (d.setInitialized value els).skeleton = d.skeleton := by
  induction els generalizing d with
  | nil => rfl
  | cons el els ih =>
    have hstep : (d.modify el fun e => { e with initialized := value }).skeleton = d.skeleton :=
      skeleton_modify fun _ => ⟨rfl, rfl⟩
    rw [← hstep]
    exact ih

/-- Setting the initialized flag changes nothing but the elements. -/
theorem setInitialized_rest (value : Bool) (els : List ElementRef) :
    (d.setInitialized value els).journal = d.journal ∧
      (d.setInitialized value els).cloning = d.cloning := by
  induction els generalizing d with
  | nil => exact ⟨rfl, rfl⟩
  | cons el els ih => exact ih (d := d.modify el fun e => { e with initialized := value })

theorem bindings_setInitialized (value : Bool) (els : List ElementRef) :
    (d.setInitialized value els).bindings = d.bindings := by
  induction els generalizing d with
  | nil => rfl
  | cons el els ih => exact ih (d := d.modify el fun e => { e with initialized := value })

@[simp] theorem bindings_destroyTree : (d.destroyTree el).bindings = d.bindings :=
  bindings_setInitialized _ _

@[simp] theorem bindings_initTree : (d.initTree el).bindings = d.bindings := by
  rw [initTree]
  split
  · rfl
  · exact bindings_setInitialized _ _

@[simp] theorem cloning_destroyTree : (d.destroyTree el).cloning = d.cloning :=
  (setInitialized_rest _ _).2

@[simp] theorem cloning_initTree : (d.initTree el).cloning = d.cloning := by
  rw [initTree]
  split
  · rfl
  · exact (setInitialized_rest _ _).2

theorem journal_destroyTree : (d.destroyTree el).journal = d.journal ++ [.destroyed el] := by
  show (d.setInitialized _ _).journal ++ _ = _
  rw [(setInitialized_rest _ _).1]

theorem journal_initTree : (d.initTree el).journal = d.journal ∨
    (d.initTree el).journal = d.journal ++ [.initialized el] := by
  rw [initTree]
  split
  · exact .inl rfl
  · right
    show (d.setInitialized _ _).journal ++ _ = _
    rw [(setInitialized_rest _ _).1]

/-- A root that is not inert is initialized. -/
theorem journal_initTree_of_free (h : d.isInert el = false) :
    (d.initTree el).journal = d.journal ++ [.initialized el] := by
  rw [initTree, h]
  show (d.setInitialized _ _).journal ++ _ = _
  rw [(setInitialized_rest _ _).1]

@[simp] theorem skeleton_destroyTree : (d.destroyTree el).skeleton = d.skeleton :=
  skeleton_setInitialized _ _

@[simp] theorem skeleton_initTree : (d.initTree el).skeleton = d.skeleton := by
  rw [initTree]
  split
  · rfl
  · exact skeleton_setInitialized _ _

theorem isInert_markInert :
    (d.markInert el).isInert x = true ↔ d.isInert x = true ∨ x = el ∧ d.Exists x := by
  rw [isInert, markInert, element?_modify, isInert, Exists]
  by_cases h : x = el
  · subst h
    cases d.element? x <;> simp
  · simp [h]

theorem isInert_clearInert :
    (d.clearInert el).isInert x = true ↔ d.isInert x = true ∧ x ≠ el := by
  rw [isInert, clearInert, element?_modify, isInert]
  by_cases h : x = el
  · subst h
    cases d.element? x <;> simp
  · simp [h]

theorem isInert_setInitialized (value : Bool) (els : List ElementRef) :
    (d.setInitialized value els).isInert x = d.isInert x := by
  induction els generalizing d with
  | nil => rfl
  | cons el els ih =>
    have hstep : (d.modify el fun e => { e with initialized := value }).isInert x =
        d.isInert x := by
      rw [isInert, element?_modify, isInert]
      split
      · cases d.element? x <;> rfl
      · rfl
    rw [← hstep]
    exact ih

@[simp] theorem isInert_destroyTree : (d.destroyTree el).isInert x = d.isInert x :=
  isInert_setInitialized _ _

@[simp] theorem isInert_initTree : (d.initTree el).isInert x = d.isInert x := by
  rw [initTree]
  split
  · rfl
  · exact isInert_setInitialized _ _

theorem isInitialized_modify_inert (f : Element → Element)
    (hf : ∀ e, (f e).initialized = e.initialized) :
    (d.modify el f).isInitialized x = d.isInitialized x := by
  rw [isInitialized, element?_modify, isInitialized]
  split
  · cases d.element? x with
    | none => rfl
    | some e => simp [hf e]
  · rfl

@[simp] theorem isInitialized_markInert : (d.markInert el).isInitialized x = d.isInitialized x :=
  isInitialized_modify_inert _ fun _ => rfl

@[simp] theorem isInitialized_clearInert : (d.clearInert el).isInitialized x = d.isInitialized x :=
  isInitialized_modify_inert _ fun _ => rfl

theorem isInitialized_setInitialized (value : Bool) (els : List ElementRef) :
    (d.setInitialized value els).isInitialized x = true ↔
      x ∈ els ∧ value = true ∧ d.Exists x ∨ x ∉ els ∧ d.isInitialized x = true := by
  induction els generalizing d with
  | nil => simp [setInitialized]
  | cons el els ih =>
    have hcons : d.setInitialized value (el :: els) =
        (d.modify el fun e => { e with initialized := value }).setInitialized value els := rfl
    have hskeleton : (d.modify el fun e => { e with initialized := value }).skeleton =
        d.skeleton := skeleton_modify fun _ => ⟨rfl, rfl⟩
    have hex : (d.modify el fun e => { e with initialized := value }).Exists x = d.Exists x := by
      rw [exists_congr hskeleton]
    rw [hcons, ih, hex]
    by_cases hx : x = el
    · subst hx
      rw [isInitialized, element?_modify, if_pos rfl, Exists]
      by_cases hmem : x ∈ els
      · simp [hmem]
      · cases d.element? x <;> simp [hmem]
    · rw [isInitialized, element?_modify, if_neg hx, ← isInitialized]
      simp [hx]

/-- **`destroyTree`** takes initialization back from what is below its root. -/
theorem isInitialized_destroyTree (hd : d.Grounded) :
    (d.destroyTree el).isInitialized x = true ↔
      d.isInitialized x = true ∧ ¬ d.Reached (fun _ => false) el x := by
  have hset := isInitialized_setInitialized (d := d) (x := x) false (d.subtree (fun _ => false) el)
  rw [mem_subtree hd] at hset
  refine Iff.trans hset ?_
  by_cases h : d.Reached (fun _ => false) el x <;> simp [h]

/-- **`initTree`** initializes what is reached from its root. -/
theorem isInitialized_initTree (hd : d.Grounded) :
    (d.initTree el).isInitialized x = true ↔
      d.isInitialized x = true ∨ d.Reached Element.inert el x := by
  rw [initTree]
  split
  · next hi =>
    have hnot : ¬ d.Reached Element.inert el x := by
      rw [isInert] at hi
      cases he : d.element? el with
      | none => simp [he] at hi
      | some e => exact not_reached_of_pruned he (by simpa [he] using hi)
    simp [hnot]
  · have hset := isInitialized_setInitialized (d := d) (x := x) true (d.subtree Element.inert el)
    rw [mem_subtree hd] at hset
    refine Iff.trans hset ?_
    by_cases h : d.Reached Element.inert el x
    · simp [h, h.exists]
    · simp [h]

end Hydration.Document
