import Mathlib.Data.List.Induction
import Hydration.Proofs.Document.Initialization

/-!
# References in a circle

Three operations on an element follow references in a loop (`Traversal`): `hasInertAncestor`
climbs from it, `destroyTree` and `initTree` walk down from it.  A parent may be any number,
that of the element itself or of one to come included, so references can go in a circle, and an
element in it is its own `Ancestor`.

**A climb** goes on from elements that are not inert (`Climbs`).  It never ends when it comes to a
circle (`Caught.climb_eq_none`); otherwise it passes no element twice (`climb_isSome`).

**A walk** never ends when it comes back to its root (`Returns.walk_eq_none`).  It cannot come back
to another element, because that has only one parent (`Walking.descend`).

**Closing a circle.**  A circle arises when an element is added whose parent is the element itself
or is below it already, by references that were made in advance (`Closes`,
`exists_ancestor_add`).  So the parents that were given one after another tell whether a document
has a circle (`exists_ancestor_built`).

Hence all loops come to an end exactly if no parent that was given closes a circle, and then
within `enoughSteps` (`loops_end_iff`).  On one element they do so, whatever elements are inert,
exactly if no circle stands at or above it (`loopsEnd_iff`).
-/

namespace Hydration.Document

open Relation

variable {d : Document} {prune : Element → Bool} {a c p x y el : ElementRef}

/-! ## Climbing into a circle -/

theorem climb_of_climbs (h : d.Climbs a x) (steps : Nat) :
    d.climb (steps + 1) (some x) = d.climb steps (some a) := by
  obtain ⟨⟨e, he, hparent⟩, hinert⟩ := h
  rw [climb, he]
  simp only [(isInert_eq_false_iff he).mp hinert, hparent]
  rfl

/-- A climb that comes to a circle goes on, and still comes to it. -/
theorem Caught.climbs (h : d.Caught x) : ∃ a, d.Climbs a x ∧ d.Caught a := by
  obtain ⟨c, hcx, hcc⟩ := h
  rcases ReflTransGen.cases_tail hcx with rfl | ⟨a, hca, ha⟩
  · obtain ⟨a, hca, ha⟩ := TransGen.tail'_iff.mp hcc
    exact ⟨a, ha, x, hca, hcc⟩
  · exact ⟨a, ha, c, hca, hcc⟩

theorem Caught.climb_eq_none (h : d.Caught x) (steps : Nat) : d.climb steps (some x) = none := by
  induction steps generalizing x with
  | zero => rfl
  | succ steps ih =>
    obtain ⟨a, ha, hcaught⟩ := h.climbs
    rw [climb_of_climbs ha, ih hcaught]

theorem Caught.of_above (h : d.Caught x) (ha : d.Above a x) : d.Caught a := by
  induction ha using ReflTransGen.head_induction_on with
  | refl => exact h
  | head hab _ ih =>
    obtain ⟨q, hq, hcaught⟩ := ih.climbs
    exact hq.1.unique hab ▸ hcaught

theorem climbs_of_above (ha : d.Above a x) (hfree : ∀ b, d.Above b x → d.isInert b = false) :
    ReflTransGen d.Climbs a x := by
  induction ha using ReflTransGen.head_induction_on with
  | refl => exact .refl
  | head hab hbx ih => exact .head ⟨hab, hfree _ hbx⟩ ih

/-- A climb comes to a circle if there is one above and no inert element stands before it. -/
theorem caught_iff :
    d.Caught x ↔ (∃ c, d.Above c x ∧ d.Ancestor c c) ∧ ∀ a, d.Above a x → d.isInert a = false := by
  constructor
  · intro h
    refine ⟨?_, fun a ha => ?_⟩
    · obtain ⟨c, hcx, hcc⟩ := h
      exact ⟨c, ReflTransGen.mono (fun _ _ h => h.1) _ _ hcx,
        TransGen.mono (fun _ _ h => h.1) _ _ hcc⟩
    · obtain ⟨q, hq, -⟩ := (h.of_above ha).climbs
      exact hq.2
  · rintro ⟨⟨c, hcx, hcc⟩, hfree⟩
    obtain ⟨b, hcb, hbc⟩ := TransGen.head'_iff.mp hcc
    have hbx : d.Above b x := hbc.trans hcx
    exact ⟨c, climbs_of_above hcx hfree,
      .head' ⟨hcb, hfree b hbx⟩ (climbs_of_above hbc fun y hy => hfree y (hy.trans hcx))⟩

/-! ## Walking back to the root -/

/-- A walk from whose stack the parent `x` of a root is reached, as it is from that root, never
ends. -/
theorem walk_eq_none {stack : List ElementRef} (hx : d.Reached prune el x) (hp : d.Parent x el)
    (h : ∃ y ∈ stack, d.Reached prune y x) (steps : Nat) : d.walk prune steps stack = none := by
  induction steps generalizing stack with
  | zero =>
    cases stack with
    | nil => simp at h
    | cons r stack => rfl
  | succ steps ih =>
    cases stack with
    | nil => simp at h
    | cons r stack =>
      have hcases : d.Reached prune r x ∨ ∃ y ∈ stack, d.Reached prune y x := by simpa using h
      rw [walk]
      cases hr : d.element? r with
      | none => exact ih (hcases.resolve_left (not_reached_of_missing hr))
      | some e =>
        dsimp only
        split
        · next hprune => exact ih (hcases.resolve_left (not_reached_of_pruned hr hprune))
        · next hprune =>
          rw [ih ?_]
          · rfl
          rcases hcases with hrx | ⟨y, hy, hyx⟩
          · -- From `x` the walk goes on to the root, and from there to `x` again.
            rcases (reached_iff hr (Bool.eq_false_iff.mpr hprune)).mp hrx with rfl | ⟨c, hc, hcx⟩
            · exact ⟨el, List.mem_append_left _ (mem_children.mpr hp), hx⟩
            · exact ⟨c, List.mem_append_left _ hc, hcx⟩
          · exact ⟨y, List.mem_append_right _ hy, hyx⟩

theorem Returns.walk_eq_none (h : d.Returns prune el) (steps : Nat) :
    d.walk prune steps [el] = none := by
  obtain ⟨x, hx, hp⟩ := h
  exact Document.walk_eq_none hx hp ⟨el, List.mem_singleton_self el, hx⟩ steps

theorem Reached.self (h : d.Reached prune a x) : d.Reached prune a a := by
  induction h with
  | root he hprune => exact .root he hprune
  | child _ _ _ _ ih => exact ih

/-- A walk that comes back to its root reaches all that is above the root. -/
theorem Returns.reached (h : d.Returns prune el) (ha : d.Above a el) : d.Reached prune el a := by
  obtain ⟨x, hx, hp⟩ := h
  induction ha using ReflTransGen.head_induction_on with
  | refl => exact hx.self
  | head hab _ ih =>
    cases ih with
    | root _ _ => exact hp.unique hab ▸ hx
    | child hy he hparent _ => exact Parent.unique ⟨_, he, hparent⟩ hab ▸ hy

theorem returns_all_iff : d.Returns (fun _ => false) el ↔ d.Ancestor el el := by
  constructor
  · rintro ⟨x, hx, hp⟩
    exact .tail' hx.above hp
  · intro h
    obtain ⟨x, hx, hp⟩ := TransGen.tail'_iff.mp h
    exact ⟨x, (reached_all_iff hp.exists).mpr hx, hp⟩

theorem returns_inert_iff : d.Returns Element.inert el ↔
    d.Ancestor el el ∧ ∀ a, d.Above a el → d.isInert a = false := by
  constructor
  · intro h
    refine ⟨?_, fun a ha => (h.reached ha).isInert⟩
    obtain ⟨x, hx, hp⟩ := h
    exact .tail' hx.above hp
  · rintro ⟨h, hfree⟩
    obtain ⟨x, hx, hp⟩ := TransGen.tail'_iff.mp h
    refine ⟨x, (reached_inert_iff hp.exists fun q a hq ha => hfree a (ha.tail hq)).mpr ?_, hp⟩
    exact ⟨hx, Above.exists hx hp.exists, fun a ha => hfree a (ha.tail hp)⟩

/-! ## The loops of the operations -/

/-- The operations on an element that follow references in a loop. -/
inductive Traversal where
  | hasInertAncestor
  | destroyTree
  | initTree
deriving DecidableEq, Repr

/-- The loop of an operation on `el` ends within a number of steps.  (`initTree` does not begin its
walk when the root is inert; that walk would end at once.) -/
def EndsWithin (d : Document) (el : ElementRef) (steps : Nat) : Traversal → Prop
  | .hasInertAncestor => (d.ascent el steps).isSome
  | .destroyTree => (d.descent (fun _ => false) el steps).isSome
  | .initTree => (d.descent Element.inert el steps).isSome

/-- The references that an operation on `el` follows go in a circle.  For `hasInertAncestor` a circle
stands at or above the element, for the others the element is in it; an inert element cuts off
what lies beyond. -/
def Circles (d : Document) (el : ElementRef) : Traversal → Prop
  | .hasInertAncestor =>
    (∃ c, d.Above c el ∧ d.Ancestor c c) ∧ ∀ a, d.Ancestor a el → d.isInert a = false
  | .destroyTree => d.Ancestor el el
  | .initTree => d.Ancestor el el ∧ ∀ a, d.Above a el → d.isInert a = false

theorem Circles.exists_above {t : Traversal} (h : d.Circles el t) :
    ∃ c, d.Above c el ∧ d.Ancestor c c := by
  cases t with
  | hasInertAncestor => exact h.1
  | destroyTree => exact ⟨el, .refl, h⟩
  | initTree => exact ⟨el, .refl, h.1⟩

theorem Circles.exists_ancestor {t : Traversal} (h : d.Circles el t) : ∃ c, d.Ancestor c c := by
  obtain ⟨c, -, hc⟩ := h.exists_above
  exact ⟨c, hc⟩

/-- A climb begins at the parent. -/
theorem circles_climb_iff :
    d.Circles el .hasInertAncestor ↔ ∃ p, d.Parent p el ∧ d.Caught p := by
  constructor
  · rintro ⟨⟨c, hc, hcc⟩, hfree⟩
    have hparent : ∃ p c, d.Parent p el ∧ d.Above c p ∧ d.Ancestor c c := by
      rcases ReflTransGen.cases_tail hc with rfl | ⟨p, hcp, hp⟩
      · obtain ⟨p, hcp, hp⟩ := TransGen.tail'_iff.mp hcc
        exact ⟨p, el, hp, hcp, hcc⟩
      · exact ⟨p, c, hp, hcp, hcc⟩
    obtain ⟨p, c, hp, hcp, hcc⟩ := hparent
    exact ⟨p, hp, caught_iff.mpr ⟨⟨c, hcp, hcc⟩, fun a ha => hfree a (.tail' ha hp)⟩⟩
  · rintro ⟨p, hp, hcaught⟩
    obtain ⟨⟨c, hcp, hcc⟩, hfree⟩ := caught_iff.mp hcaught
    refine ⟨⟨c, hcp.tail hp, hcc⟩, fun a ha => ?_⟩
    obtain ⟨q, haq, hq⟩ := TransGen.tail'_iff.mp ha
    exact hfree a (hq.unique hp ▸ haq)

/-- **A circle is followed for ever.** -/
theorem Circles.not_endsWithin {t : Traversal} (h : d.Circles el t) (steps : Nat) :
    ¬d.EndsWithin el steps t := by
  cases t with
  | hasInertAncestor =>
    obtain ⟨p, ⟨e, he, hparent⟩, hcaught⟩ := circles_climb_iff.mp h
    simp [EndsWithin, ascent, he, hparent, hcaught.climb_eq_none]
  | destroyTree => simp [EndsWithin, descent, (returns_all_iff.mpr h).walk_eq_none]
  | initTree => simp [EndsWithin, descent, (returns_inert_iff.mpr h).walk_eq_none]

/-- **Without a circle** an operation takes at most as many steps as there are elements, and one
more. -/
theorem endsWithin_of_not_circles {t : Traversal} (h : ¬d.Circles el t) :
    d.EndsWithin el d.enoughSteps t := by
  cases t with
  | hasInertAncestor =>
    show (d.climb _ _).isSome
    cases hparent : (d.element? el).bind (·.parent) with
    | none => rfl
    | some p =>
      have hp : d.Parent p el := Option.bind_eq_some_iff.mp hparent
      have hfree : ¬d.Caught p := fun hcaught => h (circles_climb_iff.mpr ⟨p, hp, hcaught⟩)
      exact climb_isSome hfree (by simp) List.nodup_nil (by simp)
  | destroyTree => exact walk_isSome fun hreturns => h (returns_all_iff.mp hreturns)
  | initTree => exact walk_isSome fun hreturns => h (returns_inert_iff.mp hreturns)

/-! ## Elements on which all loops end -/

/-- **The loops on an element end**, whatever elements are inert. -/
def LoopsEnd (d : Document) (el : ElementRef) : Prop :=
  ∀ d' : Document, d'.skeleton = d.skeleton → ∀ t, d'.EndsWithin el d'.enoughSteps t

/-- The document with no element inert. -/
def unmarked (d : Document) : Document :=
  { d with elements := d.elements.map fun e => { e with inert := false } }

theorem skeleton_unmarked : d.unmarked.skeleton = d.skeleton := by
  show (d.elements.map _).map _ = d.elements.map _
  rw [List.map_map]
  rfl

theorem isInert_unmarked : d.unmarked.isInert x = false := by
  show Option.any _ (d.elements.map _)[x.index]? = false
  rw [List.getElem?_map]
  cases d.elements[x.index]? <;> rfl

/-- They do so exactly if no circle stands at or above the element. -/
theorem loopsEnd_iff : d.LoopsEnd el ↔ ∀ c, d.Above c el → ¬d.Ancestor c c := by
  constructor
  · intro h c hc hcc
    -- With no mark in the way the climb comes to the circle.
    have hcircle : d.unmarked.Circles el .hasInertAncestor := by
      refine ⟨⟨c, ?_, ?_⟩, fun _ _ => isInert_unmarked⟩
      · rwa [above_congr skeleton_unmarked]
      · rwa [Ancestor, parent_congr skeleton_unmarked]
    exact hcircle.not_endsWithin _ (h d.unmarked skeleton_unmarked _)
  · intro h d' hsame t
    refine endsWithin_of_not_circles fun hcircle => ?_
    obtain ⟨c, hc, hcc⟩ := hcircle.exists_above
    rw [above_congr hsame] at hc
    rw [Ancestor, parent_congr hsame] at hcc
    exact h c hc hcc

/-- Where parents were created before their children, or never, all loops come to an end. -/
theorem Grounded.loopsEnd (hd : d.Grounded) : d.LoopsEnd el :=
  loopsEnd_iff.mpr fun _ _ => hd.not_ancestor_self

/-! ## Closing a circle -/

section Adding

variable {parent : Option ElementRef} {attributes : List (String × String)}

theorem element?_add : (d.add parent attributes).2.element? x =
    if x = ⟨d.elements.length⟩ then some { parent, attributes } else d.element? x := by
  show (d.elements ++ [_])[x.index]? = if _ then _ else d.elements[x.index]?
  split
  · next hx => rw [hx, List.getElem?_concat_length]
  · next hx =>
    have hne : x.index ≠ d.elements.length := fun h => hx (congrArg ElementRef.mk h)
    rw [List.getElem?_append]
    split
    · rfl
    · rw [List.getElem?_eq_none (by simp only [List.length_singleton]; omega),
        List.getElem?_eq_none (by omega)]

theorem parent_add : (d.add parent attributes).2.Parent a x ↔
    d.Parent a x ∨ x = ⟨d.elements.length⟩ ∧ parent = some a := by
  rw [Parent, Parent, element?_add]
  by_cases hx : x = ⟨d.elements.length⟩
  · have hnone : d.element? x = none := by simp [hx, element?]
    rw [if_pos hx, hnone]
    simp [hx]
  · simp [hx]

theorem above_add (h : (d.add parent attributes).2.Above a x) :
    d.Above a x ∨ d.Above ⟨d.elements.length⟩ x := by
  induction h with
  | refl => exact .inl .refl
  | tail _ hp ih =>
    rcases parent_add.mp hp with hp | ⟨rfl, -⟩
    · exact ih.imp (·.tail hp) (·.tail hp)
    · exact .inr .refl

/-- A way up in the larger document that is none of the smaller one leads from the new element to
its parent. -/
theorem ancestor_add (h : (d.add parent attributes).2.Ancestor a x) :
    d.Ancestor a x ∨ ∃ p, parent = some p ∧ (d.add parent attributes).2.Above a p ∧
      d.Above ⟨d.elements.length⟩ x := by
  -- Below the last place where it does so, the way is one of the smaller document.
  induction h with
  | single hp =>
    rcases parent_add.mp hp with hp | ⟨rfl, hparent⟩
    · exact .inl (.single hp)
    · exact .inr ⟨a, hparent, .refl, .refl⟩
  | @tail y z hay hp ih =>
    rcases parent_add.mp hp with hp | ⟨rfl, hparent⟩
    · rcases ih with ih | ⟨p, hparent, hap, hy⟩
      · exact .inl (ih.tail hp)
      · exact .inr ⟨p, hparent, hap, hy.tail hp⟩
    · exact .inr ⟨y, hparent, hay.to_reflTransGen, .refl⟩

/-- An element that is added with this parent closes a circle: its parent is the element itself or
is below it already. -/
def Closes (d : Document) (parent : Option ElementRef) : Prop :=
  ∃ p, parent = some p ∧ d.Above ⟨d.elements.length⟩ p

/-- **One more element** closes a circle or brings none. -/
theorem exists_ancestor_add : (∃ c, (d.add parent attributes).2.Ancestor c c) ↔
    (∃ c, d.Ancestor c c) ∨ d.Closes parent := by
  have hold : ∀ a x, d.Parent a x → (d.add parent attributes).2.Parent a x :=
    fun a x hp => parent_add.mpr (.inl hp)
  constructor
  · rintro ⟨c, hc⟩
    rcases ancestor_add hc with hc | ⟨p, hparent, hcp, hnew⟩
    · exact .inl ⟨c, hc⟩
    · exact .inr ⟨p, hparent, (above_add hcp).elim hnew.trans id⟩
  · rintro (⟨c, hc⟩ | ⟨p, hparent, hp⟩)
    · exact ⟨c, TransGen.mono hold _ _ hc⟩
    · exact ⟨_, .tail' (ReflTransGen.mono hold _ _ hp) (parent_add.mpr (.inr ⟨rfl, hparent⟩))⟩

end Adding

/-- The document that is built by adding elements one after another, with the parents and attributes
that are given. -/
def built (given : List (Option ElementRef × List (String × String))) : Document :=
  given.foldl (fun d r => (d.add r.1 r.2).2) {}

section Building

variable {given : List (Option ElementRef × List (String × String))}
  {r : Option ElementRef × List (String × String)}

theorem built_concat : built (given ++ [r]) = ((built given).add r.1 r.2).2 := by
  rw [built, List.foldl_append]
  rfl

theorem skeleton_built : (built given).skeleton = given := by
  induction given using List.reverseRecOn with
  | nil => rfl
  | append_singleton given r ih =>
    rw [built_concat]
    show ((built given).elements ++ [_]).map _ = _
    rw [List.map_append, ← skeleton, ih]
    rfl

/-- **The circles of a document** that was built by adding elements have been closed by some of
them. -/
theorem exists_ancestor_built : (∃ c, (built given).Ancestor c c) ↔
    ∃ before r, before ++ [r] <+: given ∧ (built before).Closes r.1 := by
  induction given using List.reverseRecOn with
  | nil =>
    constructor
    · rintro ⟨c, hc⟩
      exact absurd hc.exists (by simp [Exists, element?, built])
    · rintro ⟨before, r, hprefix, -⟩
      simp at hprefix
  | append_singleton given r ih =>
    rw [built_concat, exists_ancestor_add, ih]
    constructor
    · rintro (⟨before, r', hprefix, hcloses⟩ | hcloses)
      · exact ⟨before, r', hprefix.trans (List.prefix_append _ _), hcloses⟩
      · exact ⟨given, r, List.prefix_rfl, hcloses⟩
    · rintro ⟨before, r', hprefix, hcloses⟩
      rcases List.prefix_concat_iff.mp hprefix with heq | hprefix
      · obtain ⟨rfl, hlast⟩ := List.append_inj' heq rfl
        obtain rfl := List.singleton_inj.mp hlast
        exact .inr hcloses
      · exact .inl ⟨before, r', hprefix, hcloses⟩

end Building

/-- **The loops come to an end** on an element unless the references that they follow go in a
circle, and then within `enoughSteps`.  They do so on every element exactly if none of the
elements, with the parents that they were given one after another, has closed a circle. -/
theorem loops_end_iff (d : Document) :
    (∀ el t, ((∃ steps, d.EndsWithin el steps t) ↔ ¬d.Circles el t) ∧
      (d.EndsWithin el d.enoughSteps t ↔ ¬d.Circles el t)) ∧
    ((∀ el t, ∃ steps, d.EndsWithin el steps t) ↔
      ∀ before r, before ++ [r] <+: d.skeleton → ¬(built before).Closes r.1) := by
  have hends : ∀ el t, (∃ steps, d.EndsWithin el steps t) ↔ ¬d.Circles el t := fun el t =>
    ⟨fun ⟨steps, h⟩ hcircle => hcircle.not_endsWithin steps h,
      fun h => ⟨_, endsWithin_of_not_circles h⟩⟩
  have hcircles : (∀ el t, ¬d.Circles el t) ↔ ¬∃ c, d.Ancestor c c :=
    ⟨fun h ⟨c, hc⟩ => h c .destroyTree hc, fun h el t hcircle => h hcircle.exists_ancestor⟩
  have hsame : d.Ancestor = (built d.skeleton).Ancestor := by
    rw [Ancestor, Ancestor, parent_congr skeleton_built.symm]
  refine ⟨fun el t => ⟨hends el t, fun h hcircle => hcircle.not_endsWithin _ h,
    endsWithin_of_not_circles⟩, ?_⟩
  simp only [hends]
  rw [hcircles, hsame, exists_ancestor_built]
  simp only [not_exists, not_and]

/-- An element that is its own parent: all loops on it go on for ever. -/
theorem own_parent_never_ends :
    let d := built [(some ⟨0⟩, [])]
    d.Exists ⟨0⟩ ∧ ∀ t steps, ¬d.EndsWithin ⟨0⟩ steps t := by
  intro d
  have hself : d.Ancestor ⟨0⟩ ⟨0⟩ := .single ⟨_, rfl, rfl⟩
  have hfree : ∀ a, d.isInert a = false
    | ⟨0⟩ => rfl
    | ⟨_ + 1⟩ => rfl
  refine ⟨rfl, fun t => Circles.not_endsWithin ?_⟩
  cases t with
  | hasInertAncestor => exact ⟨⟨_, .refl, hself⟩, fun a _ => hfree a⟩
  | destroyTree => exact hself
  | initTree => exact ⟨hself, fun a _ => hfree a⟩

end Hydration.Document
