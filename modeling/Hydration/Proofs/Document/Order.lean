import Hydration.Proofs.Document.Initialization

/-!
# Document order and the operations on a subtree

In a grounded document numbers increase downwards, so of two elements at most one is above the
other (`Grounded.lt_of_ancestor`, `Grounded.not_above_parent`).  An element **comes before** another if
it is an ancestor of it, or if the two are below different children of one element and that of
the first was created earlier (`Precedes`).

A walk visits its elements in this order (`pairwise_walk`): the elements on its stack stand so
that all that is below one of them comes before all that is below a later one.  Hence no element
is visited twice.

With that the operations on a subtree are given by what they do to each element
(`subtree_operations`).
-/

namespace Hydration.Document

variable {d d' : Document} {prune : Element → Bool} {a b c p r x y el : ElementRef}

/-! ## Above -/

/-- No element is above its parent. -/
theorem Grounded.not_above_parent (hd : d.Grounded) (hp : d.Parent p x) : ¬d.Above x p :=
  fun h => hd.not_ancestor_self (Relation.TransGen.tail' h hp)

/-- What is above an element is the element itself or above its parent. -/
theorem above_cases (h : d.Above a x) : a = x ∨ ∃ p, d.Parent p x ∧ d.Above a p := by
  rcases Relation.ReflTransGen.cases_tail h with rfl | ⟨p, hap, hp⟩
  · exact .inl rfl
  · exact .inr ⟨p, hp, hap⟩

/-- What is at or below a child of an element is properly below the element. -/
theorem Grounded.proper_of_child (hd : d.Grounded) (hp : d.Parent p c) (h : d.Above c x) :
    p ≠ x ∧ d.Above p x := by
  refine ⟨?_, .head hp h⟩
  rintro rfl
  exact hd.not_above_parent hp h

/-- Of two elements above a third one is above the other. -/
theorem Above.total (ha : d.Above a x) (hb : d.Above b x) : d.Above a b ∨ d.Above b a := by
  induction ha with
  | refl => exact .inr hb
  | @tail y x hay hp ih =>
    rcases above_cases hb with rfl | ⟨q, hq, hbq⟩
    · exact .inl (hay.tail hp)
    · exact ih (hq.unique hp ▸ hbq)

/-- Different children of an element are not above each other. -/
theorem Grounded.not_above_sibling (hd : d.Grounded) (hb : d.Parent p b) (hc : d.Parent p c)
    (hne : b ≠ c) : ¬d.Above b c := by
  intro h
  rcases above_cases h with heq | ⟨q, hq, hbq⟩
  · exact hne heq
  · exact hd.not_above_parent hb (hq.unique hc ▸ hbq)

/-- **A proper ancestor** is one that is above an element's parent. -/
theorem Grounded.proper_iff (hd : d.Grounded) :
    a ≠ x ∧ d.Above a x ↔ ∃ p, d.Parent p x ∧ d.Above a p := by
  constructor
  · rintro ⟨hne, h⟩
    rcases above_cases h with heq | habove
    · exact absurd heq hne
    · exact habove
  · rintro ⟨p, hp, hap⟩
    refine ⟨?_, hap.tail hp⟩
    rintro rfl
    exact hd.not_above_parent hp hap

/-- Elements are reached along paths without a pruned element. -/
theorem reached_iff_path (hd : d.Grounded) (hel : d.Exists el) :
    d.Reached prune el x ↔ d.Above el x ∧
      ∀ b e, d.Above el b → d.Above b x → d.element? b = some e → prune e = false := by
  constructor
  · intro h
    refine ⟨h.above, ?_⟩
    induction h with
    | @root f hf hprune =>
      intro b e helb hb he
      rcases above_cases hb with rfl | ⟨p, hp, hbp⟩
      · exact Option.some.inj (hf.symm.trans he) ▸ hprune
      · exact absurd (helb.trans hbp) (hd.not_above_parent hp)
    | @child y z f _ hz hfy hprune ih =>
      intro b e helb hb he
      rcases above_cases hb with rfl | ⟨p, hp, hbp⟩
      · exact Option.some.inj (hz.symm.trans he) ▸ hprune
      · exact ih b e helb (hp.unique ⟨f, hz, hfy⟩ ▸ hbp) he
  · rintro ⟨h, hfree⟩
    induction h with
    | refl =>
      obtain ⟨e, he⟩ := Option.isSome_iff_exists.mp hel
      exact .root he (hfree el e .refl .refl he)
    | @tail y z hy hp ih =>
      have hreached := ih fun b e helb hb => hfree b e helb (hb.tail hp)
      have hz := hfree z
      obtain ⟨e, he, hpe⟩ := id hp
      exact .child hreached he hpe (hz e (hy.tail hp) .refl he)

/-! ## Document order -/

/-- **Document order**: `x` is an ancestor of `y`, or they are at or below different children of one
element and that of `x` was created first. -/
def Precedes (d : Document) (x y : ElementRef) : Prop :=
  x ≠ y ∧ d.Above x y ∨
    ∃ p b c, d.Parent p b ∧ d.Parent p c ∧ b.index < c.index ∧ d.Above b x ∧ d.Above c y

theorem Grounded.precedes_irrefl (hd : d.Grounded) : ¬d.Precedes x x := by
  rintro (⟨hne, -⟩ | ⟨p, b, c, hb, hc, hlt, hbx, hcx⟩)
  · exact hne rfl
  · have hne : b ≠ c := by
      rintro rfl
      exact Nat.lt_irrefl _ hlt
    rcases hbx.total hcx with h | h
    · exact hd.not_above_sibling hb hc hne h
    · exact hd.not_above_sibling hc hb hne.symm h

/-- What is at or below `a` comes before what is at or below `b`. -/
def Ahead (d : Document) (a b : ElementRef) : Prop :=
  ∀ x y, d.Above a x → d.Above b y → d.Precedes x y

theorem pairwise_children : (d.children r).Pairwise d.Ahead := by
  have hrefs : d.refs.Pairwise fun b c => b.index < c.index :=
    List.pairwise_map.mpr List.pairwise_lt_range
  refine (hrefs.filter _).imp_of_mem fun hb hc hlt => ?_
  intro x y hx hy
  exact .inr ⟨r, _, _, mem_children.mp hb, mem_children.mp hc, hlt, hx, hy⟩

/-- The children of an element take its place on the stack. -/
theorem pairwise_descend {stack : List ElementRef} (h : (r :: stack).Pairwise d.Ahead) :
    (d.children r ++ stack).Pairwise d.Ahead := by
  rw [List.pairwise_cons] at h
  refine List.pairwise_append.mpr ⟨pairwise_children, h.2, fun c hc s hs x y hx hy => ?_⟩
  exact h.1 s hs x y (.head (mem_children.mp hc) hx) hy

/-- **A walk follows document order** if its stack does. -/
theorem pairwise_walk (hd : d.Grounded) {steps : Nat} {stack visited : List ElementRef}
    (h : d.walk prune steps stack = some visited) (hstack : stack.Pairwise d.Ahead) :
    visited.Pairwise d.Precedes := by
  induction steps generalizing stack visited with
  | zero =>
    cases stack with
    | nil =>
      obtain rfl := Option.some.inj h
      exact .nil
    | cons r stack => cases h
  | succ steps ih =>
    cases stack with
    | nil =>
      obtain rfl := Option.some.inj h
      exact .nil
    | cons r stack =>
      rw [walk] at h
      split at h
      · exact ih h hstack.of_cons
      · split at h
        · exact ih h hstack.of_cons
        · obtain ⟨rest, hrest, rfl⟩ := Option.map_eq_some_iff.mp h
          refine List.pairwise_cons.mpr ⟨fun y hy => ?_, ih hrest (pairwise_descend hstack)⟩
          -- What is visited later is below a child of `r` or below what stood behind it.
          obtain ⟨s, hs, hsy⟩ := (mem_walk hrest).mp hy
          rcases List.mem_append.mp hs with hs | hs
          · exact .inl (hd.proper_of_child (mem_children.mp hs) hsy.above)
          · exact (List.pairwise_cons.mp hstack).1 s hs r y .refl hsy.above

/-! ## Flags -/

theorem element?_setInitialized (value : Bool) (els : List ElementRef) :
    (d.setInitialized value els).element? x =
      if x ∈ els then (d.element? x).map fun e => { e with initialized := value }
      else d.element? x := by
  induction els generalizing d with
  | nil => rfl
  | cons el els ih =>
    show ((d.modify el _).setInitialized value els).element? x = _
    rw [ih, element?_modify]
    by_cases hel : x = el
    · subst hel
      by_cases hx : x ∈ els
      · simp [hx, Function.comp_def]
      · simp [hx]
    · simp [hel]

/-- **The flag of initialization has been set** to a value on the elements of a set.  Nothing else
of these elements, no other element and nothing else of the document but the journal has
changed. -/
structure Sets (d : Document) (value : Bool) (inside : ElementRef → Prop) (d' : Document) :
    Prop where
  set : ∀ x, inside x → d'.element? x = (d.element? x).map fun e => { e with initialized := value }
  kept : ∀ x, ¬inside x → d'.element? x = d.element? x
  bindings : d'.bindings = d.bindings
  cloning : d'.cloning = d.cloning

/-- Setting the flag of what a walk visits. -/
theorem sets_subtree (hd : d.Grounded) (value : Bool) {inside : ElementRef → Prop}
    (hinside : ∀ x, d.Reached prune el x ↔ inside x) (journal : List TreeChange) :
    d.Sets value inside { d.setInitialized value (d.subtree prune el) with journal } where
  set x hx := by
    have hmem : x ∈ d.subtree prune el := (mem_subtree hd).mpr ((hinside x).mpr hx)
    exact (element?_setInitialized value _).trans (if_pos hmem)
  kept x hx := by
    have hnot : x ∉ d.subtree prune el := fun h => hx ((hinside x).mp ((mem_subtree hd).mp h))
    exact (element?_setInitialized value _).trans (if_neg hnot)
  bindings := bindings_setInitialized _ _
  cloning := (setInitialized_rest _ _).2

/-- The elements at or below an element, up to the inert ones. -/
theorem reached_inert_iff_path (hd : d.Grounded) (hel : d.Exists el) :
    d.Reached Element.inert el x ↔
      d.Above el x ∧ ∀ a, d.Above el a → d.Above a x → d.isInert a = false := by
  rw [reached_iff_path hd hel]
  refine and_congr_right fun _ => ⟨fun h a hela ha => ?_, fun h a e hela ha he => ?_⟩
  · obtain ⟨e, he⟩ := Option.isSome_iff_exists.mp (Above.exists hela hel)
    exact (isInert_eq_false_iff he).mpr (h a e hela ha he)
  · exact (isInert_eq_false_iff he).mp (h a hela ha)

/-- **The operations on a subtree**, in a document in which each element has no parent, one that
was created before it, or one that is never created.

* Initializing the subtree of an element that is not inert sets the flag of exactly those
  elements of the subtree that no inert element is on the path to, the two ends included, and
  notes it.  With an inert element nothing changes at all.
* Destroying the subtree of an element clears the flag of exactly the elements of the subtree,
  below inert ones as well, and notes it.
* An element that does not exist has no subtree; the operation on it is only noted.
* An element has an inert ancestor exactly if some element properly above it is inert.
* A walk visits each of its elements exactly once, in document order: those that no pruned element
  is on the path to. -/
theorem subtree_operations (d : Document) (hd : d.Grounded) (el : ElementRef) :
    (d.Exists el →
      (d.isInert el = false →
        d.Sets true (fun x => d.Above el x ∧
          ∀ a, d.Above el a → d.Above a x → d.isInert a = false) (d.initTree el) ∧
        (d.initTree el).journal = d.journal ++ [.initialized el]) ∧
      (d.isInert el = true → d.initTree el = d) ∧
      d.Sets false (d.Above el) (d.destroyTree el) ∧
      (d.destroyTree el).journal = d.journal ++ [.destroyed el]) ∧
    (¬d.Exists el →
      d.initTree el = { d with journal := d.journal ++ [.initialized el] } ∧
      d.destroyTree el = { d with journal := d.journal ++ [.destroyed el] }) ∧
    (d.hasInertAncestor el = true ↔ ∃ a, a ≠ el ∧ d.Above a el ∧ d.isInert a = true) ∧
    ∀ prune : Element → Bool, ∃ visited, d.walk prune d.enoughSteps [el] = some visited ∧
      (∀ x, x ∈ visited ↔ d.Exists el ∧ d.Above el x ∧
        ∀ a e, d.Above el a → d.Above a x → d.element? a = some e → prune e = false) ∧
      visited.Nodup ∧ visited.Pairwise d.Precedes := by
  refine ⟨fun hel => ⟨fun hfree => ⟨?_, journal_initTree_of_free hfree⟩, ?_, ?_,
    journal_destroyTree⟩, fun hmissing => ?_, ?_, fun prune => ?_⟩
  · rw [initTree, hfree]
    exact sets_subtree hd true (fun x => reached_inert_iff_path hd hel) _
  · exact fun hinert => if_pos hinert
  · exact sets_subtree hd false (fun x => reached_all_iff hel) _
  · have hnone : d.element? el = none := by simpa [Exists] using hmissing
    have hempty : ∀ prune, d.subtree prune el = [] := fun prune =>
      List.eq_nil_iff_forall_not_mem.mpr fun x hx =>
        not_reached_of_missing hnone ((mem_subtree hd).mp hx)
    have hfree : d.isInert el = false := by rw [isInert, hnone]; rfl
    refine ⟨?_, ?_⟩
    · rw [initTree, hfree, hempty]
      rfl
    · rw [destroyTree, hempty]
      rfl
  · rw [hasInertAncestor_iff hd]
    constructor
    · rintro ⟨p, hp, a, ha, hinert⟩
      obtain ⟨hne, habove⟩ := hd.proper_iff.mpr ⟨p, hp, ha⟩
      exact ⟨a, hne, habove, hinert⟩
    · rintro ⟨a, hne, habove, hinert⟩
      obtain ⟨p, hp, ha⟩ := hd.proper_iff.mp ⟨hne, habove⟩
      exact ⟨p, hp, a, ha, hinert⟩
  · obtain ⟨visited, hv⟩ := exists_walk hd prune el
    have hordered : visited.Pairwise d.Precedes :=
      pairwise_walk hd hv (List.pairwise_singleton _ _)
    refine ⟨visited, hv, fun x => ?_, hordered.imp fun hxy => ?_, hordered⟩
    · simp only [mem_walk hv, List.mem_singleton, exists_eq_left]
      by_cases hel : d.Exists el
      · rw [reached_iff_path hd hel, and_iff_right hel]
      · have hnone : d.element? el = none := by simpa [Exists] using hel
        exact iff_of_false (not_reached_of_missing hnone) fun h => hel h.1
    · rintro rfl
      exact hd.precedes_irrefl hxy

/-- Whether a document is grounded can be seen from its elements. -/
instance : Decidable d.Grounded :=
  decidable_of_iff ((d.refs.all fun x => (d.element? x).all fun e => e.parent.all fun a =>
    a.index < x.index || d.elements.length ≤ a.index) = true) <| by
  simp only [List.all_eq_true, mem_refs, Option.all_eq_true, Bool.or_eq_true, decide_eq_true_eq]
  constructor
  · rintro h a x ⟨e, he, ha⟩
    exact (h x (by simp [Exists, he]) e he a ha).imp_right fun hle hex =>
      Nat.not_lt.mpr hle (exists_iff.mp hex)
  · intro h x _ e he a ha
    exact (h a x ⟨e, he, ha⟩).imp_right fun hne => Nat.not_lt.mp fun hlt => hne (exists_iff.mpr hlt)

/-- A document with an inert element that has something initialized below it, and with an element
whose parent is never created. -/
def partlyInert : Document :=
  { elements := [{ parent := none, attributes := [] },
      { parent := some ⟨0⟩, attributes := [], inert := true },
      { parent := some ⟨1⟩, attributes := [], initialized := true },
      { parent := some ⟨0⟩, attributes := [] }, { parent := some ⟨2⟩, attributes := [] },
      { parent := some ⟨9⟩, attributes := [] }] }

/-- What is below the inert element keeps its flag when the root is initialized and loses it when the
inert element is destroyed.  The walk from the root visits it before the root's next child. -/
theorem subtree_operations_partlyInert :
    let d := partlyInert
    (d.Grounded ∧ d.Exists ⟨0⟩ ∧ d.isInert ⟨0⟩ = false) ∧
      (d.initTree ⟨0⟩).element? ⟨2⟩ = d.element? ⟨2⟩ ∧ d.initTree ⟨1⟩ = d ∧
      (d.destroyTree ⟨1⟩).element? ⟨2⟩ = some { parent := some ⟨1⟩, attributes := [] } ∧
      (∃ a, a ≠ ⟨4⟩ ∧ d.Above a ⟨4⟩ ∧ d.isInert a = true) ∧
      [⟨0⟩, ⟨1⟩, ⟨2⟩, ⟨4⟩, ⟨3⟩].Pairwise d.Precedes := by
  intro d
  have hd : d.Grounded := by decide
  have hroot : d.Exists ⟨0⟩ := rfl
  have hone : d.Above ⟨0⟩ ⟨1⟩ := .single ⟨_, rfl, rfl⟩
  have htwo : d.Above ⟨1⟩ ⟨2⟩ := .single ⟨_, rfl, rfl⟩
  obtain ⟨hsets, -⟩ := ((subtree_operations d hd ⟨0⟩).1 hroot).1 rfl
  obtain ⟨-, hinert, hcleared, -⟩ := (subtree_operations d hd ⟨1⟩).1 rfl
  obtain ⟨visited, hv, -, -, hordered⟩ := (subtree_operations d hd ⟨0⟩).2.2.2 fun _ => false
  have hkept := hsets.kept ⟨2⟩ fun h => Bool.noConfusion (h.2 ⟨1⟩ hone htwo)
  have hvisited : visited = [⟨0⟩, ⟨1⟩, ⟨2⟩, ⟨4⟩, ⟨3⟩] := (Option.some.inj hv).symm
  exact ⟨⟨hd, hroot, rfl⟩, hkept, hinert rfl, hcleared.set ⟨2⟩ htwo,
    (subtree_operations d hd ⟨4⟩).2.2.1.mp (by decide), hvisited ▸ hordered⟩

end Hydration.Document
