import Hydration.Proofs.Document.Initialization

/-!
# The wording of a document

What an author declares is written in the attributes of the elements.  A document is **reworded**
when its elements have other attributes.  Nothing that is done to the tree looks at them: its
elements are the same in the same order, and each operation does the same to their flags and to the
journal.
-/

namespace Hydration

/-- An element with other attributes. -/
def Element.reworded (e : Element) (attributes : List (String × String)) : Element :=
  { e with attributes }

namespace Document

variable {d : Document} {el : ElementRef} {attributes : ElementRef → List (String × String)}

/-- The document whose elements have other attributes. -/
def reworded (d : Document) (attributes : ElementRef → List (String × String)) : Document :=
  { d with elements := d.elements.mapIdx fun i e => e.reworded (attributes ⟨i⟩) }

theorem element?_reworded (el : ElementRef) : (d.reworded attributes).element? el =
    (d.element? el).map (·.reworded (attributes el)) :=
  List.getElem?_mapIdx

/-- The attributes of a reworded document do not depend on those that it had. -/
theorem attribute?_reworded (name : String) : (d.reworded attributes).attribute? el name =
    d.skeleton[el.index]?.bind fun _ => (attributes el).reverse.lookup name := by
  rw [attribute?, element?_reworded, element?_skeleton, Option.bind_map, Option.bind_map]
  rfl

/-! ## The tree -/

theorem refs_reworded : (d.reworded attributes).refs = d.refs := by
  rw [refs, refs, reworded, List.length_mapIdx]

/-- A test of an element that does not look at its attributes. -/
theorem any_element?_reworded {test : Element → Bool}
    (h : ∀ (e : Element) attributes, test (e.reworded attributes) = test e) :
    ((d.reworded attributes).element? el).any test = (d.element? el).any test := by
  rw [element?_reworded]
  cases d.element? el with
  | none => rfl
  | some e => exact h e _

theorem isInert_reworded : (d.reworded attributes).isInert el = d.isInert el :=
  any_element?_reworded fun _ _ => rfl

theorem isInitialized_reworded : (d.reworded attributes).isInitialized el = d.isInitialized el :=
  any_element?_reworded fun _ _ => rfl

theorem roots_reworded : (d.reworded attributes).roots = d.roots := by
  rw [roots, roots, refs_reworded]
  exact List.filter_congr fun _ _ => any_element?_reworded fun _ _ => rfl

theorem children_reworded : (d.reworded attributes).children el = d.children el := by
  rw [children, children, refs_reworded]
  exact List.filter_congr fun _ _ => any_element?_reworded fun _ _ => rfl

theorem walk_reworded {prune : Element → Bool}
    (h : ∀ (e : Element) attributes, prune (e.reworded attributes) = prune e) (steps : Nat)
    (stack : List ElementRef) :
    (d.reworded attributes).walk prune steps stack = d.walk prune steps stack := by
  induction steps generalizing stack with
  | zero => cases stack <;> rfl
  | succ steps ih =>
    cases stack with
    | nil => rfl
    | cons x stack =>
      rw [walk, walk, element?_reworded]
      cases d.element? x with
      | none => exact ih stack
      | some e => simp only [Option.map_some, h, ih, children_reworded]

theorem subtree_reworded {prune : Element → Bool}
    (h : ∀ (e : Element) attributes, prune (e.reworded attributes) = prune e) :
    (d.reworded attributes).subtree prune el = d.subtree prune el := by
  have hdescent : (d.reworded attributes).descent prune el = d.descent prune el :=
    funext fun steps => walk_reworded h steps [el]
  rw [subtree, subtree, hdescent, enoughSteps, enoughSteps, reworded, List.length_mapIdx]

theorem climb_reworded (steps : Nat) (from? : Option ElementRef) :
    (d.reworded attributes).climb steps from? = d.climb steps from? := by
  induction steps generalizing from? with
  | zero => cases from? <;> rfl
  | succ steps ih =>
    cases from? with
    | none => rfl
    | some x =>
      rw [climb, climb, element?_reworded]
      cases d.element? x with
      | none => rfl
      | some e =>
        simp only [Option.map_some, ih]
        rfl

theorem hasInertAncestor_reworded :
    (d.reworded attributes).hasInertAncestor el = d.hasInertAncestor el := by
  have hparent : ((d.reworded attributes).element? el).bind (·.parent) =
      (d.element? el).bind (·.parent) := by
    rw [element?_reworded, Option.bind_map]
    rfl
  have hascent : (d.reworded attributes).ascent el = d.ascent el := by
    funext steps
    rw [ascent, ascent, hparent, climb_reworded]
  rw [hasInertAncestor, hasInertAncestor, hascent, enoughSteps, enoughSteps, reworded,
    List.length_mapIdx]

/-! ## Operations -/

/-- The next element is added with its other attributes. -/
theorem add_reworded (parent : Option ElementRef) (written : List (String × String)) :
    ((d.reworded attributes).add parent (attributes ⟨d.elements.length⟩)).2 =
      (d.add parent written).2.reworded attributes := by
  rw [add, add, reworded, reworded]
  dsimp only
  rw [List.mapIdx_concat]
  rfl

/-- A change of an element that does not look at its attributes and leaves them as they are. -/
theorem modify_reworded {f : Element → Element}
    (h : ∀ (e : Element) attributes, f (e.reworded attributes) = (f e).reworded attributes) :
    (d.reworded attributes).modify el f = (d.modify el f).reworded attributes := by
  have helements : (d.elements.mapIdx fun i e => e.reworded (attributes ⟨i⟩)).modify el.index f =
      (d.elements.modify el.index f).mapIdx fun i e => e.reworded (attributes ⟨i⟩) := by
    refine List.ext_getElem? fun i => ?_
    rw [List.getElem?_modify, List.getElem?_mapIdx, List.getElem?_mapIdx, List.getElem?_modify]
    cases d.elements[i]? with
    | none => rfl
    | some e =>
      by_cases hi : el.index = i
      · simp [hi, h]
      · simp [hi]
  rw [modify, modify, reworded, reworded, helements]

theorem setInitialized_reworded (value : Bool) (els : List ElementRef) :
    (d.reworded attributes).setInitialized value els =
      (d.setInitialized value els).reworded attributes := by
  induction els generalizing d with
  | nil => rfl
  | cons x els ih =>
    show ((d.reworded attributes).modify x _).setInitialized value els = _
    rw [modify_reworded fun _ _ => rfl]
    exact ih

theorem destroyTree_reworded : (d.reworded attributes).destroyTree el =
    (d.destroyTree el).reworded attributes := by
  rw [destroyTree, subtree_reworded fun _ _ => rfl, setInitialized_reworded]
  rfl

theorem initTree_reworded : (d.reworded attributes).initTree el =
    (d.initTree el).reworded attributes := by
  rw [initTree, initTree, isInert_reworded]
  by_cases h : d.isInert el = true
  · rw [if_pos h, if_pos h]
  · rw [if_neg h, if_neg h, subtree_reworded fun _ _ => rfl, setInitialized_reworded]
    rfl

theorem initTrees_reworded (els : List ElementRef) :
    els.foldl initTree (d.reworded attributes) = (els.foldl initTree d).reworded attributes := by
  induction els generalizing d with
  | nil => rfl
  | cons x els ih =>
    rw [List.foldl_cons, List.foldl_cons, initTree_reworded]
    exact ih

end Document

end Hydration
