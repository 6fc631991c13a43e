import Hydration.Proofs.Document.Tree

/-!
# What is initialized

While only inert elements are kept back, an element is initialized exactly if
neither it nor any of its ancestors is inert.  A document with this property is
`Consistent`.

* Initializing the roots of a document without initialized elements makes it
  consistent (`consistent_initRoots`).
* Handing an inert element back keeps a document consistent.  Nothing below the
  element is initialized before, so destroying its tree takes nothing back
  (`isInitialized_destroyTree_of_inert`).  Afterwards its subtree is left to an inert
  ancestor (`Consistent.release`), or it is initialized (`Consistent.initialize`).
-/

namespace Hydration.Document

variable {d d' : Document} {a b x y el : ElementRef}

/-- **What is initialized** is what exists and is not inert nor below an inert element. -/
def Consistent (d : Document) : Prop :=
  ∀ x, d.isInitialized x = true ↔ d.Exists x ∧ ∀ a, d.Above a x → d.isInert a = false

theorem isInert_exists (h : d.isInert x = true) : d.Exists x := by
  rw [isInert] at h
  cases hx : d.element? x with
  | none => simp [hx] at h
  | some e => simp [Exists, hx]

/-! ## Reached elements -/

theorem reached_all_iff (hel : d.Exists el) :
    d.Reached (fun _ => false) el x ↔ d.Above el x := by
  constructor
  · exact Reached.above
  · intro h
    induction h with
    | refl =>
      obtain ⟨e, he⟩ := Option.isSome_iff_exists.mp hel
      exact .root he rfl
    | tail _ hp ih =>
      obtain ⟨e, he, hpe⟩ := hp
      exact .child ih he hpe rfl

theorem isInert_eq_false_iff {e : Element} (he : d.element? x = some e) :
    d.isInert x = false ↔ e.inert = false := by
  simp [isInert, he]

theorem Reached.isInert (h : d.Reached Element.inert a x) : d.isInert x = false := by
  cases h with
  | root he hinert => exact (isInert_eq_false_iff he).mpr hinert
  | child _ he _ hinert => exact (isInert_eq_false_iff he).mpr hinert

/-- If no ancestor of `el` is inert, then below it those elements are reached that have no inert
element above them. -/
theorem reached_inert_iff (hel : d.Exists el)
    (habove : ∀ p a, d.Parent p el → d.Above a p → d.isInert a = false) :
    d.Reached Element.inert el x ↔
      d.Above el x ∧ d.Exists x ∧ ∀ a, d.Above a x → d.isInert a = false := by
  constructor
  · intro h
    refine ⟨h.above, h.exists, ?_⟩
    induction h with
    | root he hi =>
      intro a ha
      rcases Relation.ReflTransGen.cases_tail ha with rfl | ⟨p, hap, hp⟩
      · exact (isInert_eq_false_iff he).mpr hi
      · exact habove p a hp hap
    | @child y z e _ he hp hi ih =>
      intro a ha
      rcases Relation.ReflTransGen.cases_tail ha with rfl | ⟨p, hap, hpz⟩
      · exact (isInert_eq_false_iff he).mpr hi
      · have hpy : d.Parent y z := ⟨e, he, hp⟩
        exact ih a (hpz.unique hpy ▸ hap)
  · rintro ⟨h, -, hinert⟩
    induction h with
    | refl =>
      obtain ⟨e, he⟩ := Option.isSome_iff_exists.mp hel
      exact .root he ((isInert_eq_false_iff he).mp (hinert el .refl))
    | @tail y z _ hp ih =>
      have hy := ih fun a ha => hinert a (ha.tail hp)
      have hz := hinert z .refl
      obtain ⟨e, he, hpe⟩ := hp
      exact .child hy he hpe ((isInert_eq_false_iff he).mp hz)

theorem Reached.congr_inert (hs : d.skeleton = d'.skeleton)
    (hi : ∀ x, d.isInert x = d'.isInert x) (h : d.Reached Element.inert a x) :
    d'.Reached Element.inert a x := by
  have hsame : ∀ {y : ElementRef} {e : Element}, d.element? y = some e → e.inert = false →
      ∃ e', d'.element? y = some e' ∧ e'.parent = e.parent ∧ e'.inert = false := by
    intro y e he hie
    have hsk := element?_skeleton d y
    rw [hs, element?_skeleton, he] at hsk
    obtain ⟨e', he', hpair⟩ := Option.map_eq_some_iff.mp hsk
    refine ⟨e', he', (Prod.mk.inj hpair).1, ?_⟩
    rw [← isInert_eq_false_iff he', ← hi, isInert_eq_false_iff he, hie]
  induction h with
  | root he hie =>
    obtain ⟨e', he', -, hi'⟩ := hsame he hie
    exact .root he' hi'
  | child _ he hp hie ih =>
    obtain ⟨e', he', hp', hi'⟩ := hsame he hie
    exact .child ih he' (hp'.trans hp) hi'

/-! ## Initializing the roots -/

theorem skeleton_initTrees (rs : List ElementRef) :
    (rs.foldl initTree d).skeleton = d.skeleton := by
  induction rs generalizing d with
  | nil => rfl
  | cons r rs ih => rw [List.foldl_cons, ih, skeleton_initTree]

theorem cloning_initTrees (rs : List ElementRef) :
    (rs.foldl initTree d).cloning = d.cloning := by
  induction rs generalizing d with
  | nil => rfl
  | cons r rs ih => rw [List.foldl_cons, ih, cloning_initTree]

/-- Initializing trees is noted as nothing else. -/
theorem journal_initTrees (rs : List ElementRef) : ∃ noted : List ElementRef,
    (rs.foldl initTree d).journal = d.journal ++ noted.map .initialized := by
  induction rs generalizing d with
  | nil => exact ⟨[], (List.append_nil _).symm⟩
  | cons r rs ih =>
    obtain ⟨noted, hnoted⟩ := ih (d := d.initTree r)
    rw [List.foldl_cons, hnoted]
    rcases (journal_initTree : (d.initTree r).journal = d.journal ∨ _) with h | h
    · exact ⟨noted, by rw [h]⟩
    · exact ⟨r :: noted, by rw [h, List.append_assoc]; rfl⟩

theorem isInert_initTrees (rs : List ElementRef) :
    (rs.foldl initTree d).isInert x = d.isInert x := by
  induction rs generalizing d with
  | nil => rfl
  | cons r rs ih => rw [List.foldl_cons, ih, isInert_initTree]

theorem isInitialized_initTrees (hd : d.Grounded) (rs : List ElementRef) :
    (rs.foldl initTree d).isInitialized x = true ↔
      d.isInitialized x = true ∨ ∃ r ∈ rs, d.Reached Element.inert r x := by
  induction rs generalizing d with
  | nil => simp
  | cons r rs ih =>
    have hs : (d.initTree r).skeleton = d.skeleton := skeleton_initTree
    have hground : (d.initTree r).Grounded := by
      rw [Grounded, parent_congr hs, exists_congr hs]
      exact hd
    have hreached : ∀ c, (d.initTree r).Reached Element.inert c x ↔
        d.Reached Element.inert c x := fun c =>
      ⟨.congr_inert hs fun _ => isInert_initTree,
        .congr_inert hs.symm fun _ => isInert_initTree.symm⟩
    rw [List.foldl_cons, ih hground, isInitialized_initTree hd]
    simp only [hreached, List.exists_mem_cons_iff, or_assoc]

/-- Every element of an ordered document has a root above it. -/
theorem Ordered.exists_root (h : d.Ordered) (hx : d.Exists x) :
    ∃ r ∈ d.roots, d.Above r x := by
  obtain ⟨n, hn⟩ : ∃ n, x.index = n := ⟨_, rfl⟩
  induction n using Nat.strongRecOn generalizing x with
  | ind n ih =>
    obtain ⟨e, he⟩ := Option.isSome_iff_exists.mp hx
    cases hp : e.parent with
    | none => exact ⟨x, mem_roots.mpr ⟨e, he, hp⟩, .refl⟩
    | some p =>
      have hpx : d.Parent p x := ⟨e, he, hp⟩
      have hlt := h p x hpx
      have hpe : d.Exists p := exists_iff.mpr (by have := exists_iff.mp hx; omega)
      obtain ⟨r, hr, hrp⟩ := ih p.index (by omega) hpe rfl
      exact ⟨r, hr, hrp.tail hpx⟩

/-- **Initializing the roots** of a document in which nothing is initialized makes it
consistent. -/
theorem consistent_initRoots (h : d.Ordered) (hnone : ∀ x, d.isInitialized x = false) :
    (d.roots.foldl initTree d).Consistent := by
  have hs : (d.roots.foldl initTree d).skeleton = d.skeleton := skeleton_initTrees _
  intro x
  rw [isInitialized_initTrees h.grounded, hnone, exists_congr hs, above_congr hs]
  simp only [isInert_initTrees, Bool.false_eq_true, false_or]
  have hroot : ∀ r ∈ d.roots, d.Exists r ∧ ∀ p a, d.Parent p r → d.Above a p →
      d.isInert a = false := by
    intro r hr
    obtain ⟨e, he, hp⟩ := mem_roots.mp hr
    refine ⟨by simp [Exists, he], ?_⟩
    rintro p a ⟨f, hf, hfp⟩ _
    rw [he] at hf
    obtain rfl := Option.some.inj hf
    rw [hp] at hfp
    cases hfp
  constructor
  · rintro ⟨r, hr, hx⟩
    exact ((reached_inert_iff (hroot r hr).1 (hroot r hr).2).mp hx).2
  · rintro ⟨hx, hinert⟩
    obtain ⟨r, hr, hrx⟩ := h.exists_root hx
    exact ⟨r, hr, (reached_inert_iff (hroot r hr).1 (hroot r hr).2).mpr ⟨hrx, hx, hinert⟩⟩

/-! ## Handing an element back -/

/-- Below an inert element nothing is initialized. -/
theorem Consistent.not_initialized (hc : d.Consistent) (hi : d.isInert el = true)
    (hx : d.Above el x) : d.isInitialized x = false := by
  rw [← Bool.not_eq_true]
  intro hinit
  have := ((hc x).mp hinit).2 el hx
  rw [hi] at this
  cases this

/-- Destroying the tree of an inert element takes nothing back. -/
theorem isInitialized_destroyTree_of_inert (h : d.Ordered) (hc : d.Consistent)
    (hi : d.isInert el = true) : (d.destroyTree el).isInitialized x = d.isInitialized x := by
  rw [Bool.eq_iff_iff, isInitialized_destroyTree h.grounded, reached_all_iff (isInert_exists hi)]
  constructor
  · exact And.left
  · intro hx
    refine ⟨hx, fun habove => ?_⟩
    rw [hc.not_initialized hi habove] at hx
    cases hx

/-- The element with its tree destroyed and its mark taken away. -/
def release (d : Document) (el : ElementRef) : Document :=
  (d.destroyTree el).clearInert el

@[simp] theorem skeleton_release : (d.release el).skeleton = d.skeleton := by
  rw [release, skeleton_clearInert, skeleton_destroyTree]

theorem isInert_release :
    (d.release el).isInert x = true ↔ d.isInert x = true ∧ x ≠ el := by
  rw [release, isInert_clearInert, isInert_destroyTree]

theorem isInitialized_release (h : d.Ordered) (hc : d.Consistent) (hi : d.isInert el = true) :
    (d.release el).isInitialized x = d.isInitialized x := by
  rw [release, isInitialized_clearInert, isInitialized_destroyTree_of_inert h hc hi]

/-- An inert ancestor keeps what is below a released element back. -/
theorem Consistent.release (h : d.Ordered) (hc : d.Consistent) (hi : d.isInert el = true)
    (hancestor : (d.release el).hasInertAncestor el = true) : (d.release el).Consistent := by
  have hs : (d.release el).skeleton = d.skeleton := skeleton_release
  have hground : (d.release el).Grounded := ((ordered_congr hs).mpr h).grounded
  obtain ⟨p, hp, b, hb, hbi⟩ := (hasInertAncestor_iff hground).mp hancestor
  rw [parent_congr hs] at hp
  rw [above_congr hs] at hb
  intro x
  rw [isInitialized_release h hc hi, hc x, exists_congr hs, above_congr hs]
  constructor
  · rintro ⟨hx, hinert⟩
    refine ⟨hx, fun a ha => ?_⟩
    rw [← Bool.not_eq_true, isInert_release, hinert a ha]
    simp
  · rintro ⟨hx, hinert⟩
    refine ⟨hx, fun a ha => ?_⟩
    by_cases hael : a = el
    · -- The inert ancestor of the released element is above everything below it.
      subst hael
      have := hinert b (hb.trans (.head hp ha))
      rw [hbi] at this
      cases this
    · rw [← Bool.not_eq_true]
      intro hai
      have := hinert a ha
      rw [isInert_release.mpr ⟨hai, hael⟩] at this
      cases this

/-- Without an inert ancestor a released element is initialized with what is below it. -/
theorem Consistent.initialize (h : d.Ordered) (hc : d.Consistent) (hi : d.isInert el = true)
    (hancestor : (d.release el).hasInertAncestor el = false) :
    ((d.release el).initTree el).Consistent := by
  have hs : (d.release el).skeleton = d.skeleton := skeleton_release
  have hs' : ((d.release el).initTree el).skeleton = d.skeleton := by
    rw [skeleton_initTree, hs]
  have hground : (d.release el).Grounded := ((ordered_congr hs).mpr h).grounded
  have hfree : ∀ p a, (d.release el).Parent p el → (d.release el).Above a p →
      (d.release el).isInert a = false := by
    intro p a hp ha
    rw [← Bool.not_eq_true]
    intro hai
    rw [(hasInertAncestor_iff hground).mpr ⟨p, hp, a, ha, hai⟩] at hancestor
    cases hancestor
  have hel : (d.release el).Exists el := by
    rw [exists_congr hs]
    exact isInert_exists hi
  intro x
  rw [isInitialized_initTree hground, isInitialized_release h hc hi, reached_inert_iff hel hfree,
    exists_congr hs, above_congr hs, exists_congr hs', above_congr hs']
  simp only [isInert_initTree]
  constructor
  · rintro (hx | ⟨-, hx⟩)
    · obtain ⟨hx, hinert⟩ := (hc x).mp hx
      refine ⟨hx, fun a ha => ?_⟩
      rw [← Bool.not_eq_true, isInert_release, hinert a ha]
      simp
    · exact hx
  · rintro ⟨hx, hinert⟩
    by_cases habove : d.Above el x
    · exact .inr ⟨habove, hx, hinert⟩
    · -- The release is none of the element's concern, so it was initialized before.
      refine .inl ((hc x).mpr ⟨hx, fun a ha => ?_⟩)
      rw [← Bool.not_eq_true]
      intro hai
      have hael : a ≠ el := by
        rintro rfl
        exact habove ha
      have := hinert a ha
      rw [isInert_release.mpr ⟨hai, hael⟩] at this
      cases this

end Hydration.Document
