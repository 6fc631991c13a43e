import Hydration.Proofs.Options.Default
import Hydration.Url.Parse

/-!
# Updates one after another

An update gives new values for some **fields** of the options and is refused as a whole if it
gives a blank default requirement.  After any number of updates a field has the value given last
for it by an update that was not refused, and if there is none the value it had at first
(`value_afterUpdates`).  So two updates that are not refused come to the same as the one update
that gives for each field what the second gives, or else the first (`merge_overlay`).

To a page an update does nothing but this (`merged_updates`).
-/

namespace Hydration

namespace Options

/-- A field of the options. -/
inductive Field where
  | defaultStrategy
  | keepRelativeUrls
  | baseUrl
  | attributePrefix
deriving DecidableEq, Repr

/-- What a field holds. -/
def Field.Value : Field → Type
  | defaultStrategy => String
  | keepRelativeUrls => Bool
  | baseUrl => Option String
  | attributePrefix => String

/-- The value of a field. -/
def value (o : Options) : (f : Field) → f.Value
  | .defaultStrategy => o.defaultStrategy
  | .keepRelativeUrls => o.keepRelativeUrls
  | .baseUrl => o.baseUrl
  | .attributePrefix => o.attributePrefix

end Options

namespace OptionsUpdate

/-- The value that an update gives for a field.  It cannot take a base URL away. -/
def given? (u : OptionsUpdate) : (f : Options.Field) → Option f.Value
  | .defaultStrategy => u.defaultStrategy
  | .keepRelativeUrls => u.keepRelativeUrls
  | .baseUrl => u.baseUrl.map some
  | .attributePrefix => u.attributePrefix

/-- Whether an update is refused: it gives a blank default requirement. -/
def isRefused (u : OptionsUpdate) : Bool :=
  u.defaultStrategy.any Text.isBlankText

variable {u v : OptionsUpdate}

theorem given?_overlay (f : Options.Field) :
    (u.overlay v).given? f = (v.given? f).or (u.given? f) := by
  cases f with
  | baseUrl =>
    show (v.baseUrl.orElse fun _ => u.baseUrl).map some =
      (v.baseUrl.map some).or (u.baseUrl.map some)
    cases v.baseUrl <;> rfl
  | _ => exact Option.orElse_eq_or

/-- The default requirement of an overlay is that of one of the two updates. -/
theorem isRefused_overlay (hu : u.isRefused = false) (hv : v.isRefused = false) :
    (u.overlay v).isRefused = false := by
  rw [isRefused] at hv
  show (v.defaultStrategy.orElse fun _ => u.defaultStrategy).any Text.isBlankText = false
  cases h : v.defaultStrategy with
  | none => exact hu
  | some text =>
    rw [h] at hv
    exact hv

end OptionsUpdate

namespace Options

variable {o o' : Options} {u v : OptionsUpdate}

/-- Options with the same value in each field are the same. -/
theorem eq_of_value (h : ∀ f, o.value f = o'.value f) : o = o' := by
  cases o
  cases o'
  obtain rfl := h .defaultStrategy
  obtain rfl := h .keepRelativeUrls
  obtain rfl := h .baseUrl
  obtain rfl := h .attributePrefix
  rfl

theorem value_overlay (f : Field) : (o.overlay u).value f = (u.given? f).getD (o.value f) := by
  cases f with
  | baseUrl =>
    show (u.baseUrl.orElse fun _ => o.baseUrl) = (u.baseUrl.map some).getD o.baseUrl
    cases u.baseUrl <;> rfl
  | _ => rfl

theorem overlay_overlay : (o.overlay u).overlay v = o.overlay (u.overlay v) := by
  refine eq_of_value fun f => ?_
  rw [value_overlay, value_overlay, value_overlay, OptionsUpdate.given?_overlay]
  cases v.given? f <;> rfl

theorem merge_of_refused (h : u.isRefused = true) : o.merge u = .error .blankDefaultStrategy := by
  rw [merge_eq]
  exact if_pos h

theorem merge_of_accepted (h : u.isRefused = false) : o.merge u = .ok (o.overlay u) := by
  rw [merge_eq]
  exact if_neg (ne_true_of_eq_false h)

/-- **Two updates come to one**: what the second gives counts, and else what the first gives. -/
theorem merge_overlay (hu : u.isRefused = false) (hv : v.isRefused = false) :
    (o.merge u).bind (·.merge v) = o.merge (u.overlay v) := by
  rw [merge_of_accepted hu, merge_of_accepted (OptionsUpdate.isRefused_overlay hu hv),
    ← overlay_overlay]
  exact merge_of_accepted hv

/-- The options after an update, which may be refused. -/
def afterUpdate (o : Options) (u : OptionsUpdate) : Options :=
  match o.merge u with
  | .ok o' => o'
  | .error _ => o

/-- The options after updates. -/
def afterUpdates (o : Options) (updates : List OptionsUpdate) : Options :=
  updates.foldl afterUpdate o

theorem afterUpdate_eq : o.afterUpdate u = if u.isRefused then o else o.overlay u := by
  cases h : u.isRefused with
  | true => rw [afterUpdate, merge_of_refused h]; rfl
  | false => rw [afterUpdate, merge_of_accepted h]; rfl

theorem afterUpdates_concat (updates : List OptionsUpdate) :
    o.afterUpdates (updates ++ [u]) = (o.afterUpdates updates).afterUpdate u :=
  List.foldl_concat ..

/-- Two updates that are not refused do what their overlay does. -/
theorem afterUpdates_pair (hu : u.isRefused = false) (hv : v.isRefused = false) :
    o.afterUpdates [u, v] = o.afterUpdates [u.overlay v] := by
  show (o.afterUpdate u).afterUpdate v = o.afterUpdate (u.overlay v)
  simp only [afterUpdate_eq, hu, hv, OptionsUpdate.isRefused_overlay hu hv]
  exact overlay_overlay

/-- The value given last for a field by an update that is not refused. -/
def lastGiven? (f : Field) (updates : List OptionsUpdate) : Option f.Value :=
  ((updates.filter (!·.isRefused)).filterMap (·.given? f)).getLast?

theorem lastGiven?_concat (f : Field) (updates : List OptionsUpdate) :
    lastGiven? f (updates ++ [u]) =
      if u.isRefused then lastGiven? f updates else (u.given? f).or (lastGiven? f updates) := by
  rw [lastGiven?, List.filter_append, List.filterMap_append, List.getLast?_append]
  cases h : u.isRefused with
  | true => simp [h, lastGiven?]
  | false => cases hgiven : u.given? f <;> simp [h, hgiven, lastGiven?]

/-- **The value of a field after updates** is the one given last by an update that was not
refused, or the one it had at first. -/
theorem value_afterUpdates (o : Options) (updates : List OptionsUpdate) (f : Field) :
    (o.afterUpdates updates).value f = (lastGiven? f updates).getD (o.value f) := by
  induction updates using List.reverseRecOn with
  | nil => rfl
  | append_singleton updates u ih =>
    rw [afterUpdates_concat, afterUpdate_eq, lastGiven?_concat]
    cases h : u.isRefused with
    | true => exact ih
    | false =>
      rw [if_neg Bool.false_ne_true, if_neg Bool.false_ne_true, value_overlay, ih]
      cases u.given? f <;> rfl

end Options

namespace Page

variable {p : Page} {u : OptionsUpdate}

/-- The page after updates of its options. -/
def afterUpdates (p : Page) (updates : List OptionsUpdate) : Page :=
  updates.foldl (fun p u => (p.perform (.mergeOptions u)).2) p

theorem perform_of_refused (h : u.isRefused = true) :
    p.perform (.mergeOptions u) = (.failure (.config .blankDefaultStrategy), p) := by
  rw [perform, Options.merge_of_refused h]

theorem perform_of_accepted (h : u.isRefused = false) : p.perform (.mergeOptions u) =
    (.options (p.options.overlay u), { p with options := p.options.overlay u }) := by
  rw [perform, Options.merge_of_accepted h]

theorem perform_mergeOptions_snd :
    (p.perform (.mergeOptions u)).2 = { p with options := p.options.afterUpdate u } := by
  rw [Options.afterUpdate_eq]
  cases h : u.isRefused with
  | true => rw [perform_of_refused h]; rfl
  | false => rw [perform_of_accepted h]; rfl

/-- Updates change nothing of a page but the options. -/
theorem afterUpdates_eq (p : Page) (updates : List OptionsUpdate) :
    p.afterUpdates updates = { p with options := p.options.afterUpdates updates } := by
  induction updates generalizing p with
  | nil => rfl
  | cons u updates ih =>
    show ((p.perform (.mergeOptions u)).2).afterUpdates updates = _
    rw [ih, perform_mergeOptions_snd]
    rfl

/-- **Updates of the options.**  On a page that has had any updates each field of the options has
the value given last for it by an update that was not refused, or the one it had at first, and
nothing else of the page has changed.

* An update is refused exactly if it gives a blank default requirement, and then the page stays
  as it is, whatever else the update gives.
* Two updates that are not refused do together what their overlay does, which is not refused
  either and gives for each field what the second update gives, or else the first. -/
theorem merged_updates (p : Page) (updates : List OptionsUpdate) :
    let q := p.afterUpdates updates
    (q = { p with options := q.options } ∧
      ∀ f, q.options.value f = (Options.lastGiven? f updates).getD (p.options.value f)) ∧
    (∀ u : OptionsUpdate,
      (u.isRefused = true ↔ ∃ text, u.defaultStrategy = some text ∧ Text.isBlankText text = true) ∧
      ((∃ failure, (q.perform (.mergeOptions u)).1 = .failure failure) ↔ u.isRefused = true) ∧
      (u.isRefused = true →
        q.perform (.mergeOptions u) = (.failure (.config .blankDefaultStrategy), q))) ∧
    ∀ u v : OptionsUpdate, u.isRefused = false → v.isRefused = false →
      (u.overlay v).isRefused = false ∧
      (∀ f, (u.overlay v).given? f = (v.given? f).or (u.given? f)) ∧
      (q.options.merge u).bind (·.merge v) = q.options.merge (u.overlay v) ∧
      q.afterUpdates [u, v] = q.afterUpdates [u.overlay v] := by
  intro q
  have hq : q = { p with options := p.options.afterUpdates updates } := afterUpdates_eq p updates
  refine ⟨⟨by rw [hq], fun f => ?_⟩, fun u => ⟨Option.any_eq_true .., ?_, perform_of_refused⟩,
    fun u v hu hv => ⟨OptionsUpdate.isRefused_overlay hu hv, OptionsUpdate.given?_overlay,
      Options.merge_overlay hu hv, ?_⟩⟩
  · rw [hq]
    exact Options.value_afterUpdates p.options updates f
  · cases h : u.isRefused with
    | true => exact iff_of_true ⟨_, congrArg Prod.fst (perform_of_refused h)⟩ rfl
    | false =>
      refine iff_of_false ?_ Bool.false_ne_true
      rintro ⟨failure, hfailure⟩
      rw [perform_of_accepted h] at hfailure
      cases hfailure
  · rw [afterUpdates_eq, afterUpdates_eq, Options.afterUpdates_pair hu hv]

/-- Three updates, of which the second gives a blank default requirement and a prefix. -/
def refusedBetween : List OptionsUpdate :=
  [{ defaultStrategy := some "idle", keepRelativeUrls := some true },
    { defaultStrategy := some " ", attributePrefix := some "data-" },
    { baseUrl := some "https://example.com/" }]

/-- Of the update that is refused nothing is taken over, and the two others come to one. -/
theorem merged_updates_refusedBetween :
    let q := afterUpdates { modules := { join := Url.joinTexts } } refusedBetween
    let first : OptionsUpdate := { defaultStrategy := some "visible", baseUrl := some "/a/" }
    let second : OptionsUpdate := { baseUrl := some "/b/" }
    (q.options.defaultStrategy = "idle" ∧ q.options.keepRelativeUrls = true ∧
      q.options.baseUrl = some "https://example.com/" ∧ q.options.attributePrefix = "x-") ∧
    q.perform (.mergeOptions { defaultStrategy := some "", keepRelativeUrls := some false }) =
      (.failure (.config .blankDefaultStrategy), q) ∧
    first.isRefused = false ∧ second.isRefused = false ∧
    q.afterUpdates [first, second] =
      q.afterUpdates [{ defaultStrategy := some "visible", baseUrl := some "/b/" }] := by
  intro q first second
  obtain ⟨⟨-, hvalue⟩, hrefused, htwo⟩ :=
    merged_updates { modules := { join := Url.joinTexts } } refusedBetween
  have hfirst : first.isRefused = false := by decide
  have hsecond : second.isRefused = false := by decide
  exact ⟨⟨hvalue .defaultStrategy, hvalue .keepRelativeUrls, hvalue .baseUrl,
    hvalue .attributePrefix⟩, (hrefused _).2.2 (by decide), hfirst, hsecond,
    (htwo first second hfirst hsecond).2.2.2⟩

end Page

end Hydration
