import Hydration.Proofs.Module.Depot
import Hydration.Url.Parse
import Mathlib.Data.List.Induction

/-!
# Overlapping downloads

Between two registrations of a source a name is loaded once, unless downloads of it
overlap: a download that begins when the module has been loaded finds nothing to do, but
one that was in flight at that moment loads the module again (`loads_overlap`).

A registration replaces the entry of a name, but it does not stop the downloads in flight.
One of them that brings the module of an older source marks the new entry as loaded, and
the new source is not asked any more.  That is the only way to lose a registration
(`loaded_since_registration`).
-/

namespace Hydration.Depot

variable {t : ModuleTable} {d : Depot} {happening : Happening} {happenings later : List Happening}
  {name : String} {e : ModuleEntry} {f g : Flight} {number : Nat}

theorem after_concat (t : ModuleTable) (happenings : List Happening) (happening : Happening) :
    after t (happenings ++ [happening]) = ((after t happenings).act happening).2 :=
  congrArg Prod.snd (steps_concat _ happenings happening)

theorem notices_concat (t : ModuleTable) (happenings : List Happening) (happening : Happening) :
    notices t (happenings ++ [happening]) =
      notices t happenings ++ [((after t happenings).act happening).1] :=
  congrArg Prod.fst (steps_concat _ happenings happening)

/-! ## Loads of one registration -/

/-- Two downloads of a name have been in flight at one moment. -/
def Met (t : ModuleTable) (name : String) (happenings : List Happening) (f g : Flight) : Prop :=
  ∃ earlier, earlier <+: happenings ∧ f ∈ (after t earlier).flightsOf name ∧
    g ∈ (after t earlier).flightsOf name

theorem Met.symm (h : Met t name happenings f g) : Met t name happenings g f := by
  obtain ⟨earlier, hearlier, hf, hg⟩ := h
  exact ⟨earlier, hearlier, hg, hf⟩

theorem Met.concat (h : Met t name happenings f g) (happening : Happening) :
    Met t name (happenings ++ [happening]) f g := by
  obtain ⟨earlier, hearlier, hf, hg⟩ := h
  exact ⟨earlier, hearlier.trans (List.prefix_append _ _), hf, hg⟩

/-- What has become of a registered name since the beginning. -/
theorem account_after (hentry : t.entry? name = some e)
    (hkept : ∀ producer, Happening.register name producer ∉ happenings) :
    Account name e { modules := t } (loads name (notices t happenings)) (after t happenings) :=
  (account_start (d := { modules := t }) hentry).run (sound_after t []) happenings hkept

/-- **A download that has loaded** has met every other one that has loaded or still may. -/
theorem met_of_mem_loads (hentry : t.entry? name = some e)
    (hkept : ∀ producer, Happening.register name producer ∉ happenings)
    (hf : f ∈ loads name (notices t happenings))
    (hg : g ∈ loads name (notices t happenings) ∨ g ∈ (after t happenings).flightsOf name)
    (hne : f ≠ g) : Met t name happenings f g := by
  induction happenings using List.reverseRecOn generalizing f g with
  | nil => exact nomatch (hf : f ∈ [])
  | append_singleton happenings happening ih =>
    have hbefore : ∀ producer, Happening.register name producer ∉ happenings :=
      fun producer hp => hkept producer (List.mem_append_left _ hp)
    have haccount := account_after hentry hbefore
    have hhere : ∀ producer, happening ≠ .register name producer := fun producer hp =>
      hkept producer (List.mem_append_right _ (hp ▸ List.mem_singleton_self _))
    have heffect := effect_act haccount.entry hhere
    rw [notices_concat, loads_append] at hf hg
    rw [after_concat] at hg
    generalize ((after t happenings).act happening).1 = notice at hf hg heffect
    generalize ((after t happenings).act happening).2 = d' at hg heffect
    cases heffect with
    | asks hunloaded _ =>
      -- Nothing is asked any more once a download has loaded.
      rw [show loads name [_] = [] from rfl, List.append_nil] at hf
      cases hloaded : loads name (notices t happenings) with
      | nil => exact nomatch (hloaded ▸ hf : f ∈ [])
      | cons first rest => simp [hloaded] at hunloaded
    | @loads f' m hf' hname =>
      have hflight : f' ∈ (after t happenings).flightsOf name := mem_flightsOf.mpr ⟨hf', hname⟩
      have hnew : loads name [.ended f' (.ok true)] = [f'] := by simp [loads, hname]
      rw [hnew] at hf hg
      rcases List.mem_append.mp hf with hf | hf
      · rcases hg with hg | hg
        · rcases List.mem_append.mp hg with hg | hg
          · exact (ih hbefore hf (.inl hg) hne).concat _
          · rw [List.mem_singleton.mp hg] at hne ⊢
            exact (ih hbefore hf (.inr hflight) hne).concat _
        · exact (ih hbefore hf (.inr (mem_flightsOf_of_filter hg)) hne).concat _
      · rw [List.mem_singleton.mp hf] at hne ⊢
        rcases hg with hg | hg
        · rcases List.mem_append.mp hg with hg | hg
          · exact (ih hbefore hg (.inr hflight) (Ne.symm hne)).symm.concat _
          · exact absurd (List.mem_singleton.mp hg).symm hne
        · exact ⟨happenings, List.prefix_append _ _, hflight, mem_flightsOf_of_filter hg⟩
    | aside _ hflights _ _ hloads =>
      rw [hloads, List.append_nil] at hf hg
      exact (ih hbefore hf (hg.imp_right (hflights g)) hne).concat _

theorem eq_of_length_le_one {α : Type} {xs : List α} {x y : α} (h : xs.length ≤ 1) (hx : x ∈ xs)
    (hy : y ∈ xs) : x = y := by
  match xs, h with
  | [z], _ => rw [List.mem_singleton.mp hx, List.mem_singleton.mp hy]

theorem length_le_one {α : Type} {xs : List α} (hnodup : xs.Nodup)
    (h : ∀ x ∈ xs, ∀ y ∈ xs, x = y) : xs.length ≤ 1 := by
  match xs with
  | [] => exact Nat.zero_le 1
  | [x] => exact Nat.le_refl 1
  | x :: y :: rest =>
    have hxy := h x List.mem_cons_self y (List.mem_cons_of_mem _ List.mem_cons_self)
    rw [hxy] at hnodup
    exact absurd List.mem_cons_self (List.nodup_cons.mp hnodup).1

/-- **Loads of one name overlap.**  Of all downloads of a registered name, whatever else happens
except that a source is registered for it:

* At most one brings a module exactly if no two that do are ever in flight at the same moment.
* Once one has brought a module, every download that begins is answered at once that there was
  nothing to do, and nothing at all happens to the modules and the bindings.
* Data is bound under the name by those downloads only, and at most once by each. -/
theorem loads_overlap (t : ModuleTable) (name : String) (happenings : List Happening)
    (hregistered : t.isRegistered name = true)
    (hkept : ∀ producer, Happening.register name producer ∉ happenings) :
    ((loads name (notices t happenings)).length ≤ 1 ↔
      ∀ f ∈ loads name (notices t happenings), ∀ g ∈ loads name (notices t happenings),
        Met t name happenings f g → f = g) ∧
    (∀ earlier options, earlier <+: happenings → loads name (notices t earlier) ≠ [] →
      (after t earlier).act (.download name options) =
        (.settled name (.ok false), after t earlier)) ∧
    (boundUnder name (after t happenings).bindings).length ≤
      (loads name (notices t happenings)).length := by
  obtain ⟨e, hentry⟩ := Option.isSome_iff_exists.mp hregistered
  have haccount := account_after hentry hkept
  refine ⟨⟨?_, ?_⟩, ?_, ?_⟩
  · exact fun hone f hf g hg _ => eq_of_length_le_one hone hf hg
  · intro hmet
    refine length_le_one (List.Nodup.of_map _ haccount.distinct) fun f hf g hg => ?_
    by_contra hne
    exact hne (hmet f hf g hg (met_of_mem_loads hentry hkept hf (.inl hg) hne))
  · intro earlier options hearlier hloaded
    have hthen := (account_after hentry fun producer hp => hkept producer (hearlier.subset hp)).entry
    rw [List.isEmpty_eq_false_iff.mpr hloaded, Bool.not_false, Bool.or_true] at hthen
    rw [act, ModuleTable.request_of_loaded hthen]
  · have hbound := haccount.bound
    rwa [show boundUnder name ({ modules := t } : Depot).bindings = [] from rfl, List.length_nil,
      Nat.zero_add] at hbound

/-- A table with one source. -/
def stocked : ModuleTable :=
  ModuleTable.register { join := Url.joinTexts } "box" (.holding (.component .null))

/-- Two downloads, the second of which begins while the first is in flight. -/
def together : List Happening :=
  [.download "box" {}, .download "box" {}, .answer 0 (.ok (.component .null)),
    .answer 1 (.ok (.component .null))]

/-- **Two downloads that overlap** load and bind the module twice. -/
theorem loads_twice : stocked.isRegistered "box" = true ∧
    (∀ producer, Happening.register "box" producer ∉ together) ∧
    (loads "box" (notices stocked together)).map (·.number) = [0, 1] ∧
    (boundUnder "box" (after stocked together).bindings).length = 2 := by
  refine ⟨by decide +kernel, fun producer => by simp [together], by decide +kernel,
    by decide +kernel⟩

/-- After both of them a third download has nothing to do. -/
theorem loads_overlap_third : stocked.isRegistered "box" = true ∧
    (∀ producer, Happening.register "box" producer ∉ together) ∧
    loads "box" (notices stocked together) ≠ [] ∧
    (after stocked together).act (.download "box" {}) =
      (.settled "box" (.ok false), after stocked together) := by
  have hregistered : stocked.isRegistered "box" = true := by decide +kernel
  have hkept : ∀ producer, Happening.register "box" producer ∉ together := by simp [together]
  have hloaded : loads "box" (notices stocked together) ≠ [] :=
    List.ne_nil_of_length_pos (by decide +kernel)
  exact ⟨hregistered, hkept, hloaded,
    (loads_overlap stocked "box" together hregistered hkept).2.1 together {} List.prefix_rfl hloaded⟩

/-! ## Loads after a registration -/

theorem loads_singleton (name : String) (notice : Notice) :
    loads name [notice] = [] ∨ ∃ f, loads name [notice] = [f] := by
  rw [loads, List.filterMap_cons, List.filterMap_nil]
  split
  · exact .inl rfl
  · next f _ => exact .inr ⟨f, rfl⟩

/-- The moment at which the first download has loaded. -/
theorem exists_first_load (h : (loads name (steps act d later).1).head? = some f) :
    ∃ first, first <+: later ∧ loads name (steps act d first).1 = [f] := by
  induction later generalizing d with
  | nil => cases h
  | cons happening later ih =>
    rw [steps_cons, ← List.singleton_append, loads_append] at h
    rcases loads_singleton name (d.act happening).1 with hnone | ⟨g, hone⟩
    · rw [hnone, List.nil_append] at h
      obtain ⟨first, hfirst, hload⟩ := ih h
      refine ⟨happening :: first, List.cons_prefix_cons.mpr ⟨rfl, hfirst⟩, ?_⟩
      rw [steps_cons, ← List.singleton_append, loads_append, hnone, hload, List.nil_append]
    · rw [hone] at h
      cases h
      refine ⟨[happening], List.cons_prefix_cons.mpr ⟨rfl, List.nil_prefix⟩, ?_⟩
      rw [steps_cons]
      exact hone

theorem loads_mono {first : List Happening} (h : first <+: later) (name : String) (d : Depot) :
    loads name (steps act d first).1 <+: loads name (steps act d later).1 := by
  obtain ⟨rest, rfl⟩ := h
  rw [steps_append, loads_append]
  exact List.prefix_append _ _

theorem head?_eq_of_isPrefix {α : Type} {xs ys : List α} (h : xs <+: ys) (hne : xs ≠ []) :
    xs.head? = ys.head? := by
  obtain ⟨zs, rfl⟩ := h
  rw [List.head?_append_of_ne_nil _ hne]

/-- **A registration and what comes later**, up to the next one of the same name.

* The entry is that of the new source, and it is loaded as soon as a download has brought a module.
* Until then every download that begins asks the new source.
* A download that brings a module was in flight when the source was registered, or it has begun
  since and has asked this very source.
* The entry is never loaded before a download that has begun since brings a module, exactly if no
  download that was in flight at the registration is the first to bring one. -/
theorem loaded_since_registration (t : ModuleTable) (earlier later : List Happening)
    (name : String) (producer : Producer) (hname : isAnonymous name = false)
    (hlast : ∀ producer', Happening.register name producer' ∉ later) :
    let start := after t (earlier ++ [.register name producer])
    let now := steps act start later
    now.2.modules.entry? name = some ⟨.source producer, !(loads name now.1).isEmpty⟩ ∧
    (loads name now.1 = [] → ∀ options,
      now.2.modules.request name options = now.2.modules.consult name (.source producer)) ∧
    (∀ f ∈ loads name now.1, f ∈ start.flightsOf name ∧ f.number < start.next ∨
      start.next ≤ f.number ∧ f.origin = some (.source producer)) ∧
    ((∀ first, first <+: later → (steps act start first).2.modules.isLoaded name = true →
        ∃ f ∈ loads name (steps act start first).1, start.next ≤ f.number) ↔
      ∀ f, (loads name now.1).head? = some f → start.next ≤ f.number) := by
  intro start now
  have hsound : start.Sound := sound_after t _
  have hstart : start.modules.entry? name = some ⟨.source producer, false⟩ := by
    rw [show start = _ from after_concat t earlier _]
    exact ModuleTable.entry?_register.trans (if_pos rfl)
  have haccount : ∀ first, first <+: later →
      Account name ⟨.source producer, false⟩ start (loads name (steps act start first).1)
        (steps act start first).2 := fun first hfirst =>
    (account_start hstart).run hsound first fun producer' hp =>
      hlast producer' (hfirst.subset hp)
  have hloaded : ∀ first, first <+: later → ((steps act start first).2.modules.isLoaded name = true ↔
      loads name (steps act start first).1 ≠ []) := by
    intro first hfirst
    rw [ModuleTable.isLoaded, (haccount first hfirst).entry]
    simp
  have hnow := haccount later List.prefix_rfl
  refine ⟨hnow.entry, ?_, ?_, ?_, ?_⟩
  · intro hnone options
    refine ModuleTable.request_of_unloaded hname ?_
    have hentry := hnow.entry
    rwa [hnone] at hentry
  · intro f hf
    refine (hnow.begun f (.inl hf)).imp_left fun hflight => ⟨hflight, ?_⟩
    exact hsound.below f (mem_flightsOf.mp hflight).1
  · intro hfresh f hf
    obtain ⟨first, hfirst, hload⟩ := exists_first_load hf
    obtain ⟨g, hg, hnumber⟩ :=
      hfresh first hfirst ((hloaded first hfirst).mpr (hload ▸ List.cons_ne_nil _ _))
    rw [hload] at hg
    rwa [List.mem_singleton.mp hg] at hnumber
  · intro hhead first hfirst hisLoaded
    have hne := (hloaded first hfirst).mp hisLoaded
    have hsame := head?_eq_of_isPrefix (loads_mono hfirst name start) hne
    obtain ⟨f, hf⟩ := Option.isSome_iff_exists.mp (List.isSome_head?.mpr hne)
    exact ⟨f, List.mem_of_mem_head? hf, hhead f (hsame ▸ hf)⟩

/-- What follows when another source is registered while a download is in flight. -/
def replaced : Depot :=
  after stocked ([.download "box" {}] ++ [.register "box" (.holding (.component (.bool true)))])

/-- **A registration is lost**: the download in flight brings the module of the older source, the
entry of the newer one is loaded with it, and the newer one is never asked. -/
theorem registration_lost :
    let late := steps act replaced [.answer 0 (.ok (.component .null))]
    late.2.modules.isLoaded "box" = true ∧
      (loads "box" late.1).map (·.number) = [0] ∧ replaced.next = 1 ∧
      (late.2.act (.download "box" {})).2.modules.consulted = ["box"] ∧
      (late.2.act (.download "box" {})).2.flights.length = 0 := by
  decide +kernel

/-- A download that has begun since is the first to bring a module. -/
theorem loaded_since_registration_first :
    let later : List Happening := [.download "box" {}, .answer 1 (.ok (.component (.bool true))),
      .answer 0 (.ok (.component .null))]
    isAnonymous "box" = false ∧ (∀ producer, Happening.register "box" producer ∉ later) ∧
      ∀ first, first <+: later → (steps act replaced first).2.modules.isLoaded "box" = true →
        ∃ f ∈ loads "box" (steps act replaced first).1, replaced.next ≤ f.number := by
  intro later
  have hname : isAnonymous "box" = false := by decide +kernel
  have hlast : ∀ producer, Happening.register "box" producer ∉ later := by simp [later]
  have hnumbers : (loads "box" (steps act replaced later).1).head?.map (·.number) = some 1 := by
    decide +kernel
  refine ⟨hname, hlast, (loaded_since_registration stocked [.download "box" {}] later "box"
    (.holding (.component (.bool true))) hname hlast).2.2.2.mpr fun f hf => ?_⟩
  have hnumber : f.number = 1 := by
    rw [show (loads "box" (steps act replaced later).1).head? = some f from hf] at hnumbers
    exact Option.some.inj hnumbers
  rw [hnumber]
  decide +kernel

end Hydration.Depot
