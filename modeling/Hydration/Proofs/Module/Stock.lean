import Hydration.Proofs.Module.Table

/-!
# Modules and the data that is bound

A `Stock` is a table of modules together with the data that has been bound.  An entry that
is loaded promises that the data of its module is bound (`Stock.Sound`).  A **supply**
leads from one stock to another in which every entry still has its origin, every
origin its module, and all data is still bound; every operation that a download is made
of is one.

A download marks the entry that its name has when the answer arrives.  So the promise is kept
only if that entry still has the origin that has been asked (`supplies_receive`).
-/

namespace Hydration

/-- The module at an origin, if its source has one to give. -/
def ModuleTable.moduleOf? (t : ModuleTable) : ModuleOrigin → Option ComponentModule
  | .source producer => producer.answer.toOption
  | .url url => ((t.served.getD []).lookup url).bind fun producer => producer.answer.toOption

/-- The module that a download finds when it looks up a name: that of the entry, which an alias may
have made. -/
def ModuleTable.lookUp? (t : ModuleTable) (name : String) (options : Options) :
    Option ComponentModule :=
  if isAnonymous name then none
  else
    match t.applyAlias name options with
    | .error _ => none
    | .ok t => (t.entry? name).bind fun entry => t.moduleOf? entry.origin

/-- The data that a module has for a name is bound under it. -/
def Binds (m : ComponentModule) (name : String) (bindings : List (String × Data)) : Prop :=
  ∀ data, m.select name = some data → (name, data) ∈ bindings

/-- A table of modules with the data that has been bound. -/
structure Stock where
  modules : ModuleTable
  bindings : List (String × Data)

variable {t t' : ModuleTable} {s s' s'' : Stock} {bindings bindings' : List (String × Data)}
  {name url x : String} {options : Options} {m : ComponentModule} {origin : ModuleOrigin}
  {answer : Except ModuleError ComponentModule}

/-! ## Origins -/

namespace ModuleTable

theorem moduleOf?_congr (h : t'.served = t.served) : t'.moduleOf? origin = t.moduleOf? origin := by
  cases origin with
  | source producer => rfl
  | url url => rw [moduleOf?, h, moduleOf?]

theorem served_consult : (t.consult name origin).2.served = t.served := by
  cases origin with
  | source producer => rfl
  | url url =>
    rw [consult, fetch]
    split
    · rfl
    · dsimp only
      split
      · rfl
      · rfl

theorem served_markLoaded : (t.markLoaded name).served = t.served := by
  rw [markLoaded]
  split
  · rfl
  · rfl

theorem served_offer (offered : Option ModuleOrigin) :
    (t.offer name offered).2.served = t.served := by
  rw [offer.eq_def]
  split
  · rfl
  · rfl

/-- What is offered to a name is not loaded. -/
theorem loaded_of_offer {offered : Option ModuleOrigin}
    (h : entry? (t.offer name offered).2 x = some ⟨origin, true⟩) :
    t.entry? x = some ⟨origin, true⟩ := by
  by_cases hx : x = name
  · subst hx
    rw [entry?_offer_self, Option.or_eq_some_iff] at h
    rcases h with h | ⟨-, h⟩
    · exact h
    · obtain ⟨origin', -, h⟩ := Option.map_eq_some_iff.mp h
      cases h
  · rwa [entry?_offer_of_ne hx] at h

/-- **An origin that is asked** answers with its module, or with an error if it has none. -/
theorem answer_of_consult {delay : Option Nat}
    (h : (t.consult name origin).1 = .answered delay answer) :
    answer = .ok m ↔ t.moduleOf? origin = some m := by
  have hmapped : ∀ {producer : Producer} {refuse : Refusal → ModuleError},
      producer.answer.mapError refuse = .ok m ↔ producer.answer.toOption = some m := by
    intro producer refuse
    cases producer.answer with
    | error refusal => exact ⟨nofun, nofun⟩
    | ok m' =>
      show Except.ok m' = .ok m ↔ some m' = some m
      rw [Except.ok.injEq, Option.some.injEq]
  cases origin with
  | source producer =>
    cases h
    exact hmapped
  | url url =>
    rw [consult, fetch] at h
    rw [moduleOf?]
    split at h
    · cases h
    · next served hserved =>
      dsimp only at h
      rw [hserved, Option.getD_some]
      split at h
      · cases h
      · next producer hproducer =>
        cases h
        rw [hproducer]
        exact hmapped

end ModuleTable

/-! ## Data that is bound -/

/-- Only a list of no exports has nothing to bind. -/
theorem ComponentModule.exists_select (h : m ≠ .exports []) (name : String) :
    ∃ data, m.select name = some data := by
  cases m with
  | component data => exact ⟨data, rfl⟩
  | exports entries =>
    cases entries with
    | nil => exact absurd rfl h
    | cons first entries =>
      refine Option.isSome_iff_exists.mp ?_
      simp [select]

theorem Binds.mono (h : Binds m name bindings) (hmore : ∀ b ∈ bindings, b ∈ bindings') :
    Binds m name bindings' :=
  fun data hdata => hmore _ (h data hdata)

/-- What a module has for a name is bound, if it has something. -/
theorem Binds.exists_data (h : Binds m name bindings) (hm : m ≠ .exports []) :
    ∃ data, m.select name = some data ∧ (name, data) ∈ bindings := by
  obtain ⟨data, hdata⟩ := ComponentModule.exists_select hm name
  exact ⟨data, hdata, h data hdata⟩

/-! ## Stocks -/

namespace Stock

/-- **The data of a loaded entry** is bound. -/
def Sound (s : Stock) : Prop :=
  ∀ name origin, s.modules.entry? name = some ⟨origin, true⟩ →
    ∃ m, s.modules.moduleOf? origin = some m ∧ Binds m name s.bindings

/-- Where nothing is loaded there is nothing to be bound. -/
theorem sound_of_unloaded (h : ∀ name origin, s.modules.entry? name ≠ some ⟨origin, true⟩) :
    s.Sound :=
  fun name origin he => absurd he (h name origin)

/-- **A supply** keeps the origins of the entries, the modules at the origins and the data that is
bound, and the promise of the loaded entries. -/
structure Supplies (s s' : Stock) : Prop where
  entry : ∀ name e, s.modules.entry? name = some e →
    ∃ e', s'.modules.entry? name = some e' ∧ e'.origin = e.origin
  module : ∀ origin m, s.modules.moduleOf? origin = some m → s'.modules.moduleOf? origin = some m
  bindings : ∀ b ∈ s.bindings, b ∈ s'.bindings
  sound : s.Sound → s'.Sound

theorem Supplies.refl (s : Stock) : Supplies s s :=
  ⟨fun _ e he => ⟨e, he, rfl⟩, fun _ _ hm => hm, fun _ hb => hb, id⟩

theorem Supplies.trans (h : Supplies s s') (h' : Supplies s' s'') : Supplies s s'' where
  entry name e he := by
    obtain ⟨e', he', horigin⟩ := h.entry name e he
    obtain ⟨e'', he'', horigin'⟩ := h'.entry name e' he'
    exact ⟨e'', he'', horigin'.trans horigin⟩
  module origin m hm := h'.module origin m (h.module origin m hm)
  bindings b hb := h'.bindings b (h.bindings b hb)
  sound hs := h'.sound (h.sound hs)

/-- Entries may be added that are not loaded. -/
theorem supplies_of_entries (hserved : t'.served = t.served)
    (hkept : ∀ name e, t.entry? name = some e → t'.entry? name = some e)
    (hloaded : ∀ name origin, t'.entry? name = some ⟨origin, true⟩ →
      t.entry? name = some ⟨origin, true⟩) : Supplies ⟨t, bindings⟩ ⟨t', bindings⟩ where
  entry name e he := ⟨e, hkept name e he, rfl⟩
  module origin m hm := (ModuleTable.moduleOf?_congr hserved).trans hm
  bindings b hb := hb
  sound hs name origin he := by
    obtain ⟨m, hm, hbinds⟩ := hs name origin (hloaded name origin he)
    exact ⟨m, (ModuleTable.moduleOf?_congr hserved).trans hm, hbinds⟩

theorem supplies_offer (offered : Option ModuleOrigin) :
    Supplies ⟨t, bindings⟩ ⟨(t.offer name offered).2, bindings⟩ :=
  supplies_of_entries (ModuleTable.served_offer offered)
    (fun _ _ he => ModuleTable.entry?_offer_of_entry he offered)
    fun _ _ he => ModuleTable.loaded_of_offer he

theorem supplies_registerUrl {taken : Bool}
    (h : t.registerUrl name url options = .ok (taken, t')) :
    Supplies ⟨t, bindings⟩ ⟨t', bindings⟩ := by
  obtain ⟨offered, hoffer, -⟩ := ModuleTable.exists_offer_of_registerUrl h
  obtain rfl : t' = (t.offer name offered).2 := congrArg Prod.snd hoffer
  exact supplies_offer offered

theorem supplies_setAlias (alternative : ModuleAlias) :
    Supplies ⟨t, bindings⟩ ⟨{ t with fallback := some alternative }, bindings⟩ :=
  supplies_of_entries rfl (fun _ _ he => he) fun _ _ he => he

theorem supplies_applyAlias (h : t.applyAlias name options = .ok t') :
    Supplies ⟨t, bindings⟩ ⟨t', bindings⟩ := by
  obtain ⟨offered, rfl, -⟩ := ModuleTable.exists_offer_of_applyAlias h
  exact supplies_offer offered

theorem supplies_consult : Supplies ⟨t, bindings⟩ ⟨(t.consult name origin).2, bindings⟩ :=
  supplies_of_entries ModuleTable.served_consult (fun _ _ he => ModuleTable.entry?_consult.trans he)
    fun _ _ he => ModuleTable.entry?_consult.symm.trans he

/-! ## Receiving a module -/

/-- The entry of a name has the origin that has been asked: whatever module has been brought is
its module. -/
def Awaits (s : Stock) (name : String) (answer : Except ModuleError ComponentModule) : Prop :=
  ∃ e, s.modules.entry? name = some e ∧
    ∀ m, answer = .ok m → s.modules.moduleOf? e.origin = some m

theorem Awaits.supplies (h : s.Awaits name answer) (hs : Supplies s s') :
    s'.Awaits name answer := by
  obtain ⟨e, he, hm⟩ := h
  obtain ⟨e', he', horigin⟩ := hs.entry name e he
  exact ⟨e', he', fun m hanswer => hs.module _ m (horigin.symm ▸ hm m hanswer)⟩

/-- The stock when a module has been received. -/
def receive (s : Stock) (name : String) (m : ComponentModule) : Stock where
  modules := s.modules.markLoaded name
  bindings := s.bindings ++ ((m.select name).map fun data => (name, data)).toList

theorem mem_receive_of_mem {b : String × Data} (h : b ∈ s.bindings) :
    b ∈ (s.receive name m).bindings :=
  List.mem_append_left _ h

theorem binds_receive : Binds m name (s.receive name m).bindings := by
  intro data hdata
  refine List.mem_append_right _ ?_
  rw [hdata]
  exact List.mem_singleton_self _

/-- **A module is received** for the entry whose origin has been asked. -/
theorem supplies_receive (h : s.Awaits name (.ok m)) : Supplies s (s.receive name m) := by
  have hmodule : ∀ origin, (s.receive name m).modules.moduleOf? origin =
      s.modules.moduleOf? origin :=
    fun origin => ModuleTable.moduleOf?_congr ModuleTable.served_markLoaded
  obtain ⟨e, he, hm⟩ := h
  have hentry : ∀ x, ModuleTable.entry? (s.receive name m).modules x =
      if x = name then some { e with loaded := true } else s.modules.entry? x := by
    intro x
    show ModuleTable.entry? (s.modules.markLoaded name) x = _
    rw [ModuleTable.entry?_markLoaded, he, Option.map_some]
  refine ⟨fun x e' he' => ?_, fun origin m' hm' => (hmodule origin).trans hm',
    fun b hb => mem_receive_of_mem hb, fun hs x origin hx => ?_⟩
  · rw [hentry]
    by_cases hx : x = name
    · rw [hx, he] at he'
      cases he'
      exact ⟨_, if_pos hx, rfl⟩
    · exact ⟨e', (if_neg hx).trans he', rfl⟩
  · rw [hmodule]
    rw [hentry] at hx
    split at hx
    · -- The entry of the name keeps the origin, so it is this module that has been bound.
      next hname =>
      cases hx
      exact ⟨m, hm m rfl, hname ▸ binds_receive⟩
    · obtain ⟨m', hm', hbinds⟩ := hs x origin hx
      exact ⟨m', hm', hbinds.mono fun b hb => mem_receive_of_mem hb⟩

/-! ## Requests -/

/-- **What a request finds.**  Either an origin is asked, which the entry of the name has, or the
download is settled; and if it is settled well, the data of what has been looked up is bound. -/
inductive Finds (s : Stock) (name : String) (options : Options) :
    ModuleRequest × ModuleTable → Prop where
  | settled {result : Except ModuleError Bool} {t' : ModuleTable}
      (hsupplies : Supplies s ⟨t', s.bindings⟩)
      (hbinds : ∀ loaded, result = .ok loaded → ∀ m, s.modules.lookUp? name options = some m →
        Binds m name s.bindings) : Finds s name options (.settled result, t')
  | asked {delay : Option Nat} {answer : Except ModuleError ComponentModule} {t' : ModuleTable}
      (hsupplies : Supplies s ⟨t', s.bindings⟩) (hawaits : Awaits ⟨t', s.bindings⟩ name answer)
      (hfound : ∀ m, s.modules.lookUp? name options = some m → answer = .ok m) :
      Finds s name options (.answered delay answer, t')

theorem finds_request (hs : s.Sound) (name : String) (options : Options) :
    s.Finds name options (s.modules.request name options) := by
  have hcases := ModuleTable.request_cases s.modules name options
  generalize s.modules.request name options = requested at hcases ⊢
  have hlookUp : ∀ {t'}, isAnonymous name = false → s.modules.applyAlias name options = .ok t' →
      s.modules.lookUp? name options = (t'.entry? name).bind fun e => t'.moduleOf? e.origin := by
    intro t' hname halias
    rw [ModuleTable.lookUp?, hname, if_neg Bool.false_ne_true, halias]
  cases hcases with
  | anonymous hname =>
    refine .settled (.refl s) fun _ _ m hm => ?_
    rw [ModuleTable.lookUp?, if_pos hname] at hm
    cases hm
  | unresolved _ _ => exact .settled (.refl s) nofun
  | absent hname halias hentry =>
    refine .settled (supplies_applyAlias halias) fun _ _ m hm => ?_
    rw [hlookUp hname halias, hentry] at hm
    cases hm
  | @loaded t' origin hname halias hentry =>
    have hsupplies : Supplies s ⟨t', s.bindings⟩ := supplies_applyAlias halias
    refine .settled hsupplies fun _ _ m hm => ?_
    rw [hlookUp hname halias, hentry] at hm
    obtain ⟨m', hm', hbinds⟩ := hsupplies.sound hs name origin hentry
    obtain rfl : m' = m := Option.some.inj (hm'.symm.trans hm)
    exact hbinds
  | @consults t' origin hname halias hentry =>
    have hsupplies : Supplies s ⟨(t'.consult name origin).2, s.bindings⟩ :=
      (supplies_applyAlias halias).trans supplies_consult
    have hmodule : ∀ {origin' : ModuleOrigin},
        (t'.consult name origin).2.moduleOf? origin' = t'.moduleOf? origin' :=
      ModuleTable.moduleOf?_congr ModuleTable.served_consult
    have hconsulted : ModuleTable.entry? (t'.consult name origin).2 name = some ⟨origin, false⟩ :=
      ModuleTable.entry?_consult.trans hentry
    have hfound := hlookUp hname halias
    rw [hentry, Option.bind_some] at hfound
    cases hrequest : (t'.consult name origin).1 with
    | settled result =>
      obtain ⟨error, rfl⟩ := ModuleTable.error_of_consult_settled hrequest
      rw [← Prod.eta (t'.consult name origin), hrequest]
      exact .settled hsupplies nofun
    | answered delay answer =>
      have hanswer : ∀ m, answer = .ok m ↔ t'.moduleOf? origin = some m :=
        fun m => ModuleTable.answer_of_consult hrequest
      rw [← Prod.eta (t'.consult name origin), hrequest]
      refine .asked hsupplies ⟨_, hconsulted, fun m hm => ?_⟩ fun m hm => ?_
      · exact hmodule.trans ((hanswer m).mp hm)
      · exact (hanswer m).mpr (hfound.symm.trans hm)

end Stock

end Hydration
