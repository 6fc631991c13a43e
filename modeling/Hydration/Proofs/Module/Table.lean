import Hydration.Module.Table

/-!
# What the operations on modules do

The entry of a name after an operation is given by one lemma for each operation, and
what an operation **offers** a name is a definition of its own: a URL or an alias stands
for an origin, or for none, or cannot be resolved (`urlOrigin`, `aliasOrigin`), and an
origin that is offered makes the entry of a name that has none (`offer`).

`request_cases` lists what a request can come to.  The origin is asked only if the name
has an entry that is not loaded (`Requested.consults`).
-/

namespace Hydration

theorem lookup_cons_eq_ite {α : Type} (name : String) (value : α)
    (entries : List (String × α)) (x : String) :
    ((name, value) :: entries).lookup x = if x = name then some value else entries.lookup x := by
  rw [List.lookup_cons]
  by_cases hx : x = name
  · rw [if_pos hx, beq_iff_eq.mpr hx]
  · rw [if_neg hx, beq_eq_false_iff_ne.mpr hx]

theorem lookup_insertSorted {α : Type} (name : String) (value : α)
    (entries : List (String × α)) (x : String) :
    (insertSorted name value entries).lookup x =
      if x = name then some value else entries.lookup x := by
  induction entries with
  | nil => rw [insertSorted, lookup_cons_eq_ite]
  | cons first entries ih =>
    obtain ⟨key, value'⟩ := first
    rw [insertSorted]
    split
    · rw [lookup_cons_eq_ite]
    · split
      · next hname =>
        rw [lookup_cons_eq_ite, lookup_cons_eq_ite, ← hname]
        split
        · rfl
        · rfl
      · next hname =>
        rw [lookup_cons_eq_ite, lookup_cons_eq_ite, ih]
        by_cases hx : x = key
        · rw [if_pos hx, if_pos hx, if_neg (hx ▸ Ne.symm hname)]
        · rw [if_neg hx, if_neg hx]

namespace ModuleTable

variable {t t' : ModuleTable} {join : Url.Joiner} {name url x : String} {options : Options}
  {entry : ModuleEntry} {origin : ModuleOrigin} {answer : Except ModuleError ComponentModule}

/-! ## Entries -/

theorem entry?_setEntry :
    entry? (t.setEntry name entry) x = if x = name then some entry else t.entry? x :=
  lookup_insertSorted name entry t.entries x

theorem entry?_register {producer : Producer} :
    entry? (t.register name producer) x =
      if x = name then some ⟨.source producer, false⟩ else t.entry? x :=
  entry?_setEntry

theorem entry?_markLoaded : entry? (t.markLoaded name) x =
    if x = name then (t.entry? name).map fun e => { e with loaded := true } else t.entry? x := by
  rw [markLoaded]
  split
  · next e he => rw [entry?_setEntry, he, Option.map_some]
  · next hnone =>
    split
    · next hx => rw [hx, hnone, Option.map_none]
    · rfl

/-! ## What is offered -/

/-- The origin that a URL stands for.  An empty name or URL stands for none. -/
def urlOrigin (join : Url.Joiner) (name url : String) (options : Options) :
    Except ModuleError (Option ModuleOrigin) :=
  if name.isEmpty ∨ url.isEmpty then .ok none
  else if options.keepRelativeUrls then .ok (some (.url url))
  else
    match Url.resolve join url options.baseUrl with
    | .ok url => .ok (some (.url url))
    | .error cause => .error (.invalidUrl url cause)

/-- The origin that an alias stands for when it serves a name.  Without an alias it is none. -/
def aliasOrigin (join : Url.Joiner) (name : String) (options : Options) :
    Option ModuleAlias → Except ModuleError (Option ModuleOrigin)
  | none => .ok none
  | some (.source producer) => .ok (some (.source producer))
  | some (.pattern pattern) => urlOrigin join name (pattern.replace namePlaceholder name) options

/-- An origin that is offered makes the entry of a name that has none. -/
def offer (t : ModuleTable) (name : String) (offered : Option ModuleOrigin) : Bool × ModuleTable :=
  match t.entry? name, offered with
  | none, some origin => (true, t.setEntry name ⟨origin, false⟩)
  | _, _ => (false, t)

theorem offer_of_entry (h : t.entry? name = some entry) (offered : Option ModuleOrigin) :
    t.offer name offered = (false, t) := by
  rw [offer.eq_def, h]

theorem offer_nothing : t.offer name none = (false, t) := by
  rw [offer.eq_def]
  split
  · next h => cases h
  · rfl

theorem offer_of_none (h : t.entry? name = none) :
    t.offer name (some origin) = (true, t.setEntry name ⟨origin, false⟩) := by
  rw [offer.eq_def, h]

theorem entry?_offer_of_ne {offered : Option ModuleOrigin} (hx : x ≠ name) :
    entry? (t.offer name offered).2 x = t.entry? x := by
  rw [offer.eq_def]
  split
  · exact entry?_setEntry.trans (if_neg hx)
  · rfl

theorem entry?_offer_self {offered : Option ModuleOrigin} :
    entry? (t.offer name offered).2 name =
      (t.entry? name).or (offered.map fun origin => ⟨origin, false⟩) := by
  cases he : t.entry? name with
  | some e => rw [offer_of_entry he, he, Option.some_or]
  | none =>
    cases offered with
    | none => rw [offer_nothing, he, Option.map_none, Option.or_none]
    | some origin =>
      rw [offer_of_none he, entry?_setEntry, if_pos rfl, Option.none_or, Option.map_some]

theorem entry?_offer_of_entry (h : t.entry? x = some entry) (offered : Option ModuleOrigin) :
    entry? (t.offer name offered).2 x = some entry := by
  by_cases hx : x = name
  · rw [offer_of_entry (hx ▸ h), h]
  · rw [entry?_offer_of_ne hx, h]

theorem fallback_offer {offered : Option ModuleOrigin} :
    (t.offer name offered).2.fallback = t.fallback := by
  rw [offer.eq_def]
  split
  · rfl
  · rfl

theorem join_offer {offered : Option ModuleOrigin} : (t.offer name offered).2.join = t.join := by
  rw [offer.eq_def]
  split
  · rfl
  · rfl

/-- **A URL** is not even resolved when the name has an entry. -/
theorem registerUrl_eq : t.registerUrl name url options =
    if (t.entry? name).isSome then .ok (false, t)
    else (urlOrigin t.join name url options).map (t.offer name) := by
  rw [registerUrl, urlOrigin]
  cases he : t.entry? name with
  | some e => simp only [Option.isSome_some, or_true, if_true]
  | none =>
    simp only [Option.isSome_none, Bool.false_eq_true, or_false, if_false]
    split
    · exact congrArg Except.ok offer_nothing.symm
    · split
      · exact congrArg Except.ok (offer_of_none he).symm
      · cases Url.resolve t.join url options.baseUrl with
        | ok url => exact congrArg Except.ok (offer_of_none he).symm
        | error cause => rfl

/-- **The alias** is not looked at when the name has an entry. -/
theorem applyAlias_eq : t.applyAlias name options =
    if (t.entry? name).isSome then .ok t
    else
      (aliasOrigin t.join name options t.fallback).map fun offered => (t.offer name offered).2 := by
  rw [applyAlias.eq_def]
  cases he : t.entry? name with
  | some e => cases t.fallback <;> rfl
  | none =>
    cases t.fallback with
    | none => exact congrArg Except.ok (congrArg Prod.snd offer_nothing).symm
    | some alternative =>
      cases alternative with
      | source producer => exact congrArg Except.ok (congrArg Prod.snd (offer_of_none he)).symm
      | pattern pattern =>
        simp only [aliasOrigin, registerUrl_eq, he, Option.isSome_none, Bool.false_eq_true, if_false]
        cases urlOrigin t.join name (pattern.replace namePlaceholder name) options <;> rfl

theorem applyAlias_of_entry (h : t.entry? name = some entry) :
    t.applyAlias name options = .ok t := by
  rw [applyAlias_eq, h]
  rfl

/-- A URL is offered to its name, if it can be resolved. -/
theorem exists_offer_of_registerUrl {taken : Bool}
    (h : t.registerUrl name url options = .ok (taken, t')) :
    ∃ offered, (taken, t') = t.offer name offered ∧
      (t.entry? name = none → urlOrigin t.join name url options = .ok offered) := by
  rw [registerUrl_eq] at h
  cases he : t.entry? name with
  | some e =>
    rw [he] at h
    cases h
    exact ⟨none, (offer_of_entry he none).symm, nofun⟩
  | none =>
    rw [he, if_neg (by simp)] at h
    cases hurl : urlOrigin t.join name url options with
    | error error =>
      rw [hurl] at h
      cases h
    | ok offered =>
      rw [hurl] at h
      exact ⟨offered, (Except.ok.inj h).symm, fun _ => rfl⟩

/-- A URL that is refused cannot be resolved. -/
theorem urlOrigin_of_registerUrl {error : ModuleError}
    (h : t.registerUrl name url options = .error error) :
    urlOrigin t.join name url options = .error error := by
  rw [registerUrl_eq] at h
  split at h
  · cases h
  · cases hurl : urlOrigin t.join name url options with
    | error error' =>
      rw [hurl] at h
      cases h
      rfl
    | ok offered =>
      rw [hurl] at h
      cases h

/-- The origin of an alias is offered to the name, if it can be resolved. -/
theorem exists_offer_of_applyAlias (h : t.applyAlias name options = .ok t') :
    ∃ offered, t' = (t.offer name offered).2 ∧
      (t.entry? name = none → aliasOrigin t.join name options t.fallback = .ok offered) := by
  cases he : t.entry? name with
  | some e =>
    rw [applyAlias_of_entry he] at h
    cases h
    exact ⟨none, by rw [offer_of_entry he], nofun⟩
  | none =>
    rw [applyAlias_eq, he, if_neg (by simp)] at h
    cases halias : aliasOrigin t.join name options t.fallback with
    | error error =>
      rw [halias] at h
      cases h
    | ok offered =>
      rw [halias] at h
      exact ⟨offered, (Except.ok.inj h).symm, fun _ => rfl⟩

/-- An alias that is refused cannot be resolved. -/
theorem aliasOrigin_of_applyAlias {error : ModuleError}
    (h : t.applyAlias name options = .error error) :
    t.entry? name = none ∧ aliasOrigin t.join name options t.fallback = .error error := by
  rw [applyAlias_eq] at h
  split at h
  · cases h
  · next hentry =>
    refine ⟨by simpa using hentry, ?_⟩
    cases halias : aliasOrigin t.join name options t.fallback with
    | error error' =>
      rw [halias] at h
      cases h
      rfl
    | ok offered =>
      rw [halias] at h
      cases h

/-! ## Requests and answers -/

/-- Asking an origin changes neither the entries nor the alias nor how URLs are joined. -/
theorem consult_keeps : (t.consult name origin).2.entries = t.entries ∧
    (t.consult name origin).2.fallback = t.fallback ∧
    (t.consult name origin).2.join = t.join := by
  cases origin with
  | source producer => exact ⟨rfl, rfl, rfl⟩
  | url url =>
    rw [consult, fetch]
    split
    · exact ⟨rfl, rfl, rfl⟩
    · dsimp only
      split
      · exact ⟨rfl, rfl, rfl⟩
      · exact ⟨rfl, rfl, rfl⟩

theorem entry?_consult : entry? (t.consult name origin).2 x = t.entry? x :=
  congrArg (List.lookup x) consult_keeps.1

/-- Whoever is asked and has nothing to wait for has failed. -/
theorem error_of_consult_settled {result : Except ModuleError Bool}
    (h : (t.consult name origin).1 = .settled result) : ∃ error, result = .error error := by
  cases origin with
  | source producer => cases h
  | url url =>
    rw [consult, fetch] at h
    split at h
    · cases h
      exact ⟨_, rfl⟩
    · dsimp only at h
      split at h
      · cases h
        exact ⟨_, rfl⟩
      · cases h

/-- **What a request comes to.** -/
inductive Requested (t : ModuleTable) (name : String) (options : Options) :
    ModuleRequest × ModuleTable → Prop where
  | anonymous (h : isAnonymous name = true) : Requested t name options (.settled (.ok false), t)
  | unresolved {error : ModuleError} (h : isAnonymous name = false)
      (halias : t.applyAlias name options = .error error) :
      Requested t name options (.settled (.error error), t)
  | absent {t' : ModuleTable} (h : isAnonymous name = false)
      (halias : t.applyAlias name options = .ok t') (hentry : t'.entry? name = none) :
      Requested t name options (.settled (.ok false), t')
  | loaded {t' : ModuleTable} {origin : ModuleOrigin} (h : isAnonymous name = false)
      (halias : t.applyAlias name options = .ok t') (hentry : t'.entry? name = some ⟨origin, true⟩) :
      Requested t name options (.settled (.ok false), t')
  | consults {t' : ModuleTable} {origin : ModuleOrigin} (h : isAnonymous name = false)
      (halias : t.applyAlias name options = .ok t')
      (hentry : t'.entry? name = some ⟨origin, false⟩) :
      Requested t name options (t'.consult name origin)

theorem request_cases (t : ModuleTable) (name : String) (options : Options) :
    Requested t name options (t.request name options) := by
  rw [request]
  split
  · next h => exact .anonymous h
  · next h =>
    have h := (Bool.not_eq_true _).mp h
    split
    · next error halias => exact .unresolved h halias
    · next t' halias =>
      split
      · next hentry => exact .absent h halias hentry
      · next e hentry =>
        obtain ⟨origin, loaded⟩ := e
        cases loaded with
        | true => exact .loaded h halias hentry
        | false => exact .consults h halias hentry

/-- A request keeps the entries there are. -/
theorem entry?_request_of_entry (h : t.entry? x = some entry) (name : String)
    (options : Options) : entry? (t.request name options).2 x = some entry := by
  have halias : ∀ {t'}, t.applyAlias name options = .ok t' → t'.entry? x = some entry := by
    intro t' halias
    obtain ⟨offered, rfl, -⟩ := exists_offer_of_applyAlias halias
    exact entry?_offer_of_entry h offered
  have hcases := request_cases t name options
  generalize t.request name options = requested at hcases ⊢
  cases hcases with
  | anonymous => exact h
  | unresolved => exact h
  | absent _ h' => exact halias h'
  | loaded _ h' => exact halias h'
  | consults _ h' => exact entry?_consult.trans (halias h')

/-- **A name with an entry** that is loaded has nothing to request. -/
theorem request_of_loaded (h : t.entry? name = some ⟨origin, true⟩) :
    t.request name options = (.settled (.ok false), t) := by
  rw [request, applyAlias_of_entry h]
  split
  · rfl
  · dsimp only
    rw [h]
    rfl

/-- **A name with an entry** that is not loaded: its origin is asked. -/
theorem request_of_unloaded (hname : isAnonymous name = false)
    (h : t.entry? name = some ⟨origin, false⟩) :
    t.request name options = t.consult name origin := by
  rw [request, applyAlias_of_entry h, if_neg (by simp [hname])]
  dsimp only
  rw [h]
  rfl

/-- **A name without an entry**: the alias decides, and the entry that it makes is asked. -/
theorem request_of_none (hname : isAnonymous name = false) (h : t.entry? name = none) :
    t.request name options =
      match aliasOrigin t.join name options t.fallback with
      | .error error => (.settled (.error error), t)
      | .ok none => (.settled (.ok false), t)
      | .ok (some origin) => (t.offer name (some origin)).2.consult name origin := by
  rw [request, applyAlias_eq, if_neg (by simp [hname]), h, if_neg (by simp)]
  cases aliasOrigin t.join name options t.fallback with
  | error error => rfl
  | ok offered =>
    cases offered with
    | none =>
      simp only [Except.map, offer_nothing, h]
    | some origin =>
      simp only [Except.map, entry?_offer_self, h]
      rfl

/-- An alias that is refused with some options does not stand for nothing with others. -/
theorem aliasOrigin_ne_none {error : ModuleError} {alternative : Option ModuleAlias}
    (h : aliasOrigin join name options alternative = .error error) (options' : Options) :
    aliasOrigin join name options' alternative ≠ .ok none := by
  cases alternative with
  | none => cases h
  | some alternative =>
    cases alternative with
    | source producer => cases h
    | pattern pattern =>
      rw [aliasOrigin, urlOrigin] at h ⊢
      split at h
      · cases h
      · next hnamed =>
        rw [if_neg hnamed]
        split
        · simp
        · split
          · simp
          · simp

/-- An answer changes the entry of its name only: it is marked as loaded, if there is a module. -/
theorem receive_ok (m : ComponentModule) :
    t.receive name (.ok m) = (.ok true, m.select name, t.markLoaded name) :=
  rfl

end ModuleTable

end Hydration
