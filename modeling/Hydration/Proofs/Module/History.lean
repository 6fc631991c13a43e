import Hydration.Proofs.Module.Steps
import Hydration.Proofs.Module.Table
import Hydration.Url.Parse
import Mathlib.Data.List.Induction

/-!
# The history of a table of modules

Where operations on modules do not overlap, the table is a function of its history.  The
origin of a name is the source registered last for it, and for a name without one the first
URL or alias that **took effect** for it: one that was offered to the name and stood for an
origin (`provenance`).  Whether the entry is loaded is a matter of the downloads since the
source was registered.  `Lawful` lists what follows for each name, and `lawful_after` proves
it for every history of a new table.

A download is the only operation that can fail after it has changed the table, and all that
it may have done is to make the entry from the alias (`Downloaded`).
-/

namespace Hydration.ModuleTable

/-! ## Operations -/

/-- An operation that ends before the next one begins.  What the origin answers to a download
that asks it is part of the operation, since an origin may answer differently each time. -/
inductive Operation where
  | register (name : String) (producer : Producer)
  | registerUrl (name url : String) (options : Options)
  | setAlias (alternative : ModuleAlias)
  | download (name : String) (options : Options) (answer : Except ModuleError ComponentModule)

/-- What an operation gives. -/
inductive Report where
  | done
  | registered (result : Except ModuleError Bool)
  /-- The result of a download and the data to bind under the name. -/
  | downloaded (name : String) (result : Except ModuleError Bool) (bound : Option Data)

/-- A download with nothing in between whose origin, if it is asked, gives an answer. -/
def downloadWith (t : ModuleTable) (name : String) (options : Options)
    (answer : Except ModuleError ComponentModule) : Except ModuleError Bool × Option Data × ModuleTable :=
  match t.request name options with
  | (.settled result, t) => (result, none, t)
  | (.answered _ _, t) => t.receive name answer

/-- The table and the report after an operation. -/
def perform (t : ModuleTable) : Operation → Report × ModuleTable
  | .register name producer => (.done, t.register name producer)
  | .registerUrl name url options =>
    match t.registerUrl name url options with
    | .ok (taken, t) => (.registered (.ok taken), t)
    | .error error => (.registered (.error error), t)
  | .setAlias alternative => (.done, { t with fallback := some alternative })
  | .download name options answer =>
    let (result, bound, t) := t.downloadWith name options answer
    (.downloaded name result bound, t)

/-- A new table, which joins URLs in some way and fetches what is served, after some operations. -/
def after (join : Url.Joiner) (served : Option (List (String × Producer)))
    (operations : List Operation) : ModuleTable :=
  (steps perform { join, served } operations).2

/-- Whether an operation has failed. -/
def Report.failed : Report → Bool
  | .registered (.error _) => true
  | .downloaded _ (.error _) _ => true
  | _ => false

/-- Whether a download of a name has brought a module. -/
def Report.loads (name : String) : Report → Bool
  | .downloaded other (.ok true) _ => other = name
  | _ => false

/-- The data that is bound under a name. -/
def Report.bound? (name : String) : Report → Option Data
  | .downloaded other _ bound => if other = name then bound else none
  | _ => none

variable {t t' u : ModuleTable} {join : Url.Joiner} {name x : String} {options : Options}
  {origin : ModuleOrigin} {answer : Except ModuleError ComponentModule} {operation : Operation}
  {operations rest : List Operation} {inForce : Option ModuleAlias}
  {served : Option (List (String × Producer))}
  {result : Except ModuleError Bool × Option Data × ModuleTable}

/-- Downloading is downloading with the answer of the source itself. -/
theorem exists_downloadWith (t : ModuleTable) (name : String) (options : Options) :
    ∃ answer, t.download name options = t.downloadWith name options answer := by
  simp only [download, downloadWith]
  generalize t.request name options = requested
  obtain ⟨request, t'⟩ := requested
  cases request with
  | settled result => exact ⟨.error (.noExport name), rfl⟩
  | answered delay answer => exact ⟨answer, rfl⟩

theorem after_concat (join : Url.Joiner) (served : Option (List (String × Producer)))
    (operations : List Operation) (operation : Operation) :
    after join served (operations ++ [operation]) =
      ((after join served operations).perform operation).2 :=
  congrArg Prod.snd (steps_concat _ operations operation)

theorem after_append (join : Url.Joiner) (served : Option (List (String × Producer)))
    (operations rest : List Operation) :
    after join served (operations ++ rest) =
      (steps perform (after join served operations) rest).2 := by
  rw [after, steps_append]
  rfl

/-! ## Provenance -/

/-- The source that an operation registers for a name. -/
def Operation.source? (name : String) : Operation → Option Producer
  | .register other producer => if other = name then some producer else none
  | _ => none

/-- The alias that an operation sets. -/
def Operation.alias? : Operation → Option ModuleAlias
  | .setAlias alternative => some alternative
  | _ => none

/-- The origin that an operation offers a name while an alias is in force. -/
def Operation.offer? (join : Url.Joiner) (name : String) (inForce : Option ModuleAlias) :
    Operation → Option ModuleOrigin
  | .registerUrl other url options =>
    if other = name then (urlOrigin join name url options).toOption.join else none
  | .download other options _ =>
    if other = name then (aliasOrigin join name options inForce).toOption.join else none
  | _ => none

/-- The source registered last for a name. -/
def lastSource (name : String) (operations : List Operation) : Option Producer :=
  (operations.filterMap (·.source? name)).getLast?

/-- The alias set last. -/
def lastAlias (operations : List Operation) : Option ModuleAlias :=
  (operations.filterMap (·.alias?)).getLast?

/-- The origin that operations offer a name first, where an alias is in force at the beginning. -/
def firstOffer (join : Url.Joiner) (name : String) (inForce : Option ModuleAlias) :
    List Operation → Option ModuleOrigin
  | [] => none
  | operation :: rest =>
    (operation.offer? join name inForce).or
      (firstOffer join name (operation.alias?.or inForce) rest)

/-- **Where the module of a name comes from**: the source registered last for it or else the
first URL or alias that took effect for it. -/
def provenance (join : Url.Joiner) (name : String) (operations : List Operation) :
    Option ModuleOrigin :=
  ((lastSource name operations).map .source).or (firstOffer join name none operations)

/-- The origin in the entry of a name. -/
def origin? (t : ModuleTable) (name : String) : Option ModuleOrigin :=
  (t.entry? name).map (·.origin)

theorem lastSource_concat : lastSource name (operations ++ [operation]) =
    (operation.source? name).or (lastSource name operations) := by
  rw [lastSource, List.filterMap_append, List.getLast?_append, lastSource, List.filterMap_cons,
    List.filterMap_nil]
  cases operation.source? name <;> rfl

theorem lastAlias_concat : lastAlias (operations ++ [operation]) =
    operation.alias?.or (lastAlias operations) := by
  rw [lastAlias, List.filterMap_append, List.getLast?_append, lastAlias, List.filterMap_cons,
    List.filterMap_nil]
  cases operation.alias? <;> rfl

theorem lastAlias_cons : lastAlias (operation :: operations) =
    (lastAlias operations).or operation.alias? := by
  rw [lastAlias, lastAlias, List.filterMap_cons]
  cases operation.alias? with
  | none => rw [Option.or_none]
  | some alternative =>
    rw [List.getLast?_cons]
    cases (operations.filterMap (·.alias?)).getLast? <;> rfl

theorem firstOffer_concat : firstOffer join name inForce (operations ++ [operation]) =
    (firstOffer join name inForce operations).or
      (operation.offer? join name ((lastAlias operations).or inForce)) := by
  induction operations generalizing inForce with
  | nil => rw [List.nil_append, firstOffer, firstOffer, firstOffer, Option.or_none]; rfl
  | cons first rest ih =>
    rw [List.cons_append, firstOffer, ih, firstOffer, lastAlias_cons, Option.or_assoc,
      Option.or_assoc]

/-- One more operation. -/
theorem provenance_concat : provenance join name (operations ++ [operation]) =
    ((operation.source? name).map .source).or
      ((provenance join name operations).or
        (operation.offer? join name (lastAlias operations))) := by
  rw [provenance, lastSource_concat, firstOffer_concat, Option.or_none, provenance]
  cases operation.source? name with
  | some producer => rfl
  | none => rw [Option.none_or, Option.map_none, Option.none_or, Option.or_assoc]

/-! ## What downloads do -/

/-- **What a download comes to.** -/
inductive Downloaded (t : ModuleTable) (name : String) (options : Options) :
    Except ModuleError Bool × Option Data × ModuleTable → Prop where
  /-- The alias cannot be resolved. -/
  | unresolved {error : ModuleError} (hentry : t.entry? name = none)
      (halias : aliasOrigin t.join name options t.fallback = .error error) :
      Downloaded t name options (.error error, none, t)
  | anonymous (hname : isAnonymous name = true) : Downloaded t name options (.ok false, none, t)
  /-- There is nothing to ask for. -/
  | idle {offered : Option ModuleOrigin}
      (halias : t.entry? name = none → aliasOrigin t.join name options t.fallback = .ok offered)
      (hloaded : ∀ e, entry? (t.offer name offered).2 name = some e → e.loaded = true) :
      Downloaded t name options (.ok false, none, (t.offer name offered).2)
  /-- The origin has been asked and has no module to give. -/
  | refused {offered : Option ModuleOrigin} {origin : ModuleOrigin} {error : ModuleError}
      (halias : t.entry? name = none → aliasOrigin t.join name options t.fallback = .ok offered)
      (hname : isAnonymous name = false)
      (hentry : entry? (t.offer name offered).2 name = some ⟨origin, false⟩) :
      Downloaded t name options (.error error, none, ((t.offer name offered).2.consult name origin).2)
  | loads {offered : Option ModuleOrigin} {origin : ModuleOrigin} (m : ComponentModule)
      (halias : t.entry? name = none → aliasOrigin t.join name options t.fallback = .ok offered)
      (hentry : entry? (t.offer name offered).2 name = some ⟨origin, false⟩) :
      Downloaded t name options (.ok true, m.select name,
        markLoaded ((t.offer name offered).2.consult name origin).2 name)

theorem downloaded (t : ModuleTable) (name : String) (options : Options)
    (answer : Except ModuleError ComponentModule) :
    Downloaded t name options (t.downloadWith name options answer) := by
  have hrequested := request_cases t name options
  rw [downloadWith]
  generalize t.request name options = requested at hrequested
  cases hrequested with
  | anonymous hname => exact .anonymous hname
  | unresolved hname halias =>
    obtain ⟨hentry, horigin⟩ := aliasOrigin_of_applyAlias halias
    exact .unresolved hentry horigin
  | absent hname halias hentry =>
    obtain ⟨offered, rfl, hoffered⟩ := exists_offer_of_applyAlias halias
    exact .idle hoffered fun e he => by rw [hentry] at he; cases he
  | loaded hname halias hentry =>
    obtain ⟨offered, rfl, hoffered⟩ := exists_offer_of_applyAlias halias
    exact .idle hoffered fun e he => by rw [hentry] at he; cases he; rfl
  | @consults t' origin hname halias hentry =>
    obtain ⟨offered, rfl, hoffered⟩ := exists_offer_of_applyAlias halias
    generalize hconsult : (t.offer name offered).2.consult name origin = consulted
    obtain ⟨request, u⟩ := consulted
    obtain rfl : _ = u := congrArg Prod.snd hconsult
    cases request with
    | settled result =>
      obtain ⟨error, rfl⟩ := error_of_consult_settled (congrArg Prod.fst hconsult)
      exact .refused hoffered hname hentry
    | answered delay =>
      cases answer with
      | error error => exact .refused hoffered hname hentry
      | ok m => exact .loads m hoffered hentry

/-! ## The alias in force -/

theorem fallback_markLoaded : (t.markLoaded name).fallback = t.fallback := by
  rw [markLoaded]
  split
  · rfl
  · rfl

theorem Downloaded.fallback (h : Downloaded t name options result) :
    result.2.2.fallback = t.fallback := by
  cases h with
  | unresolved => rfl
  | anonymous => rfl
  | idle => exact fallback_offer
  | refused => exact consult_keeps.2.1.trans fallback_offer
  | loads => exact (fallback_markLoaded.trans consult_keeps.2.1).trans fallback_offer

theorem fallback_perform : (t.perform operation).2.fallback = operation.alias?.or t.fallback := by
  cases operation with
  | register name producer => rfl
  | setAlias alternative => rfl
  | registerUrl name url options =>
    rw [perform]
    split
    · next taken t' hurl =>
      obtain ⟨offered, htaken, -⟩ := exists_offer_of_registerUrl hurl
      exact (congrArg (·.2.fallback) htaken).trans fallback_offer
    · rfl
  | download name options answer => exact (downloaded t name options answer).fallback

/-! ## How URLs are joined -/

theorem Downloaded.join_eq (h : Downloaded t name options result) : result.2.2.join = t.join := by
  cases h with
  | unresolved => rfl
  | anonymous => rfl
  | idle => exact join_offer
  | refused => exact consult_keeps.2.2.trans join_offer
  | loads =>
    rw [markLoaded]
    split
    · exact consult_keeps.2.2.trans join_offer
    · exact consult_keeps.2.2.trans join_offer

/-- No operation changes how URLs are joined. -/
theorem join_perform : (t.perform operation).2.join = t.join := by
  cases operation with
  | register name producer => rfl
  | setAlias alternative => rfl
  | registerUrl name url options =>
    rw [perform]
    split
    · next taken t' hurl =>
      obtain ⟨offered, htaken, -⟩ := exists_offer_of_registerUrl hurl
      exact (congrArg (·.2.join) htaken).trans join_offer
    · rfl
  | download name options answer => exact (downloaded t name options answer).join_eq

/-! ## Origins -/

theorem origin?_congr (h : t.entry? name = u.entry? name) : t.origin? name = u.origin? name :=
  congrArg (Option.map ModuleEntry.origin) h

theorem origin?_offer {offered : Option ModuleOrigin} :
    origin? (t.offer x offered).2 name =
      if x = name then (t.origin? name).or offered else t.origin? name := by
  split
  · next hx =>
    rw [hx, origin?, entry?_offer_self, origin?]
    cases t.entry? name <;> cases offered <;> rfl
  · next hx => exact origin?_congr (entry?_offer_of_ne (Ne.symm hx))

theorem origin?_markLoaded : origin? (t.markLoaded x) name = t.origin? name := by
  rw [origin?, entry?_markLoaded]
  split
  · next hx =>
    rw [hx, Option.map_map]
    rfl
  · rfl

/-- An origin is offered in vain to a name that has one. -/
theorem or_offered {offered : Option ModuleOrigin} {resolved : Except ModuleError (Option ModuleOrigin)}
    (h : t.entry? name = none → resolved = .ok offered) :
    (t.origin? name).or offered = (t.origin? name).or resolved.toOption.join := by
  rw [origin?]
  cases hentry : t.entry? name with
  | some e => rfl
  | none =>
    rw [h hentry]
    rfl

theorem Downloaded.origin_eq (hname : isAnonymous name = false)
    (h : Downloaded t name options result) : result.2.2.origin? name =
      (t.origin? name).or (aliasOrigin t.join name options t.fallback).toOption.join := by
  have hoffer : ∀ {offered}, (t.entry? name = none →
      aliasOrigin t.join name options t.fallback = .ok offered) →
      origin? (t.offer name offered).2 name =
        (t.origin? name).or (aliasOrigin t.join name options t.fallback).toOption.join := by
    intro offered halias
    rw [origin?_offer, if_pos rfl, or_offered halias]
  cases h with
  | @unresolved error hentry halias =>
    show t.origin? name = _
    rw [halias]
    exact Option.or_none.symm
  | anonymous hanonymous =>
    rw [hname] at hanonymous
    cases hanonymous
  | idle halias => exact hoffer halias
  | refused halias => exact (origin?_congr entry?_consult).trans (hoffer halias)
  | loads _ halias =>
    exact (origin?_markLoaded.trans (origin?_congr entry?_consult)).trans (hoffer halias)

theorem Downloaded.entry_of_ne (h : Downloaded t name options result) (hx : x ≠ name) :
    entry? result.2.2 x = t.entry? x := by
  cases h with
  | unresolved => rfl
  | anonymous => rfl
  | idle => exact entry?_offer_of_ne hx
  | refused => exact entry?_consult.trans (entry?_offer_of_ne hx)
  | loads =>
    rw [entry?_markLoaded, if_neg hx]
    exact entry?_consult.trans (entry?_offer_of_ne hx)

/-- **The origin of a name** after an operation. -/
theorem origin?_perform (hname : isAnonymous name = false) :
    origin? (t.perform operation).2 name = ((operation.source? name).map .source).or
      ((t.origin? name).or (operation.offer? t.join name t.fallback)) := by
  cases operation with
  | register other producer =>
    show origin? (t.register other producer) name =
      ((if other = name then some producer else none).map .source).or ((t.origin? name).or none)
    rw [Option.or_none, origin?, entry?_register]
    by_cases hother : other = name
    · rw [if_pos hother.symm, if_pos hother]
      rfl
    · rw [if_neg (Ne.symm hother), if_neg hother]
      rfl
  | setAlias alternative => exact Option.or_none.symm
  | registerUrl other url options =>
    rw [Operation.offer?, show Operation.source? name _ = none from rfl, Option.map_none,
      Option.none_or, perform]
    split
    · next taken t' hurl =>
      obtain ⟨offered, htaken, hoffered⟩ := exists_offer_of_registerUrl hurl
      rw [show t' = _ from congrArg Prod.snd htaken, origin?_offer]
      split
      · next hother =>
        subst hother
        exact or_offered hoffered
      · exact Option.or_none.symm
    · next error hurl =>
      show t.origin? name = _
      split
      · next hother =>
        subst hother
        rw [urlOrigin_of_registerUrl hurl]
        exact Option.or_none.symm
      · exact Option.or_none.symm
  | download other options answer =>
    rw [Operation.offer?, show Operation.source? name _ = none from rfl, Option.map_none,
      Option.none_or]
    have hdownloaded := downloaded t other options answer
    by_cases hother : other = name
    · subst hother
      rw [if_pos rfl]
      exact hdownloaded.origin_eq hname
    · rw [if_neg hother, Option.or_none]
      exact origin?_congr (hdownloaded.entry_of_ne (Ne.symm hother))

/-! ## Loads -/

theorem isLoaded_congr (h : t.entry? name = u.entry? name) : t.isLoaded name = u.isLoaded name :=
  congrArg (Option.any ModuleEntry.loaded) h

theorem isLoaded_offer {offered : Option ModuleOrigin} :
    isLoaded (t.offer x offered).2 name = t.isLoaded name := by
  by_cases hx : name = x
  · rw [hx, isLoaded, entry?_offer_self, isLoaded]
    cases t.entry? x <;> cases offered <;> rfl
  · exact isLoaded_congr (entry?_offer_of_ne hx)

/-- **What becomes of a name** when an operation gives a report: it is loaded once the operation
has loaded it, which happens only if it was not loaded before, and data is bound only then. -/
structure Settles (t : ModuleTable) (name : String) (report : Report) (t' : ModuleTable) : Prop where
  loaded : t'.isLoaded name = (t.isLoaded name || report.loads name)
  first : report.loads name = true → t.isLoaded name = false
  bound : report.loads name = false → report.bound? name = none

theorem Settles.of_not_loads {report : Report} (h : t'.isLoaded name = t.isLoaded name)
    (hloads : report.loads name = false) (hbound : report.bound? name = none) :
    Settles t name report t' where
  loaded := by rw [hloads, Bool.or_false, h]
  first hloads' := by rw [hloads] at hloads'; cases hloads'
  bound _ := hbound

theorem Downloaded.settles (h : Downloaded t x options result) :
    Settles t name (.downloaded x result.1 result.2.1) result.2.2 := by
  have hconsult : ∀ {offered : Option ModuleOrigin} {origin : ModuleOrigin},
      isLoaded ((t.offer x offered).2.consult x origin).2 name = t.isLoaded name :=
    (isLoaded_congr entry?_consult).trans isLoaded_offer
  cases h with
  | unresolved => exact .of_not_loads rfl rfl (ite_self _)
  | anonymous => exact .of_not_loads rfl rfl (ite_self _)
  | idle => exact .of_not_loads isLoaded_offer rfl (ite_self _)
  | refused => exact .of_not_loads hconsult rfl (ite_self _)
  | @loads offered origin m _ hentry =>
    by_cases hx : x = name
    · subst hx
      have hunloaded : t.isLoaded x = false :=
        isLoaded_offer.symm.trans (congrArg (Option.any ModuleEntry.loaded) hentry)
      refine ⟨?_, fun _ => hunloaded, fun hloads => ?_⟩
      · rw [isLoaded, entry?_markLoaded, if_pos rfl, entry?_consult, hentry, hunloaded]
        simp [Report.loads]
      · simp [Report.loads] at hloads
    · refine .of_not_loads ?_ (decide_eq_false hx) (if_neg hx)
      exact (isLoaded_congr (entry?_markLoaded.trans (if_neg (Ne.symm hx)))).trans hconsult

theorem settles_perform (hsource : operation.source? name = none) :
    Settles t name (t.perform operation).1 (t.perform operation).2 := by
  cases operation with
  | register other producer =>
    have hother : name ≠ other := fun h => by simp [Operation.source?, h] at hsource
    exact .of_not_loads (isLoaded_congr (entry?_register.trans (if_neg hother))) rfl rfl
  | setAlias alternative => exact .of_not_loads rfl rfl rfl
  | registerUrl other url options =>
    rw [perform]
    split
    · next taken t' hurl =>
      obtain ⟨offered, htaken, -⟩ := exists_offer_of_registerUrl hurl
      rw [show t' = _ from congrArg Prod.snd htaken]
      exact .of_not_loads isLoaded_offer rfl rfl
    · exact .of_not_loads rfl rfl rfl
  | download other options answer => exact (downloaded t other options answer).settles

/-- **A name that is not loaded** at the beginning and for which no source is registered. -/
theorem loads_steps (hstart : t.isLoaded name = false)
    (hkept : ∀ producer, .register name producer ∉ operations) :
    let reports := (steps perform t operations).1
    reports.countP (·.loads name) = (if (steps perform t operations).2.isLoaded name then 1 else 0) ∧
      (reports.filterMap (·.bound? name)).length ≤ reports.countP (·.loads name) := by
  induction operations using List.reverseRecOn with
  | nil => exact ⟨by rw [show (steps perform t []).2 = t from rfl, hstart]; rfl, Nat.le_refl 0⟩
  | append_singleton operations operation ih =>
    obtain ⟨hcount, hbound⟩ := ih fun producer hp => hkept producer (List.mem_append_left _ hp)
    have hsource : operation.source? name = none := by
      rw [Operation.source?.eq_def]
      split
      · next other producer =>
        rw [if_neg]
        rintro rfl
        exact hkept producer (List.mem_append_right _ (List.mem_singleton_self _))
      · rfl
    rw [steps_concat]
    obtain ⟨hloaded, hfirst, hnothing⟩ := settles_perform (t := (steps perform t operations).2) hsource
    generalize (steps perform t operations).2.perform operation = performed at hloaded hfirst hnothing
    dsimp only
    rw [hloaded, List.countP_append, List.countP_singleton, List.filterMap_append,
      List.length_append, hcount]
    cases hloads : performed.1.loads name with
    | false =>
      rw [List.filterMap_cons, hnothing hloads, Bool.or_false]
      exact ⟨rfl, hcount ▸ hbound⟩
    | true =>
      rw [hfirst hloads] at hcount ⊢
      rw [hcount] at hbound
      refine ⟨rfl, ?_⟩
      have hlast : ([performed.1].filterMap (·.bound? name)).length ≤ 1 :=
        List.length_filterMap_le _ _
      exact Nat.add_le_add hbound hlast

/-! ## Failures -/

/-- What an operation that has failed may have done to a name: the entry is there from the alias. -/
def MadeFromAlias (t : ModuleTable) (name : String) (options : Options) (t' : ModuleTable) : Prop :=
  t.entry? name = none ∧ ∃ origin, aliasOrigin t.join name options t.fallback = .ok (some origin) ∧
    t'.entry? name = some ⟨origin, false⟩

/-- A download that fails binds nothing and changes nothing but the entry of its name, which it may
have made. -/
theorem Downloaded.failed {error : ModuleError} (h : Downloaded t name options result)
    (hfailed : result.1 = .error error) : result.2.1 = none ∧
      (MadeFromAlias t name options result.2.2 ∨ entry? result.2.2 name = t.entry? name) := by
  cases h with
  | unresolved => exact ⟨rfl, .inr rfl⟩
  | anonymous => cases hfailed
  | idle => cases hfailed
  | @refused offered origin _ halias _ hentry =>
    refine ⟨rfl, ?_⟩
    cases he : t.entry? name with
    | some e =>
      rw [offer_of_entry he]
      exact .inr (entry?_consult.trans he)
    | none =>
      rw [entry?_offer_self, he, Option.none_or] at hentry
      obtain ⟨origin', rfl, hsame⟩ := Option.map_eq_some_iff.mp hentry
      cases hsame
      refine .inl ⟨he, origin, halias he, entry?_consult.trans ?_⟩
      rw [entry?_offer_self, he]
      rfl
  | loads => cases hfailed

/-- **An operation that fails** binds nothing and changes no entry. -/
theorem perform_failed (hfailed : (t.perform operation).1.failed = true) :
    (∀ x, (t.perform operation).1.bound? x = none) ∧
      ∀ x, entry? (t.perform operation).2 x = t.entry? x ∨
        ∃ options answer, operation = .download x options answer ∧
          MadeFromAlias t x options (t.perform operation).2 := by
  cases operation with
  | register => cases hfailed
  | setAlias => cases hfailed
  | registerUrl name url options =>
    rw [perform] at hfailed ⊢
    split at hfailed
    · cases hfailed
    · exact ⟨fun _ => rfl, fun _ => .inl rfl⟩
  | download name options answer =>
    have hdownloaded := downloaded t name options answer
    have herror : ∃ error, (t.downloadWith name options answer).1 = .error error := by
      change Report.failed (.downloaded name (t.downloadWith name options answer).1 _) = true at hfailed
      cases hresult : (t.downloadWith name options answer).1 with
      | error error => exact ⟨error, rfl⟩
      | ok loaded =>
        rw [hresult] at hfailed
        cases hfailed
    obtain ⟨error, herror⟩ := herror
    obtain ⟨hbound, hentry⟩ := hdownloaded.failed herror
    refine ⟨fun x => ?_, fun x => ?_⟩
    · show (if name = x then (t.downloadWith name options answer).2.1 else none) = none
      rw [hbound, ite_self]
    · by_cases hx : x = name
      · subst hx
        exact hentry.symm.imp_right fun hmade => ⟨options, answer, rfl, hmade⟩
      · exact .inl (hdownloaded.entry_of_ne hx)

/-- **After a download that has failed** the name is not loaded, and the next download asks its
origin or, if it has none yet, goes back to the alias. -/
theorem Downloaded.retried {error : ModuleError} (hname : isAnonymous name = false)
    (h : Downloaded t name options result) (hfailed : result.1 = .error error) (options' : Options) :
    result.2.2.isLoaded name = false ∧
      (∀ origin, result.2.2.origin? name = some origin →
        result.2.2.request name options' = result.2.2.consult name origin) ∧
      (result.2.2.request name options').1 ≠ .settled (.ok false) := by
  have hasked : ∀ {u : ModuleTable} {origin}, (u.consult name origin).1 ≠ .settled (.ok false) := by
    intro u origin hsettled
    obtain ⟨error, herror⟩ := error_of_consult_settled hsettled
    cases herror
  cases h with
  | unresolved hentry halias =>
    refine ⟨congrArg (Option.any ModuleEntry.loaded) hentry, fun origin horigin => ?_, ?_⟩
    · rw [origin?, hentry] at horigin
      cases horigin
    · show (t.request name options').1 ≠ _
      rw [request_of_none hname hentry]
      split
      · nofun
      · next hnone => exact absurd hnone (aliasOrigin_ne_none halias options')
      · exact hasked
  | anonymous => cases hfailed
  | idle => cases hfailed
  | @refused offered origin _ _ _ hentry =>
    have hentry' : entry? ((t.offer name offered).2.consult name origin).2 name =
        some ⟨origin, false⟩ := entry?_consult.trans hentry
    have hrequest : request _ name options' = _ := request_of_unloaded hname hentry'
    refine ⟨congrArg (Option.any ModuleEntry.loaded) hentry', fun origin' horigin => ?_, ?_⟩
    · rw [origin?, hentry'] at horigin
      cases horigin
      exact hrequest
    · show (request _ name options').1 ≠ _
      rw [hrequest]
      exact hasked
  | loads => cases hfailed

/-! ## The law -/

/-- **The law of a name** in the table `t` that some operations have led to. -/
structure Lawful (join : Url.Joiner) (served : Option (List (String × Producer)))
    (operations : List Operation) (name : String) (t : ModuleTable) : Prop where
  /-- The origin in the entry is the one that the history says. -/
  origin : t.origin? name = provenance join name operations
  /-- A download asks that origin unless the entry is loaded.  For a name without an origin it is
  the alias set last that decides, which may make the entry to ask. -/
  request : ∀ options, t.request name options =
    match provenance join name operations with
    | some origin => if t.isLoaded name then (.settled (.ok false), t) else t.consult name origin
    | none =>
      match aliasOrigin join name options (lastAlias operations) with
      | .error error => (.settled (.error error), t)
      | .ok none => (.settled (.ok false), t)
      | .ok (some origin) => (t.offer name (some origin)).2.consult name origin
  /-- Nothing but a source that is registered for the name displaces its origin. -/
  kept : ∀ operation origin, operation.source? name = none → t.origin? name = some origin →
    origin? (t.perform operation).2 name = some origin
  /-- Since the last source was registered for the name, or since the beginning, a download has
  brought a module at most once: if the name is loaded.  Data is bound by that download only. -/
  once : ∀ earlier later, operations = earlier ++ later →
    (earlier = [] ∨ ∃ before producer, earlier = before ++ [.register name producer]) →
    (∀ producer, .register name producer ∉ later) →
    let reports := (steps perform (after join served earlier) later).1
    reports.countP (·.loads name) ≤ 1 ∧
      (t.isLoaded name = true ↔ reports.countP (·.loads name) = 1) ∧
      (reports.filterMap (·.bound? name)).length ≤ reports.countP (·.loads name)
  /-- After a download that fails the name is not loaded, and the next one tries again. -/
  retried : ∀ options answer error, (t.downloadWith name options answer).1 = .error error →
    ∀ options', let t' := (t.downloadWith name options answer).2.2
    t'.isLoaded name = false ∧
      (∀ origin, t'.origin? name = some origin →
        t'.request name options' = t'.consult name origin) ∧
      (t'.request name options').1 ≠ .settled (.ok false)
  /-- An operation that fails binds nothing and changes no entry, but a download may have made the
  entry of its name from the alias. -/
  failed : ∀ operation, (t.perform operation).1.failed = true →
    (∀ x, (t.perform operation).1.bound? x = none) ∧
      ∀ x, entry? (t.perform operation).2 x = t.entry? x ∨
        ∃ options answer, operation = .download x options answer ∧
          MadeFromAlias t x options (t.perform operation).2

theorem fallback_after : (after join served operations).fallback = lastAlias operations := by
  induction operations using List.reverseRecOn with
  | nil => rfl
  | append_singleton operations operation ih =>
    rw [after_concat, fallback_perform, ih, lastAlias_concat]

theorem join_after : (after join served operations).join = join := by
  induction operations using List.reverseRecOn with
  | nil => rfl
  | append_singleton operations operation ih => rw [after_concat, join_perform, ih]

theorem origin?_after (hname : isAnonymous name = false) :
    (after join served operations).origin? name = provenance join name operations := by
  induction operations using List.reverseRecOn with
  | nil => rfl
  | append_singleton operations operation ih =>
    rw [after_concat, origin?_perform hname, ih, fallback_after, join_after, provenance_concat]

/-- A name has just got a new source, or no entry at all. -/
theorem isLoaded_after_of_start (h : operations = [] ∨
    ∃ before producer, operations = before ++ [.register name producer]) :
    (after join served operations).isLoaded name = false := by
  rcases h with rfl | ⟨before, producer, rfl⟩
  · rfl
  · rw [after_concat]
    exact congrArg (Option.any ModuleEntry.loaded) (entry?_register.trans (if_pos rfl))

/-- **Operations that do not overlap** on a new table: for every name that is not made up, the
table is what the history says. -/
theorem lawful_after (join : Url.Joiner) (served : Option (List (String × Producer)))
    (operations : List Operation) (name : String) (hname : isAnonymous name = false) :
    Lawful join served operations name (after join served operations) where
  origin := origin?_after hname
  request options := by
    have horigin : (after join served operations).origin? name = _ := origin?_after hname
    rw [← horigin, origin?]
    cases hentry : entry? (after join served operations) name with
    | none => rw [request_of_none hname hentry, fallback_after, join_after]; rfl
    | some e =>
      obtain ⟨origin, loaded⟩ := e
      dsimp only [Option.map_some]
      rw [isLoaded, hentry]
      cases loaded with
      | true => exact request_of_loaded hentry
      | false => exact request_of_unloaded hname hentry
  kept operation origin hsource horigin := by
    rw [origin?_perform hname, hsource, horigin]
    rfl
  once earlier later hsplit hstart hkept := by
    subst hsplit
    have hunloaded : (after join served earlier).isLoaded name = false :=
      isLoaded_after_of_start hstart
    obtain ⟨hcount, hbound⟩ := loads_steps hunloaded hkept
    refine ⟨?_, ?_, hbound⟩
    · rw [hcount]
      split
      · exact Nat.le_refl 1
      · exact Nat.zero_le 1
    · rw [hcount, after_append]
      split
      · next h => exact iff_of_true h rfl
      · next h => exact iff_of_false h nofun
  retried options answer error hfailed :=
    (downloaded _ name options answer).retried hname hfailed
  failed operation := perform_failed

/-- A URL is registered and then an alias is set.  The first download fails and the second brings a
module. -/
def retriedOnce : List Operation :=
  let options : Options := { baseUrl := some "https://example.com/app/" }
  [.registerUrl "box" "box.js" options,
    .setAlias (.source (.holding (.component (.bool true)))),
    .download "box" options (.error (.fetch "box" "https://example.com/app/box.js" "404")),
    .download "box" options (.ok (.component .null))]

/-- After that the name still comes from the URL, as it was joined to the base, and there is nothing
left to download. -/
theorem lawful_after_retriedOnce :
    let url := "https://example.com/app/box.js"
    let served := some [(url, .holding (.component .null))]
    let t := after Url.joinTexts served retriedOnce
    isAnonymous "box" = false ∧ t.origin? "box" = some (.url url) ∧
      t.isLoaded "box" = true ∧ ∀ options, t.request "box" options = (.settled (.ok false), t) := by
  intro url served t
  have hname : isAnonymous "box" = false := by decide +kernel
  have hlaw : Lawful Url.joinTexts served retriedOnce "box" t :=
    lawful_after Url.joinTexts served retriedOnce "box" hname
  have hresolve :
      Url.resolve Url.joinTexts "box.js" (some "https://example.com/app/") = .ok url := by
    decide +kernel
  let options : Options := { baseUrl := some "https://example.com/app/" }
  have hurl : urlOrigin Url.joinTexts "box" "box.js" options = .ok (some (.url url)) := by
    rw [urlOrigin, if_neg (by decide +kernel), if_neg (by decide), hresolve]
  have horigin : provenance Url.joinTexts "box" retriedOnce = some (.url url) := by
    show (urlOrigin _ _ _ _).toOption.join.or _ = _
    rw [hurl]
    rfl
  have hcount : (steps perform (after Url.joinTexts served []) retriedOnce).1.countP
      (·.loads "box") = 1 := by
    decide +kernel
  have hloaded : t.isLoaded "box" = true :=
    (hlaw.once [] retriedOnce rfl (.inl rfl) (by simp [retriedOnce])).2.1.mpr hcount
  refine ⟨hname, hlaw.origin.trans horigin, hloaded, fun options => ?_⟩
  rw [hlaw.request, horigin]
  exact if_pos hloaded

end Hydration.ModuleTable
