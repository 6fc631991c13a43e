import Hydration.Module.Table

/-!
# Prompt modules

A table is **prompt** if every source it knows of answers at once.  Registering URLs,
requests and answers keep it so, and what is requested from a prompt table is there
without any delay (`Prompt.request`).
-/

namespace Hydration

theorem mem_insertSorted {α : Type} {name : String} {value : α} {entries : List (String × α)}
    {entry : String × α} (h : entry ∈ insertSorted name value entries) :
    entry = (name, value) ∨ entry ∈ entries := by
  induction entries with
  | nil => exact .inl (List.mem_singleton.mp h)
  | cons first entries ih =>
    rw [insertSorted] at h
    split at h
    · exact List.mem_cons.mp h
    · split at h
      · rcases List.mem_cons.mp h with h | h
        · exact .inl h
        · exact .inr (List.mem_cons_of_mem _ h)
      · rcases List.mem_cons.mp h with h | h
        · exact .inr (h ▸ List.mem_cons_self)
        · exact (ih h).imp_right (List.mem_cons_of_mem _)

namespace ModuleTable

variable {t t' : ModuleTable} {name url : String} {options : Options} {entry : ModuleEntry}

/-- **Every source answers at once.** -/
structure Prompt (t : ModuleTable) : Prop where
  entries : ∀ e ∈ t.entries, ∀ producer, e.2.origin = .source producer → producer.delay = some 0
  fallback : ∀ producer, t.fallback = some (.source producer) → producer.delay = some 0
  served : ∀ served, t.served = some served → ∀ e ∈ served, e.2.delay = some 0

theorem entry?_mem (h : t.entry? name = some entry) : (name, entry) ∈ t.entries := by
  obtain ⟨before, after, hentries, -⟩ := List.lookup_eq_some_iff.mp h
  rw [hentries]
  exact List.mem_append_right _ List.mem_cons_self

theorem Prompt.setEntry (h : t.Prompt)
    (hentry : ∀ producer, entry.origin = .source producer → producer.delay = some 0) :
    (t.setEntry name entry).Prompt where
  entries e he := by
    rcases mem_insertSorted he with rfl | he
    · exact hentry
    · exact h.entries e he
  fallback := h.fallback
  served := h.served

theorem Prompt.registerUrl (h : t.Prompt) {taken : Bool}
    (ht : t.registerUrl name url options = .ok (taken, t')) : t'.Prompt := by
  rw [ModuleTable.registerUrl] at ht
  split at ht
  · cases ht
    exact h
  · split at ht
    · cases ht
      exact h.setEntry fun _ hproducer => by cases hproducer
    · split at ht
      · cases ht
        exact h.setEntry fun _ hproducer => by cases hproducer
      · cases ht

theorem Prompt.applyAlias (h : t.Prompt) (ht : t.applyAlias name options = .ok t') : t'.Prompt := by
  rw [ModuleTable.applyAlias] at ht
  split at ht
  · cases ht
    exact h
  · cases ht
    exact h
  · next producer hfallback _ =>
    cases ht
    refine h.setEntry fun _ hproducer => ?_
    cases hproducer
    exact h.fallback _ hfallback
  · next pattern _ _ =>
    cases hregister : t.registerUrl name (pattern.replace namePlaceholder name) options with
    | error error =>
      rw [hregister] at ht
      cases ht
    | ok registered =>
      rw [hregister] at ht
      cases ht
      exact h.registerUrl hregister

theorem Prompt.consult (h : t.Prompt) (hentry : t.entry? name = some entry) :
    (t.consult name entry.origin).2.Prompt ∧
      ∀ delay answer, (t.consult name entry.origin).1 = .answered delay answer → delay = some 0 := by
  cases horigin : entry.origin with
  | source producer =>
    refine ⟨⟨h.entries, h.fallback, h.served⟩, ?_⟩
    rintro delay answer hanswer
    cases hanswer
    exact h.entries _ (entry?_mem hentry) producer horigin
  | url url =>
    rw [ModuleTable.consult, fetch]
    split
    · exact ⟨h, fun _ _ hanswer => by cases hanswer⟩
    · next served hserved =>
      dsimp only
      split
      · exact ⟨⟨h.entries, h.fallback, h.served⟩, fun _ _ hanswer => by cases hanswer⟩
      · next producer hproducer =>
        refine ⟨⟨h.entries, h.fallback, h.served⟩, ?_⟩
        rintro delay answer hanswer
        cases hanswer
        obtain ⟨before, after, hlist, -⟩ := List.lookup_eq_some_iff.mp hproducer
        exact h.served served hserved (url, producer)
          (hlist ▸ List.mem_append_right _ List.mem_cons_self)

/-- **A request** to a prompt table is answered at once, if it is answered. -/
theorem Prompt.request (h : t.Prompt) (name : String) (options : Options) :
    (t.request name options).2.Prompt ∧
    ∀ delay answer, (t.request name options).1 = .answered delay answer → delay = some 0 := by
  have hsettled : ∀ (t : ModuleTable) (result : Except ModuleError Bool), t.Prompt →
      t.Prompt ∧
        ∀ delay answer, ModuleRequest.settled result = .answered delay answer → delay = some 0 :=
    fun _ _ h => ⟨h, fun _ _ hanswer => by cases hanswer⟩
  rw [ModuleTable.request]
  split
  · exact hsettled t _ h
  · split
    · exact hsettled t _ h
    · next t' halias =>
      have h' := h.applyAlias halias
      split
      · exact hsettled t' _ h'
      · next entry hentry =>
        split
        · exact hsettled t' _ h'
        · exact h'.consult hentry

theorem Prompt.receive (h : t.Prompt) (answer : Except ModuleError ComponentModule) :
    (t.receive name answer).2.2.Prompt := by
  rw [ModuleTable.receive.eq_def]
  split
  · exact h
  · show (t.markLoaded name).Prompt
    rw [markLoaded]
    split
    · next entry hentry => exact h.setEntry (h.entries _ (entry?_mem hentry))
    · exact h

end ModuleTable

end Hydration
