import Mathlib.Data.String.Basic
import Hydration.Scenario.File

/-!
# Names in scenario files

The entries of a table in a file are put in the order of their names, where of two entries with
one name the last one counts.  So the URLs of a scenario that was read stand in the order of
their names, and no name has two of them (`sorted_urls`).
-/

namespace Hydration

/-! ## Sorted entries -/

theorem mem_keys_insertSorted {α : Type} {key x : String} {value : α}
    {entries : List (String × α)} :
    x ∈ (insertSorted key value entries).map (·.1) ↔ x = key ∨ x ∈ entries.map (·.1) := by
  induction entries with
  | nil => simp [insertSorted]
  | cons first entries ih =>
    obtain ⟨k, v⟩ := first
    rw [insertSorted]
    split
    · simp
    · split
      · next hkey => simp [hkey]
      · rw [List.map_cons, List.mem_cons, ih, List.map_cons, List.mem_cons]
        tauto

theorem sorted_insertSorted {α : Type} (key : String) (value : α) {entries : List (String × α)}
    (h : (entries.map (·.1)).Pairwise (· < ·)) :
    ((insertSorted key value entries).map (·.1)).Pairwise (· < ·) := by
  induction entries with
  | nil => simp [insertSorted]
  | cons first entries ih =>
    obtain ⟨k, v⟩ := first
    obtain ⟨hk, hrest⟩ := List.pairwise_cons.mp h
    rw [insertSorted]
    split
    · next hlt =>
      refine List.pairwise_cons.mpr ⟨fun x hx => ?_, h⟩
      rcases List.mem_cons.mp hx with rfl | hx
      · exact hlt
      · exact hlt.trans (hk x hx)
    · next hnot =>
      split
      · next hkey => exact List.pairwise_cons.mpr ⟨hkey ▸ hk, hrest⟩
      · next hkey =>
        refine List.pairwise_cons.mpr ⟨fun x hx => ?_, ih hrest⟩
        rcases mem_keys_insertSorted.mp hx with rfl | hx
        · exact lt_of_le_of_ne (not_lt.mp hnot) (Ne.symm hkey)
        · exact hk x hx

theorem sorted_sortedEntries {α : Type} (entries : List (String × α)) :
    ((sortedEntries entries).map (·.1)).Pairwise (· < ·) := by
  have hfold : ∀ sorted : List (String × α), (sorted.map (·.1)).Pairwise (· < ·) →
      ((entries.foldl (fun sorted e => insertSorted e.1 e.2 sorted) sorted).map (·.1)).Pairwise
        (· < ·) := by
    induction entries with
    | nil => exact fun _ h => h
    | cons first entries ih => exact fun sorted h => ih _ (sorted_insertSorted first.1 first.2 h)
  exact hfold [] .nil

/-! ## What readers give -/

namespace Yaml.Decode

variable {α β γ : Type} {x : Decode α} {P : α → Prop} {Q : β → Prop}

/-- Whatever a reader gives has the property `P`. -/
def Yields (x : Decode α) (P : α → Prop) : Prop :=
  ∀ g n a m, (x.run g).run n = some (a, m) → P a

theorem Yields.bind {f : α → Decode β} (hx : Yields x P) (hf : ∀ a, P a → Yields (f a) Q) :
    Yields (x >>= f) Q := by
  intro g n b m h
  obtain ⟨⟨a, m'⟩, ha, h⟩ := Option.bind_eq_some_iff.mp h
  exact hf a (hx g n a m' ha) g m' b m h

theorem yields_bind {f : α → Decode β} (hf : ∀ a, Yields (f a) Q) : Yields (x >>= f) Q :=
  Yields.bind (P := fun _ => True) (fun _ _ _ _ _ => trivial) fun a _ => hf a

theorem yields_pure {a : α} (h : P a) : Yields (pure a : Decode α) P := by
  intro g n b m hb
  cases hb
  exact h

/-- The names of a table are in order. -/
theorem yields_table {read : Node → Decode γ} {node : Node} :
    Yields (table read node) fun entries => (entries.map (·.1)).Pairwise (· < ·) :=
  yields_bind fun _ => yields_bind fun entries => yields_pure (sorted_sortedEntries entries)

theorem yields_field {fields : List (String × Node)} {name : String} {default : α}
    {read : Node → Decode α} (hdefault : P default) (hread : ∀ node, Yields (read node) P) :
    Yields (field fields name default read) P := by
  refine yields_bind fun found => ?_
  cases found with
  | none => exact yields_pure hdefault
  | some node => exact hread node

end Yaml.Decode

namespace Scenario

open Yaml.Decode

/-- **The URLs of a scenario that was read** are in the order of their names, and no name has
two. -/
theorem sorted_urls {text : String} {s : Scenario} (h : ofFile text = .ok s) :
    (s.urls.map (·.1)).Pairwise (· < ·) := by
  have hdecode : ∀ node, Yields (decode node) fun s => (s.urls.map (·.1)).Pairwise (· < ·) := by
    intro node
    refine yields_bind fun fields => yields_bind fun name => yields_bind fun options =>
      yields_bind fun platform => yields_bind fun modules =>
        (yields_field .nil fun _ => yields_table).bind fun urls hurls => ?_
    exact yields_bind fun served => yields_bind fun pattern => yields_bind fun elements =>
      yields_bind fun timeline => yields_bind fun settleTime => yields_pure hurls
  rw [ofFile] at h
  split at h
  · cases h
  · next read hread =>
    split at h
    · cases h
    · obtain rfl := Except.ok.inj h
      obtain ⟨g, -, hrun⟩ := Option.bind_eq_some_iff.mp hread
      obtain ⟨⟨a, m⟩, hsome, ha⟩ := Option.map_eq_some_iff.mp hrun
      obtain rfl : a = read := ha
      exact hdecode _ g _ _ m hsome

end Scenario

end Hydration
