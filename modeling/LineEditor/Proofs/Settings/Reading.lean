import LineEditor.Proofs.Toml.Distinct
import LineEditor.Settings.Basic

/-!
# Settings that are read

The settings have one binding for each sequence at most (`Settings.IsMap`). The bindings are
not kept so by their type, but by the document, no table of which has a key twice: they are read
from a table, each under its key, and sorted.
-/

namespace LineEditor.Settings

open Toml (Entries Value)

variable {settings result : Settings} {value? : Option Value} {entries : Entries}

/-- The settings have one entry for each sequence at most. -/
def IsMap (settings : Settings) : Prop := (settings.bindings.map Prod.fst).Nodup

instance : Decidable settings.IsMap := inferInstanceAs (Decidable (List.Nodup _))

/-- Bindings stand under the keys of the table that they are read from. -/
theorem map_fst_of_mapM_binding? {bindings : List (List Char × List Char)}
    (h : entries.mapM binding? = some bindings) :
    bindings.map Prod.fst = entries.map Prod.fst := by
  induction entries generalizing bindings with
  | nil =>
    obtain rfl := Option.some_inj.1 h
    rfl
  | cons entry rest ih =>
    rw [List.mapM_cons] at h
    obtain ⟨first, hfirst, h⟩ := Option.bind_eq_some_iff.1 h
    obtain ⟨others, hothers, h⟩ := Option.bind_eq_some_iff.1 h
    obtain rfl := Option.some_inj.1 h
    obtain ⟨key, value⟩ := entry
    cases value with
    | text function =>
      obtain rfl := Option.some_inj.1 hfirst
      rw [List.map_cons, List.map_cons, ih hothers]
    | _ => cases hfirst

/-- The bindings of a table are a map, since none of its keys stands twice. -/
theorem isMap_of_withBindings? (hsettings : settings.IsMap)
    (hvalue : ∀ value ∈ value?, Value.Distinct value)
    (h : settings.withBindings? value? = some result) : result.IsMap := by
  rw [withBindings?.eq_def] at h
  split at h
  next =>
    obtain rfl := Option.some_inj.1 h
    exact hsettings
  next =>
    obtain ⟨bindings, hbindings, h⟩ := Option.bind_eq_some_iff.1 h
    obtain rfl := Option.some_inj.1 h
    have hsorted := (List.mergeSort_perm bindings fun a b => precedes a.1 b.1).map Prod.fst
    rw [IsMap, hsorted.nodup_iff, map_fst_of_mapM_binding? hbindings]
    exact (hvalue _ rfl).of_table.keys
  next =>
    obtain rfl := Option.some_inj.1 h
    exact List.nodup_singleton momentKey
  next => cases h

theorem bindings_withPrompts? (h : settings.withPrompts? value? = some result) :
    result.bindings = settings.bindings := by
  cases value? with
  | none =>
    obtain rfl := Option.some_inj.1 h
    rfl
  | some value =>
    obtain ⟨fields, -, h⟩ := Option.bind_eq_some_iff.1 h
    split at h
    next =>
      obtain ⟨_, -, h⟩ := Option.bind_eq_some_iff.1 h
      obtain ⟨_, -, h⟩ := Option.bind_eq_some_iff.1 h
      obtain rfl := Option.some_inj.1 h
      rfl
    next => cases h

theorem bindings_withHistory? (h : settings.withHistory? value? = some result) :
    result.bindings = settings.bindings := by
  cases value? with
  | none =>
    obtain rfl := Option.some_inj.1 h
    rfl
  | some value =>
    obtain ⟨fields, -, h⟩ := Option.bind_eq_some_iff.1 h
    split at h
    next =>
      obtain ⟨_, -, h⟩ := Option.bind_eq_some_iff.1 h
      obtain rfl := Option.some_inj.1 h
      rfl
    next => cases h

theorem isMap_of_ofEntries? (hentries : entries.Distinct) (h : ofEntries? entries = some settings) :
    settings.IsMap := by
  obtain ⟨fields, hfields, h⟩ := Option.bind_eq_some_iff.1 h
  split at h
  next prompt history keymap =>
    obtain ⟨prompted, hprompted, h⟩ := Option.bind_eq_some_iff.1 h
    obtain ⟨capped, hcapped, h⟩ := Option.bind_eq_some_iff.1 h
    obtain ⟨-, hfields⟩ := Option.ite_none_right_eq_some.1 hfields
    obtain ⟨-, -, rfl⟩ : _ ∧ _ ∧ entries.lookup "keymap".toList = keymap := by
      simpa using hfields
    have hnone : capped.IsMap := by
      rw [IsMap, bindings_withHistory? hcapped, bindings_withPrompts? hprompted]
      exact List.nodup_nil
    exact isMap_of_withBindings? hnone (fun _ hvalue => hentries.lookup hvalue) h
  next => cases h

/-- **Settings that are read are a map**, whatever the bytes are that they are read from. -/
theorem isMap_of_ofBytes? {bytes : List UInt8} (h : ofBytes? bytes = some settings) :
    settings.IsMap := by
  obtain ⟨text, -, h⟩ := Option.bind_eq_some_iff.1 h
  obtain ⟨entries, hentries, h⟩ := Option.bind_eq_some_iff.1 h
  exact isMap_of_ofEntries? (Entries.distinct_of_parse? hentries) h

end LineEditor.Settings
