/-
A configuration that is read has all that is in the text.

A text is free to give the names in any order, and each is put where it belongs among
those read before it.  One that was there already would be lost; but no table of a text
has a key twice, so all of them are there in the end, each with its own preferences.
-/
import Highlighting.Proofs.Config.Styles
import Highlighting.Proofs.Toml.Keys
import Mathlib

namespace Highlighting

open Toml (Value)

/-- A value found under a key has no key twice if the table has none. -/
theorem Toml.Value.Distinct.lookup {entries : List (String × Value)}
    (h : (Value.table entries).Distinct) {k : String} {v : Value}
    (hv : entries.lookup k = some v) : v.Distinct := by
  obtain ⟨before, after, rfl, -⟩ := List.lookup_eq_some_iff.mp hv
  cases h with
  | table _ h => exact h (k, v) (by simp)

/-! ### New names -/

namespace Styling

theorem place_perm {name : String} (p : Preferences) {entries : List (String × Preferences)}
    (h : name ∉ entries.map Prod.fst) : (place name p entries).Perm ((name, p) :: entries) := by
  induction entries with
  | nil => exact List.Perm.refl _
  | cons first rest ih =>
      rw [List.map_cons, List.mem_cons, not_or] at h
      rw [place, if_neg h.1]
      by_cases hlt : name < first.1
      · rw [if_pos hlt]
      · rw [if_neg hlt]
        exact ((ih h.2).cons first).trans (List.Perm.swap _ _ _)

/-- Along the entries, those that are there and those to come have all different names. -/
theorem foldl_set_perm (entries : List (String × Preferences)) :
    ∀ s : Styling, ((s.styles ++ entries).map Prod.fst).Nodup →
      (entries.foldl (fun s e => s.set e.1 e.2) s).styles.Perm (s.styles ++ entries) := by
  induction entries with
  | nil =>
      intro s _
      rw [List.append_nil]
      exact List.Perm.refl _
  | cons e rest ih =>
      intro s hnodup
      have hmiddle : (s.styles ++ e :: rest).Perm (e :: s.styles ++ rest) := List.perm_middle
      have hnodup' := (hmiddle.map Prod.fst).nodup_iff.mp hnodup
      have hnew : e.1 ∉ s.styles.map Prod.fst := by
        rw [List.cons_append, List.map_cons, List.nodup_cons, List.map_append] at hnodup'
        exact fun hmem => hnodup'.1 (List.mem_append_left _ hmem)
      have hset : ((s.set e.1 e.2).styles ++ rest).Perm (s.styles ++ e :: rest) :=
        ((place_perm e.2 hnew).append_right rest).trans hmiddle.symm
      exact (ih _ ((hset.map Prod.fst).nodup_iff.mpr hnodup)).trans hset

theorem ofList_perm {entries : List (String × Preferences)} (h : (entries.map Prod.fst).Nodup) :
    (ofList entries).styles.Perm entries :=
  foldl_set_perm entries {} h

end Styling

namespace Config

/-! ### The names of a text -/

/-- Reading the preferences leaves the names as they are. -/
theorem names_of_mapM {entries : List (String × Value)} {styles : List (String × Preferences)}
    (h : (entries.mapM fun (name, v) => (Preferences.ofValue? v).map (name, ·)) = some styles) :
    styles.map Prod.fst = entries.map Prod.fst ∧
      ∀ name p, (name, p) ∈ styles ↔
        ∃ v, (name, v) ∈ entries ∧ Preferences.ofValue? v = some p := by
  induction entries generalizing styles with
  | nil =>
      cases h
      simp
  | cons entry rest ih =>
      rw [List.mapM_cons] at h
      obtain ⟨style, hstyle, h⟩ := Option.bind_eq_some_iff.mp h
      obtain ⟨others, hothers, h⟩ := Option.bind_eq_some_iff.mp h
      cases h
      obtain ⟨p, hp, rfl⟩ := Option.map_eq_some_iff.mp hstyle
      obtain ⟨hnames, hmem⟩ := ih hothers
      rw [List.map_cons, List.map_cons, hnames]
      refine ⟨rfl, fun name p' => ?_⟩
      rw [List.mem_cons, hmem]
      constructor
      · rintro (heq | ⟨v, hv, hp'⟩)
        · cases heq
          exact ⟨entry.2, List.mem_cons_self, hp⟩
        · exact ⟨v, List.mem_cons_of_mem _ hv, hp'⟩
      · rintro ⟨v, hv, hp'⟩
        rcases List.mem_cons.mp hv with rfl | hv
        · rw [hp] at hp'
          cases hp'
          exact Or.inl rfl
        · exact Or.inr ⟨v, hv, hp'⟩

theorem mem_of_stylesOf? {v : Value} (hv : v.Distinct) {s : Styling} (h : stylesOf? v = some s) :
    ∃ entries, v = .table entries ∧ ∀ name p, (name, p) ∈ s.styles ↔
      ∃ w, (name, w) ∈ entries ∧ Preferences.ofValue? w = some p := by
  cases hv with
  | @table entries hkeys _ =>
      obtain ⟨read, hread, h⟩ := Option.bind_eq_some_iff.mp h
      cases h
      obtain ⟨hnames, hmem⟩ := names_of_mapM hread
      refine ⟨entries, rfl, fun name p => ?_⟩
      rw [(Styling.ofList_perm (by rwa [hnames])).mem_iff, hmem]
  | _ => cases h

/-- **Nothing in a text is lost.**  The preferences of a configuration that is read are all those the
text gives, under the same names; and if it gives none there are none. -/
theorem mem_styles_of_read? {text : String} {c : Config} (h : read? text = some c) :
    ∃ entries, Toml.read? text = some entries ∧
      match entries.lookup "styles" with
      | none => c.styles = []
      | some v => ∃ named, v = .table named ∧ ∀ name p, (name, p) ∈ c.styles ↔
          ∃ w, (name, w) ∈ named ∧ Preferences.ofValue? w = some p := by
  obtain ⟨entries, hentries, h⟩ := Option.bind_eq_some_iff.mp h
  have hdistinct := Toml.distinct_of_read? hentries
  obtain ⟨-, -, h⟩ := Option.bind_eq_some_iff.mp h
  obtain ⟨styles, hstyles, h⟩ := Option.bind_eq_some_iff.mp h
  obtain ⟨order, -, h⟩ := Option.bind_eq_some_iff.mp h
  cases h
  refine ⟨entries, hentries, ?_⟩
  unfold Value.field? at hstyles
  cases hlookup : entries.lookup "styles" with
  | none =>
      rw [hlookup] at hstyles
      cases hstyles
      rfl
  | some v =>
      rw [hlookup] at hstyles
      obtain ⟨s, hread, rfl⟩ := Option.map_eq_some_iff.mp hstyles
      exact mem_of_stylesOf? (hdistinct.lookup hlookup) hread

end Config

end Highlighting
