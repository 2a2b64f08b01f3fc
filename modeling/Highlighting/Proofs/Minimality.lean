/-
The change found leads to what is wanted, and no smaller one does.

Nothing is assumed of the lists here: they may be in any order, a highlight may occur
several times, and one span may come in several styles and kinds.  Of a look that is
shown `s` times and wanted `w` times, any change that leads there has to remove at
least `s - w` and to add at least `w - s`; `Delta.between` does no more than that.
With looks counted as multisets this is one inequality for all looks together.

Once the change is made, every look is there as often as it is wanted, so from then on
there is nothing to do, although kinds may still differ.
-/
import Highlighting.Proofs.Delta
import Mathlib

namespace Highlighting

namespace Delta

/-! ### Looks as multisets -/

/-- The looks of some highlights, each as often as it occurs. -/
def looks (hs : Multiset Highlight) : Multiset Appearance := hs.map Highlight.appearance

theorem count_looks (hs : List Highlight) (k : Appearance) :
    (looks hs).count k = (hs.map Highlight.appearance).count k := by
  rw [looks, Multiset.map_coe, Multiset.coe_count]

theorem looks_between_remove (shown wanted : List Highlight) :
    looks (between shown wanted).remove = looks shown - looks wanted := by
  ext k
  rw [Multiset.count_sub, count_looks, count_looks, count_looks, count_between_remove]

theorem looks_between_add (shown wanted : List Highlight) :
    looks (between shown wanted).add = looks wanted - looks shown := by
  ext k
  rw [Multiset.count_sub, count_looks, count_looks, count_looks, count_between_add]

/-- A change leads from what is shown to what is wanted if it removes only what is there, and then
every look is there as often as it is wanted. -/
def LeadsTo (d : Delta) (shown wanted : List Highlight) : Prop :=
  (d.remove : Multiset Highlight) ≤ shown ∧
    looks (shown - d.remove + d.add) = looks wanted

/-- What a change that leads there removes makes up for what it adds. -/
theorem LeadsTo.looks_eq {d : Delta} {shown wanted : List Highlight} (h : d.LeadsTo shown wanted) :
    looks shown + looks d.add = looks d.remove + looks wanted := by
  obtain ⟨hremove, hlooks⟩ := h
  have hstays : looks shown = looks (shown - d.remove) + looks d.remove := by
    rw [looks, looks, looks, ← Multiset.map_add, tsub_add_cancel_of_le hremove]
  have hnext : looks (shown - d.remove + d.add) = looks (shown - d.remove) + looks d.add :=
    Multiset.map_add _ _ _
  rw [← hlooks, hnext, hstays, add_comm (looks _) (looks d.remove), add_assoc]

theorem between_leadsTo (shown wanted : List Highlight) :
    (between shown wanted).LeadsTo shown wanted := by
  have hle : ((between shown wanted).remove : Multiset Highlight) ≤ shown :=
    (between_remove_sublist shown wanted).subperm
  refine ⟨hle, ?_⟩
  have hperm := Multiset.coe_eq_coe.mpr (remove_append_apply_between shown wanted)
  rw [← Multiset.coe_add, ← Multiset.coe_add] at hperm
  have hnext : (shown - (between shown wanted).remove + (between shown wanted).add :
      Multiset Highlight) = (between shown wanted).apply shown := by
    rw [tsub_add_eq_add_tsub hle, ← hperm, add_tsub_cancel_left]
  rw [hnext]
  exact Multiset.coe_eq_coe.mpr (apply_between_perm shown wanted)

/-! ### No change is smaller -/

/-- **The change found is the least one.**  Whatever else leads from what is shown to what is wanted
removes at least as much and adds at least as much.  No look is both added and removed, and what is
removed and what is added stand in the order in which they are shown and wanted. -/
theorem between_least (shown wanted : List Highlight) :
    let d := between shown wanted
    d.LeadsTo shown wanted ∧
    (∀ d' : Delta, d'.LeadsTo shown wanted →
      d.remove.length ≤ d'.remove.length ∧ d.add.length ≤ d'.add.length) ∧
    (∀ a ∈ d.add, ∀ r ∈ d.remove, a.appearance ≠ r.appearance) ∧
    d.remove.Sublist shown ∧ d.add.Sublist wanted ∧
    shown.length - d.remove.length = wanted.length - d.add.length := by
  intro d
  refine ⟨between_leadsTo shown wanted, fun d' hd' => ?_, fun a ha r hr hsame => ?_,
    between_remove_sublist shown wanted, between_add_sublist shown wanted, ?_⟩
  · have hremove : looks d.remove ≤ looks d'.remove := by
      rw [looks_between_remove, tsub_le_iff_right, ← hd'.looks_eq]
      exact le_self_add
    have hadd : looks d.add ≤ looks d'.add := by
      rw [looks_between_add, tsub_le_iff_left, hd'.looks_eq]
      exact le_add_self
    have hcards := And.intro (Multiset.card_le_card hremove) (Multiset.card_le_card hadd)
    simpa [looks] using hcards
  · have hin := List.count_pos_iff.mpr (List.mem_map_of_mem (f := Highlight.appearance) ha)
    have hout := List.count_pos_iff.mpr (List.mem_map_of_mem (f := Highlight.appearance) hr)
    rw [count_between_add] at hin
    rw [← hsame, count_between_remove] at hout
    omega
  · have hnext : (d.apply shown).length = wanted.length := by
      have hlength := (apply_between_perm shown wanted).length_eq
      rwa [List.length_map, List.length_map] at hlength
    have hlength : (d.apply shown).length + d.remove.length = shown.length + d.add.length :=
      length_apply_between shown wanted
    have hadd : d.add.length ≤ wanted.length := (between_add_sublist shown wanted).length_le
    omega

/-- Of two highlights that look the same one is wanted: another change may remove the earlier of
them, but each has to remove one. -/
theorem between_least_sameLook :
    let first : Highlight := ⟨⟨3, 4, .methodDecl, by decide⟩, .plain⟩
    let second : Highlight := ⟨⟨3, 4, .ctorDecl, by decide⟩, .plain⟩
    (⟨[], [first]⟩ : Delta).LeadsTo [first, second] [first] ∧
    (between [first, second] [first]).remove.length ≤ 1 ∧
    (between [first, second] [first]).add.length ≤ 0 := by
  intro first second
  have hleads : (⟨[], [first]⟩ : Delta).LeadsTo [first, second] [first] := by
    unfold LeadsTo looks
    decide
  exact ⟨hleads, (between_least [first, second] [first]).2.1 _ hleads⟩

/-! ### After the change there is nothing left to do -/

/-- **The change leads to what is wanted, once and for all.**  Every look is then there as often as
it is wanted, the highlights are in order of position, there is no further change to make, and
making none leaves every highlight as it is. -/
theorem between_apply_settles (shown wanted : List Highlight) :
    let next := (between shown wanted).apply shown
    (next.map Highlight.appearance).Perm (wanted.map Highlight.appearance) ∧
    next.Pairwise (fun a b => a.le b = true) ∧
    between next wanted = ⟨[], []⟩ ∧
    (between next wanted).apply next = next := by
  intro next
  have hperm := apply_between_perm shown wanted
  have hsorted := apply_sorted (between shown wanted) shown
  have hnone : between next wanted = ⟨[], []⟩ := between_eq_empty hperm
  refine ⟨hperm, hsorted, hnone, ?_⟩
  rw [hnone]
  exact apply_empty hsorted

end Delta

end Highlighting
