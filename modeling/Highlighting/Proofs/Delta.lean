/-
What applying a delta comes to.

`Delta.between` pairs highlights by appearance and `Delta.apply` removes them by
value, kind included, so the two need not pick the same ones.  They agree all the
same once everything is counted: of a look that is shown `s` times and wanted `w`
times, `s - w` are removed and `w - s` added, which leaves `w`.

Where what is wanted is in strict order of position, counting is enough to pin the
outcome down as a list: it looks exactly like what was wanted.
-/
import Highlighting.Proofs.Pairing

namespace Highlighting

/-! ### Order of position -/

/-- One mark starts before another, or where it starts, and is shorter. -/
def Mark.Before (a b : Mark) : Prop :=
  a.offset < b.offset ∨ a.offset = b.offset ∧ a.length < b.length

/-- Highlights in strict order of position, so that no two of them have the same span. -/
def Ordered (hs : List Highlight) : Prop := hs.Pairwise fun a b => a.toMark.Before b.toMark

theorem Mark.Before.not_sameSpan {a b : Mark} (h : a.Before b) (ho : a.offset = b.offset) :
    a.length ≠ b.length := by
  rcases h with h | ⟨-, h⟩
  · rw [ho] at h
    exact absurd h (UInt32.lt_irrefl _)
  · exact UInt32.ne_of_lt h

/-- In strict order, a span belongs to one highlight at most. -/
theorem Ordered.eq_of_sameSpan {hs : List Highlight} (h : Ordered hs) {a b : Highlight}
    (ha : a ∈ hs) (hb : b ∈ hs) (ho : a.offset = b.offset) (hl : a.length = b.length) : a = b := by
  refine List.Pairwise.forall_of_forall_of_flip
    (R := fun a b : Highlight => a.offset = b.offset → a.length = b.length → a = b)
    (fun _ _ _ _ => rfl) ?_ ?_ ha hb ho hl
  · exact List.Pairwise.imp (fun hab ho hl => absurd hl (hab.not_sameSpan ho)) h
  · exact List.Pairwise.imp (fun hab ho hl => absurd hl.symm (hab.not_sameSpan ho.symm)) h

theorem Highlight.le_of_before {a b : Highlight} (h : a.toMark.Before b.toMark) :
    a.le b = true := by
  rw [Highlight.le_iff]
  rcases h with h | ⟨ho, hl⟩
  · exact Or.inl (UInt32.lt_iff_toNat_lt.mp h)
  · exact Or.inr ⟨congrArg UInt32.toNat ho, Nat.le_of_lt (UInt32.lt_iff_toNat_lt.mp hl)⟩

theorem Highlight.sameSpan_of_le {a b : Highlight} (hab : a.le b = true) (hba : b.le a = true) :
    a.offset = b.offset ∧ a.length = b.length := by
  rw [Highlight.le_iff] at hab hba
  constructor <;> apply UInt32.toNat_inj.mp <;> omega

/-- Strict order of position is a matter of appearance alone. -/
theorem Ordered.of_appearance_eq {hs ks : List Highlight}
    (h : hs.map Highlight.appearance = ks.map Highlight.appearance) (hk : Ordered ks) :
    Ordered hs := by
  let before (a b : Appearance) : Prop :=
    a.offset < b.offset ∨ a.offset = b.offset ∧ a.length < b.length
  have hpair : (ks.map Highlight.appearance).Pairwise before := List.pairwise_map.mpr hk
  rw [← h, List.pairwise_map] at hpair
  exact hpair

namespace Delta

/-! ### The highlights after a change, counted by appearance -/

theorem between_remove_sublist (shown wanted : List Highlight) :
    (between shown wanted).remove.Sublist shown := by
  rw [between_eq_subtract]
  exact Tally.subtract_sublist _ _ _ _

theorem between_add_sublist (shown wanted : List Highlight) :
    (between shown wanted).add.Sublist wanted := by
  rw [between_eq_subtract]
  exact Tally.subtract_sublist _ _ _ _

/-- Of each look as many are removed as are shown beyond those wanted. -/
theorem count_between_remove (shown wanted : List Highlight) (k : Appearance) :
    ((between shown wanted).remove.map Highlight.appearance).count k
      = (shown.map Highlight.appearance).count k - (wanted.map Highlight.appearance).count k := by
  rw [between_eq_subtract]
  exact Tally.count_subtract _ _ _ _ k

/-- Of each look as many are added as are wanted beyond those shown. -/
theorem count_between_add (shown wanted : List Highlight) (k : Appearance) :
    ((between shown wanted).add.map Highlight.appearance).count k
      = (wanted.map Highlight.appearance).count k - (shown.map Highlight.appearance).count k := by
  rw [between_eq_subtract]
  exact Tally.count_subtract _ _ _ _ k

/-- There is nothing to change where every look is shown as often as it is wanted. -/
theorem between_eq_empty {shown wanted : List Highlight}
    (h : (shown.map Highlight.appearance).Perm (wanted.map Highlight.appearance)) :
    between shown wanted = ⟨[], []⟩ := by
  rw [between_eq_subtract, Tally.subtract_eq_nil _ _ h, Tally.subtract_eq_nil _ _ h.symm]

/-- Carrying out a change is erasing one by one, adding, and sorting. -/
def paint (d : Delta) (shown : List Highlight) : List Highlight :=
  (d.remove.foldl List.erase shown ++ d.add).mergeSort Highlight.le

theorem apply_eq_paint (d : Delta) (shown : List Highlight) : d.apply shown = d.paint shown := by
  rw [apply, paint, Tally.subtract_eq_foldl_erase]

theorem apply_sorted (d : Delta) (shown : List Highlight) :
    (d.apply shown).Pairwise fun a b => a.le b = true :=
  @List.pairwise_mergeSort _ Highlight.le (fun _ _ _ hab hbc => Highlight.le_trans hab hbc)
    Highlight.le_total _

/-- Nothing gets lost: what is removed and what is shown then are what was shown and what is
added. -/
theorem remove_append_apply_between (shown wanted : List Highlight) :
    ((between shown wanted).remove ++ (between shown wanted).apply shown).Perm
      (shown ++ (between shown wanted).add) := by
  set d := between shown wanted
  have hremove : d.remove.Subperm shown := (between_remove_sublist shown wanted).subperm
  -- What stays, together with what is removed, is all that was shown.
  have hstays : (d.remove ++ shown.diff d.remove).Perm shown :=
    List.subperm_append_diff_self_of_count_le (List.subperm_ext_iff.mp hremove)
  have hsort : (d.apply shown).Perm (shown.diff d.remove ++ d.add) := by
    rw [apply, Tally.subtract_eq_foldl_erase, ← List.diff_eq_foldl]
    exact List.mergeSort_perm _ _
  have hall := hsort.append_left d.remove
  rw [← List.append_assoc] at hall
  exact hall.trans (hstays.append_right d.add)

theorem length_apply_between (shown wanted : List Highlight) :
    ((between shown wanted).apply shown).length + (between shown wanted).remove.length =
      shown.length + (between shown wanted).add.length := by
  have hlength := (remove_append_apply_between shown wanted).length_eq
  rw [List.length_append, List.length_append] at hlength
  omega

/-- The change from what is shown to what is wanted leaves as many highlights of each look as are
wanted. -/
theorem apply_between_perm (shown wanted : List Highlight) :
    (((between shown wanted).apply shown).map Highlight.appearance).Perm
      (wanted.map Highlight.appearance) := by
  rw [List.perm_iff_count]
  intro k
  have hcount := ((remove_append_apply_between shown wanted).map Highlight.appearance).count_eq k
  have hout := count_between_remove shown wanted k
  have hin := count_between_add shown wanted k
  rw [List.map_append, List.map_append, List.count_append, List.count_append] at hcount
  omega

/-- **What is wanted is what is then shown.**  Where the wanted highlights are in strict order, the
change leaves highlights that look just like them, in their order. -/
theorem appearance_apply_between {shown wanted : List Highlight} (hw : Ordered wanted) :
    ((between shown wanted).apply shown).map Highlight.appearance
      = wanted.map Highlight.appearance := by
  let le (a b : Appearance) : Prop :=
    a.offset < b.offset ∨ a.offset = b.offset ∧ a.length ≤ b.length
  have hperm := apply_between_perm shown wanted
  refine @List.Perm.eq_of_pairwise _ le _ _ ?_ ?_ ?_ hperm
  · intro a b ha hb hab hba
    -- Both are looks of wanted highlights, and these have a span each.
    obtain ⟨x, hx, rfl⟩ := List.mem_map.mp (hperm.mem_iff.mp ha)
    obtain ⟨y, hy, rfl⟩ := List.mem_map.mp hb
    obtain ⟨ho, hl⟩ := Highlight.sameSpan_of_le (a := x) (b := y)
      (by simpa [Highlight.le, Mark.le, le, Highlight.appearance] using hab)
      (by simpa [Highlight.le, Mark.le, le, Highlight.appearance] using hba)
    rw [hw.eq_of_sameSpan hx hy ho hl]
  · refine List.pairwise_map.mpr ((apply_sorted _ _).imp fun {a b} hab => ?_)
    simpa [Highlight.le, Mark.le, le, Highlight.appearance] using hab
  · refine List.pairwise_map.mpr (List.Pairwise.imp (fun {a b} hab => ?_) hw)
    simpa [Highlight.le, Mark.le, le, Highlight.appearance] using Highlight.le_of_before hab

theorem ordered_apply_between {shown wanted : List Highlight} (hw : Ordered wanted) :
    Ordered ((between shown wanted).apply shown) :=
  Ordered.of_appearance_eq (appearance_apply_between hw) hw

/-- No change leaves highlights alone that are in order. -/
theorem apply_empty {shown : List Highlight} (hs : shown.Pairwise fun a b => a.le b = true) :
    (⟨[], []⟩ : Delta).apply shown = shown := by
  rw [apply_eq_paint, paint, List.foldl_nil, List.append_nil]
  exact List.mergeSort_of_pairwise hs

theorem apply_of_isEmpty {d : Delta} {shown : List Highlight} (hd : d.isEmpty = true)
    (hs : Ordered shown) : d.apply shown = shown := by
  obtain ⟨add, remove⟩ := d
  rw [isEmpty, Bool.and_eq_true, List.isEmpty_iff, List.isEmpty_iff] at hd
  obtain ⟨rfl, rfl⟩ := hd
  exact apply_empty (List.Pairwise.imp Highlight.le_of_before hs)

/-- Between highlights in strict order there is no change exactly if they look the same. -/
theorem isEmpty_between_iff {shown wanted : List Highlight} (hs : Ordered shown)
    (hw : Ordered wanted) : (between shown wanted).isEmpty = true ↔
      wanted.map Highlight.appearance = shown.map Highlight.appearance := by
  constructor
  · intro hempty
    have hlooks : ((between shown wanted).apply shown).map Highlight.appearance = _ :=
      appearance_apply_between hw
    rw [← hlooks, apply_of_isEmpty hempty hs]
  · intro hsame
    rw [between_eq_empty (.of_eq hsame.symm)]
    rfl

end Delta

end Highlighting
