/-
Carrying out a change the way a plain surface does.

A surface that keeps a list of its own takes the removals off one by one, each time
the first highlight that is equal, puts the additions behind what is left, and sorts
by position.  `Delta.apply` counts the removals first and goes through the list once.
Nothing is assumed of the change: a removal may be asked for twice, or for a highlight
that is not shown.

Position does not tell highlights at one span apart, so a sort by position leaves
their order open.  Here it is settled: at every span they stand as they stood before.
A list in order of position is determined by what it has at each span, and so there is
just one list that the outcome can be.
-/
import Highlighting.Proofs.Delta

namespace Highlighting

/-! ### Highlights at one span -/

/-- The highlights at one span, in their order. -/
def atSpan (offset length : UInt32) (hs : List Highlight) : List Highlight :=
  hs.filter fun h => h.offset == offset && h.length == length

theorem mem_atSpan {offset length : UInt32} {hs : List Highlight} {h : Highlight} :
    h ∈ atSpan offset length hs ↔ h ∈ hs ∧ h.offset = offset ∧ h.length = length := by
  simp [atSpan]

theorem atSpan_append (offset length : UInt32) (hs ks : List Highlight) :
    atSpan offset length (hs ++ ks) = atSpan offset length hs ++ atSpan offset length ks :=
  List.filter_append hs ks

theorem atSpan_atSpan (offset length : UInt32) (hs : List Highlight) :
    atSpan offset length (atSpan offset length hs) = atSpan offset length hs := by
  simp [atSpan]

theorem atSpan_cons_self (h : Highlight) (hs : List Highlight) :
    atSpan h.offset h.length (h :: hs) = h :: atSpan h.offset h.length hs := by
  simp [atSpan]

theorem atSpan_cons_inj {h : Highlight} {offset length : UInt32} {hs ks : List Highlight}
    (heq : atSpan offset length (h :: hs) = atSpan offset length (h :: ks)) :
    atSpan offset length hs = atSpan offset length ks := by
  rw [atSpan, atSpan, List.filter_cons, List.filter_cons] at heq
  by_cases hat : (h.offset == offset && h.length == length) = true
  · rw [if_pos hat, if_pos hat] at heq
    exact (List.cons.inj heq).2
  · rw [if_neg hat, if_neg hat] at heq
    exact heq

theorem mem_of_atSpan_eq {hs ks : List Highlight}
    (heq : ∀ offset length, atSpan offset length hs = atSpan offset length ks) {h : Highlight}
    (hmem : h ∈ hs) : h ∈ ks := by
  have hspan : h ∈ atSpan h.offset h.length hs := mem_atSpan.mpr ⟨hmem, rfl, rfl⟩
  rw [heq] at hspan
  exact (mem_atSpan.mp hspan).1

theorem Highlight.le_of_sameSpan {a b : Highlight} (ho : a.offset = b.offset)
    (hl : a.length = b.length) : a.le b = true := by
  rw [Highlight.le_iff, ho, hl]
  exact Or.inr ⟨rfl, Nat.le_refl _⟩

/-! ### Stable sorting -/

/-- The highlights `next` are those of `hs` in order of position, and at each span they stand as
they do in `hs`. -/
structure StablySorted (hs next : List Highlight) : Prop where
  inOrder : next.Pairwise fun a b => a.le b = true
  spans : ∀ offset length, atSpan offset length next = atSpan offset length hs

theorem stablySorted_mergeSort (hs : List Highlight) :
    StablySorted hs (hs.mergeSort Highlight.le) := by
  have htrans : ∀ a b c : Highlight, a.le b = true → b.le c = true → a.le c = true :=
    fun _ _ _ hab hbc => Highlight.le_trans hab hbc
  refine ⟨List.pairwise_mergeSort htrans Highlight.le_total hs, fun offset length => ?_⟩
  -- What stands at one span is in order anyway, so the sort keeps it as a sublist.
  have hequal : (atSpan offset length hs).Pairwise fun a b => a.le b = true := by
    refine List.pairwise_of_forall_mem_list fun a ha b hb => ?_
    obtain ⟨-, hao, hal⟩ := mem_atSpan.mp ha
    obtain ⟨-, hbo, hbl⟩ := mem_atSpan.mp hb
    exact Highlight.le_of_sameSpan (hao.trans hbo.symm) (hal.trans hbl.symm)
  have hkept : (atSpan offset length hs).Sublist (hs.mergeSort Highlight.le) :=
    List.sublist_mergeSort htrans Highlight.le_total hequal List.filter_sublist
  have hinside : (atSpan offset length (atSpan offset length hs)).Sublist
      (atSpan offset length (hs.mergeSort Highlight.le)) := hkept.filter _
  rw [atSpan_atSpan] at hinside
  have hlength := ((List.mergeSort_perm hs Highlight.le).filter
    fun h => h.offset == offset && h.length == length).length_eq
  exact (hinside.eq_of_length hlength.symm).symm

/-- In order of position, what comes first stands behind nothing. -/
theorem le_of_mem_cons {a b : Highlight} {hs : List Highlight}
    (h : (a :: hs).Pairwise fun a b => a.le b = true) (hb : b ∈ a :: hs) : a.le b = true := by
  rcases List.mem_cons.mp hb with rfl | hmem
  · exact Highlight.le_of_sameSpan rfl rfl
  · exact (List.pairwise_cons.mp h).1 b hmem

/-- A list in order of position is determined by what it has at each span. -/
theorem eq_of_atSpan_eq {hs ks : List Highlight} (hhs : hs.Pairwise fun a b => a.le b = true)
    (hks : ks.Pairwise fun a b => a.le b = true)
    (heq : ∀ offset length, atSpan offset length hs = atSpan offset length ks) : hs = ks := by
  induction hs generalizing ks with
  | nil =>
      refine (List.eq_nil_iff_forall_not_mem.mpr fun b hb => ?_).symm
      exact List.not_mem_nil (mem_of_atSpan_eq (fun offset length => (heq offset length).symm) hb)
  | cons a hs ih =>
      cases ks with
      | nil => exact absurd (mem_of_atSpan_eq heq List.mem_cons_self) List.not_mem_nil
      | cons b ks =>
          -- neither head stands behind the other, so both come first at the same span
          have hab : a.le b = true := le_of_mem_cons hhs
            (mem_of_atSpan_eq (fun offset length => (heq offset length).symm) List.mem_cons_self)
          have hba : b.le a = true := le_of_mem_cons hks (mem_of_atSpan_eq heq List.mem_cons_self)
          obtain ⟨ho, hl⟩ := Highlight.sameSpan_of_le hab hba
          have hspan := heq a.offset a.length
          rw [atSpan_cons_self, ho, hl, atSpan_cons_self] at hspan
          obtain ⟨rfl, -⟩ := List.cons.inj hspan
          rw [ih (List.pairwise_cons.mp hhs).2 (List.pairwise_cons.mp hks).2
            fun offset length => atSpan_cons_inj (heq offset length)]

theorem stablySorted_iff {hs next : List Highlight} :
    StablySorted hs next ↔ next = hs.mergeSort Highlight.le := by
  have hsorted := stablySorted_mergeSort hs
  constructor
  · intro h
    refine eq_of_atSpan_eq h.inOrder hsorted.inOrder fun offset length => ?_
    rw [h.spans, hsorted.spans]
  · rintro rfl
    exact hsorted

/-! ### Carrying out a change -/

namespace Delta

/-- **Carrying out a change is what a plain surface does with it**, whatever the change.  Take the
removals off one by one, put the additions behind what stays, and sort by position, keeping at each
span the order there is: the outcome is the one list that can come of it.  So the highlights at one
span are those that stay, in the order in which they were shown, and then those added, in the order
in which they are to be added. -/
theorem apply_eq_plain_surface (d : Delta) (shown : List Highlight) :
    let stays := d.remove.foldl List.erase shown
    d.apply shown = (stays ++ d.add).mergeSort Highlight.le ∧
    (∀ next, next = d.apply shown ↔ StablySorted (stays ++ d.add) next) ∧
    stays.Sublist shown ∧
    ∀ offset length, atSpan offset length (d.apply shown) =
      atSpan offset length stays ++ atSpan offset length d.add := by
  intro stays
  have hsorted : d.apply shown = (stays ++ d.add).mergeSort Highlight.le := apply_eq_paint d shown
  refine ⟨hsorted, fun next => ?_, ?_, fun offset length => ?_⟩
  · rw [hsorted, stablySorted_iff]
  · show (d.remove.foldl List.erase shown).Sublist shown
    rw [← List.diff_eq_foldl]
    exact List.diff_sublist shown d.remove
  · rw [hsorted, (stablySorted_mergeSort _).spans, atSpan_append]

end Delta

end Highlighting
