/-
Taking entries off by count, and one by one.

`Tally.drop` goes by what its tally counts and by nothing else of it.  So taking off
what a longer list has is taking off for its first entry, which costs the earliest
entry with that key, and then for the rest; and seen from the list that loses
entries, its first one goes if the key is still to be had and stays otherwise.
These two readings of `Tally.subtract` are those of a search, and the counts are
those of truncated subtraction.  The one bridge from tallies to lists is
`count_ofList`.
-/
import Highlighting.Tally
import Mathlib

namespace Highlighting

namespace Tally

variable {α β κ : Type} [BEq κ] [Hashable κ]

theorem drop_sublist (key : α → κ) (xs : List α) (t : Tally κ) : (drop key t xs).Sublist xs := by
  fun_induction drop key t xs with
  | case1 => exact List.Sublist.refl _
  | case2 t x xs h ih => exact ih.cons_cons x
  | case3 t x xs n h ih => exact ih.cons x

theorem subtract_sublist (key : α → κ) (key' : β → κ) (xs : List α) (ys : List β) :
    (subtract key key' xs ys).Sublist xs :=
  drop_sublist key xs _

theorem subtract_nil (key : α → κ) (key' : β → κ) (xs : List α) :
    subtract key key' xs [] = xs := by
  rw [subtract, List.map_nil, ofList, List.foldl_nil]
  induction xs with
  | nil => rw [drop]
  | cons x xs ih => rw [drop, count_empty, ih]

variable [LawfulBEq κ]

theorem count_insert (t : Tally κ) (k l : κ) (n : Nat) :
    count (t.insert k n) l = if k == l then n else t.count l := by
  simp [count, Std.HashMap.getD_insert]

/-- What is dropped of a key is what the tally has of it, as far as there is enough. -/
theorem count_drop (key : α → κ) (xs : List α) (t : Tally κ) (k : κ) :
    ((drop key t xs).map key).count k = (xs.map key).count k - t.count k := by
  fun_induction drop key t xs with
  | case1 => simp
  | case2 t x xs h ih =>
    simp only [List.map_cons, List.count_cons, ih]
    by_cases hk : key x == k
    · have hzero : t.count k = 0 := by rw [← beq_iff_eq.mp hk]; exact h
      simp [hk, hzero]
    · simp [hk]
  | case3 t x xs n h ih =>
    rw [ih, count_insert, List.map_cons, List.count_cons]
    by_cases hk : key x == k
    · have hsucc : t.count k = n + 1 := by rw [← beq_iff_eq.mp hk]; exact h
      simp only [hk, if_true, hsucc]
      omega
    · simp [hk]

theorem count_subtract (key : α → κ) (key' : β → κ) (xs : List α) (ys : List β) (k : κ) :
    ((subtract key key' xs ys).map key).count k
      = (xs.map key).count k - (ys.map key').count k := by
  rw [subtract, count_drop, count_ofList]

/-- Where the keys are the same up to order, nothing is left. -/
theorem subtract_eq_nil (key : α → κ) (key' : β → κ) {xs : List α} {ys : List β}
    (h : (xs.map key).Perm (ys.map key')) : subtract key key' xs ys = [] := by
  rw [List.eq_nil_iff_forall_not_mem]
  intro x hx
  have hcount := count_subtract key key' xs ys (key x)
  rw [h.count_eq, Nat.sub_self] at hcount
  exact List.count_eq_zero.mp hcount (List.mem_map_of_mem hx)

/-! ### One entry after the other -/

/-- What is dropped depends on the counts alone. -/
theorem drop_congr (key : α → κ) (xs : List α) :
    ∀ {t u : Tally κ}, (∀ k, t.count k = u.count k) → drop key t xs = drop key u xs := by
  induction xs with
  | nil => intro t u _; rw [drop, drop]
  | cons x xs ih =>
      intro t u h
      rw [drop, drop, h (key x)]
      cases u.count (key x) with
      | zero => rw [ih h]
      | succ n =>
          refine ih fun k => ?_
          rw [count_insert, count_insert, h k]

/-- One more of a key in the tally costs the earliest entry with that key. -/
theorem drop_eq_drop_eraseP (key : α → κ) (k₀ : κ) (xs : List α) :
    ∀ {t u : Tally κ}, (∀ k, t.count k = u.count k + if k₀ == k then 1 else 0) →
      drop key t xs = drop key u (xs.eraseP fun x => key x == k₀) := by
  induction xs with
  | nil => intro t u _; rw [List.eraseP_nil, drop, drop]
  | cons x xs ih =>
      intro t u h
      by_cases hx : key x = k₀
      · rw [List.eraseP_cons_of_pos (by simp [hx]), drop, h (key x)]
        simp only [hx, BEq.rfl, if_true]
        refine drop_congr key xs fun k => ?_
        rw [count_insert, h k]
        by_cases hk : k₀ = k
        · simp [hk]
        · simp [hk]
      · have hne : (k₀ == key x) = false := by simp [Ne.symm hx]
        rw [List.eraseP_cons_of_neg (by simp [hx]), drop, drop, h (key x)]
        simp only [hne, Bool.false_eq_true, if_false, Nat.add_zero]
        cases u.count (key x) with
        | zero => rw [ih h]
        | succ n =>
            refine ih fun k => ?_
            rw [count_insert, count_insert, h k]
            by_cases hk : key x = k
            · simp [← hk, hne]
            · simp [hk]

/-- Each entry of the second list costs the earliest entry with its key. -/
theorem subtract_cons (key : α → κ) (key' : β → κ) (xs : List α) (y : β) (ys : List β) :
    subtract key key' xs (y :: ys)
      = subtract key key' (xs.eraseP fun x => key x == key' y) ys := by
  refine drop_eq_drop_eraseP key (key' y) xs fun k => ?_
  rw [count_ofList, count_ofList, List.map_cons, List.count_cons]

theorem subtract_eq_foldl_erase (xs ys : List κ) :
    subtract id id xs ys = ys.foldl List.erase xs := by
  induction ys generalizing xs with
  | nil => rw [subtract_nil, List.foldl_nil]
  | cons y ys ih => rw [subtract_cons, ih, List.foldl_cons, List.erase_eq_eraseP']; rfl

omit [Hashable κ] [LawfulBEq κ] in
theorem map_eraseP (key' : β → κ) (ys : List β) (k : κ) :
    (ys.eraseP fun y => key' y == k).map key' = (ys.map key').erase k := by
  rw [List.erase_eq_eraseP', List.eraseP_map]
  rfl

/-- An entry whose key is to be had goes, and uses up the earliest one that has it. -/
theorem cons_subtract_of_mem (key : α → κ) (key' : β → κ) {x : α} {ys : List β}
    (h : key x ∈ ys.map key') (xs : List α) :
    subtract key key' (x :: xs) ys
      = subtract key key' xs (ys.eraseP fun y => key' y == key x) := by
  obtain ⟨n, hn⟩ : ∃ n, (ys.map key').count (key x) = n + 1 :=
    Nat.exists_eq_succ_of_ne_zero (Nat.ne_of_gt (List.count_pos_iff.mpr h))
  rw [subtract, subtract, drop, count_ofList, hn]
  refine drop_congr key xs fun k => ?_
  rw [count_insert, count_ofList, count_ofList, map_eraseP, List.count_erase]
  by_cases hk : key x = k
  · simp [← hk, hn]
  · simp [hk]

/-- An entry whose key is not to be had stays. -/
theorem cons_subtract_of_notMem (key : α → κ) (key' : β → κ) {x : α} {ys : List β}
    (h : key x ∉ ys.map key') (xs : List α) :
    subtract key key' (x :: xs) ys = x :: subtract key key' xs ys := by
  rw [subtract, drop, count_ofList, List.count_eq_zero.mpr h, subtract]

/-- Where no key occurs twice, those entries are left whose key is not to be had. -/
theorem subtract_eq_filter (key : α → κ) (key' : β → κ) {xs : List α} (h : (xs.map key).Nodup) :
    ∀ ys : List β,
      subtract key key' xs ys = xs.filter fun x => !(ys.map key').contains (key x) := by
  induction xs with
  | nil => intro ys; rw [subtract, drop, List.filter_nil]
  | cons x xs ih =>
      intro ys
      obtain ⟨hx, hxs⟩ := List.nodup_cons.mp h
      by_cases hmem : key x ∈ ys.map key'
      · rw [cons_subtract_of_mem key key' hmem, ih hxs,
          List.filter_cons_of_neg (by simpa using hmem)]
        -- the one that is used up has the key of `x`, and no later entry has it
        refine List.filter_congr fun y hy => ?_
        have hne : key y ≠ key x := fun heq => hx (heq ▸ List.mem_map_of_mem hy)
        rw [map_eraseP, Bool.eq_iff_iff]
        simp [List.mem_erase_of_ne hne]
      · rw [cons_subtract_of_notMem key key' hmem, ih hxs,
          List.filter_cons_of_pos (by simpa using hmem)]

end Tally

end Highlighting
