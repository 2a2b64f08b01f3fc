/-
The walk over a tree visits it in preorder.

A walk keeps the subtrees still to visit on a stack and puts the children of the
one it visits on top.  Whatever is on that stack, the visits still to come are the
preorders of the subtrees on it, from top to bottom: each visit takes the first node
of them off, and the walk is over when none is left.  So at any moment what was
visited and what is to come are the two parts of one list.
-/
import Highlighting.Tree.Node

namespace Highlighting

namespace Node

theorem preorderAll_append (ms ns : List Node) :
    preorderAll (ms ++ ns) = preorderAll ms ++ preorderAll ns := by
  induction ms with
  | nil => rw [List.nil_append, preorderAll, List.nil_append]
  | cons m ms ih => rw [List.cons_append, preorderAll, preorderAll, ih, List.append_assoc]

theorem preorder_eq (n : Node) : n.preorder = n :: preorderAll n.children := by
  cases n
  rw [preorder, children]

theorem preorderAll_eq_flatMap (ns : List Node) : preorderAll ns = ns.flatMap preorder := by
  induction ns with
  | nil => rw [preorderAll, List.flatMap_nil]
  | cons n rest ih => rw [preorderAll, List.flatMap_cons, ih]

end Node

namespace Walk

/-! ### One visit -/

theorem pending_of_over {w : Walk} (h : w.next? = none) : w.pending = [] := by
  simpa [next?, pending] using h

/-- A visit is to the first node in the preorders of what is on the stack, and leaves the others. -/
theorem preorderAll_of_next? {w w' : Walk} {n : Node} (h : w.next? = some (n, w')) :
    Node.preorderAll w.pending = n :: Node.preorderAll w'.pending := by
  obtain ⟨rest, hw, hw'⟩ := pending_of_next? h
  rw [hw, hw', Node.preorderAll, Node.preorderAll_append, Node.preorder_eq, List.cons_append]

/-! ### The visits that remain -/

theorem finish_eq (w : Walk) (seen : List Node) :
    w.finish seen = seen.reverse ++ Node.preorderAll w.pending := by
  fun_induction finish w seen with
  | case1 w seen hover => rw [pending_of_over hover, Node.preorderAll, List.append_nil]
  | case2 w seen n w' hnext ih =>
      rw [ih, preorderAll_of_next? hnext, List.reverse_cons, List.append_assoc,
        List.singleton_append]

/-- What is to come, at any moment of a walk. -/
theorem toList_eq_preorderAll (w : Walk) : w.toList = Node.preorderAll w.pending := by
  rw [toList, finish_eq, List.reverse_nil, List.nil_append]

theorem toList_of_next? {w w' : Walk} {n : Node} (h : w.next? = some (n, w')) :
    w.toList = n :: w'.toList := by
  rw [toList_eq_preorderAll, toList_eq_preorderAll, preorderAll_of_next? h]

/-- A walk is over exactly when nothing is to come. -/
theorem next?_eq_none_iff (w : Walk) : w.next? = none ↔ w.toList = [] := by
  cases hnext : w.next? with
  | none => simp [toList_eq_preorderAll, pending_of_over hnext, Node.preorderAll]
  | some visit =>
      obtain ⟨n, w'⟩ := visit
      simp [toList_of_next? hnext]

/-! ### Any number of visits -/

/-- The subtrees the next `k` visits are to, and the walk after them. -/
def advance : Nat → Walk → List Node × Walk
  | 0, w => ([], w)
  | k + 1, w =>
    match w.next? with
    | none => ([], w)
    | some (n, w') => (n :: (advance k w').1, (advance k w').2)

/-- After `k` visits the first `k` subtrees have been visited, and the others are to come. -/
theorem advance_splits (k : Nat) (w : Walk) :
    (w.advance k).1 = w.toList.take k ∧ (w.advance k).2.toList = w.toList.drop k := by
  induction k generalizing w with
  | zero => exact ⟨rfl, rfl⟩
  | succ k ih =>
      cases hnext : w.next? with
      | none => simp [advance, hnext, (next?_eq_none_iff w).1 hnext]
      | some visit =>
          obtain ⟨n, w'⟩ := visit
          obtain ⟨hseen, hcome⟩ := ih w'
          simp only [advance, hnext, toList_of_next? hnext, List.take_succ_cons,
            List.drop_succ_cons]
          exact ⟨by rw [hseen], hcome⟩

end Walk

namespace Node

theorem walk_eq_preorder (n : Node) : n.walk = n.preorder := by
  rw [walk, Walk.toList_eq_preorderAll]
  simp [Walk.pending, Walk.ofNode, preorderAll]

mutual

theorem length_preorder : ∀ n : Node, n.preorder.length = n.size
  | mk l cs => by
    rw [preorder, size, List.length_cons, length_preorderAll cs]
    omega

theorem length_preorderAll : ∀ ns : List Node, (preorderAll ns).length = sizeAll ns
  | [] => by rw [preorderAll, sizeAll, List.length_nil]
  | n :: rest => by
    rw [preorderAll, sizeAll, List.length_append, length_preorder n, length_preorderAll rest]

end

/-- The walk visits as many nodes as there are. -/
theorem count_eq_size (n : Node) : n.count = n.size := by
  rw [count, walk_eq_preorder, length_preorder]

end Node

end Highlighting
