/-
Every position of a tree is visited once.

Equal subtrees may stand at several places of a tree, so a list of subtrees does not
say which of them was visited.  A place is therefore given by the way down to it: the
number of the child to take at each node.  `placed` is the preorder with the positions
written beside it.  Its positions are those that lead somewhere, and they rise in
lexicographic order, where a node comes before what is below it; so preorder is the
order of the positions, and none comes twice.
-/
import Mathlib
import Highlighting.Proofs.Walk

namespace Highlighting

namespace Node

/-- The subtree that a position leads to, if it leads to one. -/
def subtree? (n : Node) : List Nat → Option Node
  | [] => some n
  | i :: p => n.children[i]?.bind (·.subtree? p)

mutual

/-- The subtrees in preorder, each with its position. -/
def placed : Node → List (List Nat × Node)
  | mk l cs => ([], mk l cs) :: placedFrom 0 cs

/-- The subtrees of children with their positions, where the first child has the number `i`. -/
def placedFrom (i : Nat) : List Node → List (List Nat × Node)
  | [] => []
  | n :: rest => n.placed.map (Prod.map (i :: ·) id) ++ placedFrom (i + 1) rest

end

mutual

theorem snd_placed : ∀ n : Node, n.placed.map Prod.snd = n.preorder
  | mk l cs => by rw [placed, preorder, List.map_cons, snd_placedFrom 0 cs]

theorem snd_placedFrom (i : Nat) :
    ∀ ns : List Node, (placedFrom i ns).map Prod.snd = preorderAll ns
  | [] => by rw [placedFrom, preorderAll, List.map_nil]
  | n :: rest => by
    rw [placedFrom, preorderAll, List.map_append, List.map_map, ← snd_placed n,
      snd_placedFrom (i + 1) rest]
    rfl

end

mutual

theorem mem_placed : ∀ (n : Node) (p : List Nat) (m : Node),
    (p, m) ∈ n.placed ↔ n.subtree? p = some m
  | mk l cs, [], m => by
    simp [placed, subtree?, mem_placedFrom 0 cs, eq_comm]
  | mk l cs, j :: q, m => by
    simp [placed, subtree?, mem_placedFrom 0 cs, children, Option.bind_eq_some_iff]

/-- A position below the children begins with the number of one of them. -/
theorem mem_placedFrom (i : Nat) : ∀ (ns : List Node) (p : List Nat) (m : Node),
    (p, m) ∈ placedFrom i ns ↔
      ∃ j q c, p = (i + j) :: q ∧ ns[j]? = some c ∧ c.subtree? q = some m
  | [], p, m => by simp [placedFrom]
  | n :: rest, p, m => by
    rw [placedFrom, List.mem_append, mem_placedFrom (i + 1) rest]
    constructor
    · rintro (h | ⟨j, q, c, rfl, hc, hm⟩)
      · obtain ⟨⟨q, m⟩, hq, h⟩ := List.mem_map.1 h
        cases h
        exact ⟨0, q, n, rfl, rfl, (mem_placed n q m).1 hq⟩
      · exact ⟨j + 1, q, c, by rw [Nat.add_right_comm, Nat.add_assoc], hc, hm⟩
    · rintro ⟨j, q, c, rfl, hc, hm⟩
      cases j with
      | zero =>
          cases hc
          exact .inl (List.mem_map.2 ⟨(q, m), (mem_placed n q m).2 hm, rfl⟩)
      | succ j => exact .inr ⟨j, q, c, by rw [Nat.add_right_comm, Nat.add_assoc], hc, hm⟩

end

mutual

theorem placed_increasing : ∀ n : Node, n.placed.Pairwise (·.1 < ·.1)
  | mk l cs => by
    rw [placed, List.pairwise_cons]
    refine ⟨fun x hx => ?_, placedFrom_increasing 0 cs⟩
    obtain ⟨j, q, -, hp, -⟩ := (mem_placedFrom 0 cs x.1 x.2).1 hx
    rw [hp]
    exact List.nil_lt_cons _ _

theorem placedFrom_increasing (i : Nat) :
    ∀ ns : List Node, (placedFrom i ns).Pairwise (·.1 < ·.1)
  | [] => by simp [placedFrom]
  | n :: rest => by
    rw [placedFrom, List.pairwise_append, List.pairwise_map]
    refine ⟨(placed_increasing n).imp fun h => List.cons_lt_cons_self.2 h,
      placedFrom_increasing (i + 1) rest, fun x hx y hy => ?_⟩
    -- what is below the first child is smaller than the rest at the first number already
    obtain ⟨x, -, rfl⟩ := List.mem_map.1 hx
    obtain ⟨j, q, -, hp, -⟩ := (mem_placedFrom (i + 1) rest y.1 y.2).1 hy
    rw [hp]
    exact List.Lex.rel (by omega)

end

/-- A list of the positions of a tree, each once and in order, with the subtrees there. -/
structure Surveys (n : Node) (visits : List (List Nat × Node)) : Prop where
  increasing : visits.Pairwise (·.1 < ·.1)
  mem_iff : ∀ p m, (p, m) ∈ visits ↔ n.subtree? p = some m

theorem surveys_placed (n : Node) : n.Surveys n.placed where
  increasing := n.placed_increasing
  mem_iff := n.mem_placed

/-! ### The walk -/

theorem walk_eq_cons (n : Node) : n.walk = n :: n.children.flatMap walk := by
  have hwalk : walk = preorder := funext walk_eq_preorder
  rw [hwalk, preorder_eq, preorderAll_eq_flatMap]

theorem count_eq_sum (n : Node) : n.count = 1 + (n.children.map count).sum := by
  rw [count, walk_eq_cons, List.length_cons, List.length_flatMap, Nat.add_comm]
  rfl

/--
The walk visits a tree in preorder: the root and then what the walks of its children
visit, each position once.  After `k` visits what is to come is the preorders of the
subtrees on the stack, from top to bottom, and there is no next visit exactly when
as many were made as there are nodes.
-/
theorem walk_visits_in_preorder (n : Node) :
    n.walk = n.preorder ∧
    n.walk = n :: n.children.flatMap walk ∧
    (∃ visits, visits.map Prod.snd = n.walk ∧ n.Surveys visits) ∧
    n.count = 1 + (n.children.map count).sum ∧
    ∀ k, ∃ w, (Walk.ofNode n).advance k = (n.preorder.take k, w) ∧
      w.toList = w.pending.flatMap preorder ∧
      w.toList = n.preorder.drop k ∧
      (w.next? = none ↔ n.count ≤ k) := by
  refine ⟨n.walk_eq_preorder, n.walk_eq_cons, ?_, n.count_eq_sum, fun k => ?_⟩
  · exact ⟨n.placed, by rw [snd_placed, walk_eq_preorder], n.surveys_placed⟩
  · obtain ⟨hseen, hcome⟩ := (Walk.ofNode n).advance_splits k
    have hwalk : (Walk.ofNode n).toList = n.preorder := n.walk_eq_preorder
    rw [hwalk] at hseen hcome
    refine ⟨((Walk.ofNode n).advance k).2, Prod.ext hseen rfl, ?_, hcome, ?_⟩
    · rw [Walk.toList_eq_preorderAll, preorderAll_eq_flatMap]
    · rw [Walk.next?_eq_none_iff, hcome, List.drop_eq_nil_iff, count, walk_eq_preorder]

-- after the root and its first child, a grandchild is on top of the root's second child
example : ((Walk.ofNode (mk { kind := .unit } [mk { kind := .classBody } [leaf { kind := .mapKey }],
      leaf { kind := .other }])).advance 2).2.pending.map (·.label.kind) = [.mapKey, .other] := by
  decide

end Node

end Highlighting
