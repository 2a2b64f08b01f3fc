/-
Trees as outlines.

An outline lists the labels of a tree in pre-order, each with its depth.  It
determines the tree: a label's children are what follows at a greater depth.
-/
import Highlighting.Tree.Node

namespace Highlighting.Node

mutual

/-- The outline of a tree whose root is at the given depth. -/
def outlineFrom (depth : Nat) : Node → List (Nat × Label)
  | mk l cs => (depth, l) :: outlineAllFrom (depth + 1) cs

/-- The outlines of several trees, one after the other. -/
def outlineAllFrom (depth : Nat) : List Node → List (Nat × Label)
  | [] => []
  | n :: rest => n.outlineFrom depth ++ outlineAllFrom depth rest

end

def outline (n : Node) : List (Nat × Label) := n.outlineFrom 0

/-- Puts a label in front of the trees that follow it; the deeper ones become its children. -/
def attach (entry : Nat × Label) (later : List (Nat × Node)) : List (Nat × Node) :=
  (entry.1, mk entry.2 ((later.takeWhile (entry.1 < ·.1)).map (·.2))) ::
    later.dropWhile (entry.1 < ·.1)

/-- The trees an outline describes, with their depths. -/
def forestOf (entries : List (Nat × Label)) : List (Nat × Node) :=
  entries.foldr attach []

/-- The tree an outline describes: the one its first label is the root of. -/
def ofOutline? (entries : List (Nat × Label)) : Option Node :=
  (forestOf entries).head?.map (·.2)

end Highlighting.Node
