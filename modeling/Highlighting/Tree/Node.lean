/-
Syntax trees: nodes with a label each, and the walk over them.

A tree may be very deep, so the walk keeps the subtrees still to visit on a stack
of its own instead of recursing.  `preorder` is the recursive order it follows,
and `size` counts the nodes; both are for reasoning, the walk is what runs.
-/
import Highlighting.Span

namespace Highlighting

/-! ### Labels -/

inductive Literal where
  | number | regex | string | boolean | null
  deriving DecidableEq, Hashable, Repr

/-- What the name of a variable refers to. -/
inductive Binding where
  | localVar
  | parameter
  | field (isStatic isFinal : Bool)
  | unresolved
  deriving DecidableEq, Hashable, Repr

/-- What a call reaches. -/
inductive Callee where
  | method | static | dynamic | ctor | unresolved
  deriving DecidableEq, Hashable, Repr

inductive NodeKind where
  | unit | classBody | block | other
  | mapKey
  | tagMember
  | literal (value : Literal)
  | varDecl (binding : Binding)
  | varRef (binding : Binding)
  | methodDecl (isCtor isStatic : Bool)
  | call (callee : Callee)
  deriving DecidableEq, Hashable, Repr

/-- Properties of a node that the parser found. -/
structure Flags where
  deprecated : Bool := false
  /-- The node stands for nothing that was written. -/
  synthetic : Bool := false
  /-- The node was made up after a mistake in the text. -/
  recovered : Bool := false
  deriving DecidableEq, Hashable, Repr

namespace Flags

def none : Flags := {}

def union (f g : Flags) : Flags where
  deprecated := f.deprecated || g.deprecated
  synthetic := f.synthetic || g.synthetic
  recovered := f.recovered || g.recovered

/-- The flags as a number below eight: deprecated 1, synthetic 2, recovered 4. -/
def bits (f : Flags) : Nat :=
  f.deprecated.toNat + 2 * f.synthetic.toNat + 4 * f.recovered.toNat

def ofBits (n : Nat) : Flags where
  deprecated := n.testBit 0
  synthetic := n.testBit 1
  recovered := n.testBit 2

theorem ofBits_bits (f : Flags) : ofBits f.bits = f := by
  obtain ⟨d, s, r⟩ := f
  cases d <;> cases s <;> cases r <;> rfl

end Flags

/-- A node without its children. -/
structure Label where
  kind : NodeKind
  span : Option Span := none
  flags : Flags := .none
  deriving DecidableEq, Hashable, Repr

/-! ### Nodes -/

inductive Node where
  | mk (label : Label) (children : List Node)

namespace Node

def label : Node → Label
  | mk l _ => l

def children : Node → List Node
  | mk _ cs => cs

/-- A node without children. -/
def leaf (l : Label) : Node := mk l []

/-- The node with some flags added to its own. -/
def addFlags (n : Node) (f : Flags) : Node :=
  mk { n.label with flags := n.label.flags.union f } n.children

mutual

/-- How many nodes a tree has. -/
def size : Node → Nat
  | mk _ cs => 1 + sizeAll cs

/-- How many nodes the trees of a list have together. -/
def sizeAll : List Node → Nat
  | [] => 0
  | n :: rest => n.size + sizeAll rest

end

mutual

/-- The subtrees of a tree: itself, then those of its children from left to right. -/
def preorder : Node → List Node
  | mk l cs => mk l cs :: preorderAll cs

/-- The subtrees of the trees of a list. -/
def preorderAll : List Node → List Node
  | [] => []
  | n :: rest => n.preorder ++ preorderAll rest

end

theorem sizeAll_append (ms ns : List Node) : sizeAll (ms ++ ns) = sizeAll ms + sizeAll ns := by
  induction ms with
  | nil => simp [sizeAll]
  | cons m ms ih => simp only [List.cons_append, sizeAll, ih]; omega

theorem size_eq (n : Node) : n.size = 1 + sizeAll n.children := by
  cases n; rw [size, children]

end Node

/-! ### The walk -/

/-- A walk under way: the subtrees still to visit, the next one last. -/
structure Walk where
  stack : Array Node

namespace Walk

/-- The walk that has a whole tree to visit. -/
def ofNode (n : Node) : Walk := ⟨#[n]⟩

/--
Visits the subtree on top of the stack.  Its children go there instead, the last one
first, so that the first one is on top.
-/
def next? (w : Walk) : Option (Node × Walk) :=
  w.stack.back?.map fun n => (n, ⟨w.stack.pop ++ n.children.reverse⟩)

/-- The subtrees on the stack from top to bottom. -/
def pending (w : Walk) : List Node := w.stack.toList.reverse

theorem pending_of_next? {w w' : Walk} {n : Node} (h : w.next? = some (n, w')) :
    ∃ rest, w.pending = n :: rest ∧ w'.pending = n.children ++ rest := by
  obtain ⟨m, hm, h⟩ := Option.map_eq_some_iff.1 h
  obtain ⟨below, hbelow⟩ := Array.back?_eq_some_iff.1 hm
  cases h
  exact ⟨below.toList.reverse, by simp [pending, hbelow], by simp [pending, hbelow]⟩

/-- How many nodes the subtrees on the stack have together. -/
def size (w : Walk) : Nat := Node.sizeAll w.pending

/-- A visit takes a node off, however many subtrees it puts on the stack. -/
theorem size_lt_of_next? {w w' : Walk} {n : Node} (h : w.next? = some (n, w')) :
    w'.size < w.size := by
  obtain ⟨rest, hw, hw'⟩ := pending_of_next? h
  rw [size, size, hw, hw', Node.sizeAll, Node.sizeAll_append, Node.size_eq]
  omega

/-- Makes the visits that remain; `seen` are the subtrees visited before, latest first. -/
def finish (w : Walk) (seen : List Node) : List Node :=
  match _ : w.next? with
  | none => seen.reverse
  | some (n, w') => w'.finish (n :: seen)
termination_by w.size
decreasing_by
  exact size_lt_of_next? ‹_›

/-- The subtrees a walk has still to visit, in the order it visits them. -/
def toList (w : Walk) : List Node := w.finish []

end Walk

namespace Node

/-- The subtrees of a tree in the order the walk visits them. -/
def walk (n : Node) : List Node := (Walk.ofNode n).toList

/-- How many nodes the walk visits. -/
def count (n : Node) : Nat := n.walk.length

end Node

/-- A syntax tree, with the length of its source text where that is known. -/
structure SyntaxTree where
  root : Node
  sourceLength : Option UInt32 := none

end Highlighting
