/-
The marks of a syntax tree.

Every node a rule fires on asks for a mark at its span, provided the span is there,
is not empty, lies within the source, and the node was really written.  A table
keeps the best kind asked for at each span: the one whose rule stands first in the
policy, and on a tie the one that comes first.  The table has an order of its own,
so the marks are sorted when all nodes have been visited.
-/
import Highlighting.Mark
import Highlighting.Rule
import Std.Data.HashMap

namespace Highlighting

/-- Whether a kind, with the place of the rule that gives it, is better than another one. -/
def outranks (a b : Nat × Kind) : Bool :=
  a.1 < b.1 || (a.1 == b.1 && a.2.index < b.2.index)

theorem outranks_iff (a b : Nat × Kind) :
    outranks a b = true ↔ a.1 < b.1 ∨ a.1 = b.1 ∧ a.2.index < b.2.index := by
  simp [outranks]

/-- How far the classification of a tree has come. -/
structure Sweep where
  /-- The best kind asked for at each offset and length, with the place of its rule. -/
  best : Std.HashMap (UInt32 × UInt32) (Nat × Kind) := ∅
  skipped : Nat := 0
  visited : Nat := 0

namespace Sweep

/-- A node has a kind, but may not ask for its span. -/
def skip (s : Sweep) : Sweep := { s with skipped := s.skipped + 1 }

/-- A node asks for its span; what it has found stays unless something better is there. -/
def ask (s : Sweep) (place : UInt32 × UInt32) (found : Nat × Kind) : Sweep :=
  match s.best[place]? with
  | none => { s with best := s.best.insert place found }
  | some current =>
    if outranks found current then { s with best := s.best.insert place found } else s

/-- Looks at one node. -/
def visit (p : Policy) (sourceLength : Option UInt32) (s : Sweep) (l : Label) : Sweep :=
  let s := { s with visited := s.visited + 1 }
  match p.classify l with
  | none => s
  | some found =>
    match l.span.filter fun span => !span.isEmpty && span.isWithin sourceLength with
    | none => s.skip
    | some span =>
      if l.flags.synthetic then s.skip else s.ask (span.start, span.length) found

/-- The marks for what the table holds, by position. -/
def marks (s : Sweep) : List Mark :=
  (s.best.toList.filterMap fun e => (Mark.make e.1.1 e.1.2 e.2.2).toOption).mergeSort Mark.le

end Sweep

structure Classification where
  /-- One mark per span, by position. -/
  marks : List Mark
  /-- How many nodes had a kind and might not ask for their span. -/
  skipped : Nat
  /-- How many nodes there are. -/
  visited : Nat
  deriving DecidableEq

/-- The marks of a tree under a policy. -/
def Policy.classifyTree (p : Policy) (t : SyntaxTree) : Classification :=
  let s := t.root.walk.foldl (fun s n => s.visit p t.sourceLength n.label) ({} : Sweep)
  ⟨s.marks, s.skipped, s.visited⟩

end Highlighting
