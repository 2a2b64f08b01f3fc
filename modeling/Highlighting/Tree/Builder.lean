/-
Building a tree step by step.

A node is opened, its children are added, and it is closed again.  The builder
holds the node that is open innermost and those around it, the outermost of them
being the root.  A step that cannot be done leaves the builder as it was.
-/
import Highlighting.Tree.Node

namespace Highlighting

/-- Why a step or the whole building failed. -/
inductive BuildError where
  /-- A span ends before it starts. -/
  | inverted (span : Span)
  /-- There is nothing but the root to close. -/
  | nothingOpen
  /-- Some nodes were not closed at the end. -/
  | unbalanced (stillOpen : Nat)
  deriving DecidableEq, Repr

def BuildError.message : BuildError → String
  | inverted s => s!"span {s.start}..{s.stop} ends before it starts"
  | nothingOpen => "close() called with no open node"
  | unbalanced n => s!"{n} node(s) left open at finish"

/-- A node that is still open: its label and the children so far, the latest first. -/
structure OpenNode where
  label : Label
  children : List Node := []

namespace OpenNode

def add (o : OpenNode) (n : Node) : OpenNode := { o with children := n :: o.children }

def close (o : OpenNode) : Node := .mk o.label o.children.reverse

/-- Gives the outermost of some open nodes a span; the innermost comes first. -/
def spanOutermost (s : Span) (o : OpenNode) : List OpenNode → OpenNode × List OpenNode
  | [] => ({ o with label := { o.label with span := some s } }, [])
  | parent :: outer =>
    let (parent, outer) := parent.spanOutermost s outer
    (o, parent :: outer)

end OpenNode

structure Builder where
  /-- The innermost open node. -/
  current : OpenNode
  /-- The open nodes around it, innermost first. -/
  enclosing : List OpenNode
  sourceLength : Option UInt32

namespace Builder

/-- A builder with nothing open but the root. -/
def new : Builder where
  current := { label := { kind := .unit } }
  enclosing := []
  sourceLength := none

/-- A step of building. -/
inductive Step where
  | openNode (label : Label)
  | leaf (label : Label)
  | close
  | setLength (n : UInt32)
  deriving DecidableEq, Repr

/-- The label, unless its span is inverted. -/
def checkLabel (l : Label) : Except BuildError Label :=
  match l.span with
  | some s => if s.isInverted then .error (.inverted s) else .ok l
  | none => .ok l

def openNode (b : Builder) (l : Label) : Except BuildError Builder := do
  let l ← checkLabel l
  return { b with current := { label := l }, enclosing := b.current :: b.enclosing }

def leaf (b : Builder) (l : Label) : Except BuildError Builder := do
  let l ← checkLabel l
  return { b with current := b.current.add (.leaf l) }

def close (b : Builder) : Except BuildError Builder :=
  match b.enclosing with
  | [] => .error .nothingOpen
  | parent :: outer =>
    .ok { b with current := parent.add b.current.close, enclosing := outer }

/-- The length of the source is known: the root, which may have nodes open in it, spans all of it. -/
def setLength (b : Builder) (n : UInt32) : Builder :=
  let (current, enclosing) := b.current.spanOutermost ⟨0, n⟩ b.enclosing
  { current, enclosing, sourceLength := some n }

def step (b : Builder) : Step → Except BuildError Builder
  | .openNode l => b.openNode l
  | .leaf l => b.leaf l
  | .close => b.close
  | .setLength n => .ok (b.setLength n)

/-- Does a step, or nothing if it fails. -/
def stepOrStay (b : Builder) (s : Step) : Builder :=
  match b.step s with
  | .ok b' => b'
  | .error _ => b

/-- Does the steps in turn and tells how each went. -/
def run (b : Builder) (steps : List Step) : List (Option BuildError) × Builder :=
  match steps with
  | [] => ([], b)
  | s :: rest =>
    let failure := match b.step s with
      | .ok _ => none
      | .error e => some e
    let (log, last) := (b.stepOrStay s).run rest
    (failure :: log, last)

/-- The finished tree. -/
def finish (b : Builder) : Except BuildError SyntaxTree :=
  match b.enclosing with
  | [] => .ok { root := b.current.close, sourceLength := b.sourceLength }
  | _ :: _ => .error (.unbalanced b.enclosing.length)

end Builder

end Highlighting
