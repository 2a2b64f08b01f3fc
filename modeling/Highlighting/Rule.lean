/-
The rules that give a node its kind, and their order of precedence.

Each rule looks at one node.  Where several fire on the same node, the first in
the order decides; a policy is such an order, and it always holds every rule.
-/
import Highlighting.Kind
import Highlighting.Tree.Node

namespace Highlighting

inductive Rule where
  | deprecated | unresolved | literal | mapKey | tagKey | localName | field | methodDecl | call
  deriving DecidableEq, Hashable, Repr

namespace Rule

/-- Every rule, in the order that holds unless another one is asked for. -/
def all : List Rule :=
  [deprecated, unresolved, literal, mapKey, tagKey, localName, field, methodDecl, call]

theorem mem_all (r : Rule) : r ∈ all := by cases r <;> decide

/-- The written name of a rule. -/
def name : Rule → String
  | deprecated => "deprecated"
  | unresolved => "unresolved"
  | literal => "literal"
  | mapKey => "map_key"
  | tagKey => "tag_key"
  | localName => "variable"
  | field => "field"
  | methodDecl => "method_decl"
  | call => "call"

/-- The name of a rule in descriptions. -/
def title : Rule → String
  | deprecated => "Deprecated"
  | unresolved => "Unresolved"
  | literal => "Literal"
  | mapKey => "MapKey"
  | tagKey => "TagKey"
  | localName => "Variable"
  | field => "Field"
  | methodDecl => "MethodDecl"
  | call => "Call"

/-- The rule a text names. -/
def read? (s : String) : Option Rule :=
  Text.readName? all name s

/-- The rule a text names; a text that names none is the error itself. -/
def read (s : String) : Except String Rule :=
  match read? s with
  | some r => .ok r
  | none => .error s

end Rule

/-- Whether the span of such a node is a name rather than a whole construct. -/
def NodeKind.isNamed : NodeKind → Bool
  | varDecl _ | varRef _ | methodDecl _ _ | call _ | tagMember => true
  | _ => false

namespace Rule

def ofUnresolved : NodeKind → Option Kind
  | .varDecl .unresolved | .varRef .unresolved | .call .unresolved => some .undefinedRef
  | _ => none

def ofLiteral : NodeKind → Option Kind
  | .literal .number => some .number
  | .literal .regex => some .regexp
  | _ => none

def ofVariable : NodeKind → Option Kind
  | .varDecl .localVar | .varRef .localVar => some .localVar
  | .varDecl .parameter | .varRef .parameter => some .parameter
  | _ => none

def ofField : NodeKind → Option Kind
  | .varDecl (.field isStatic isFinal) | .varRef (.field isStatic isFinal) =>
    some (if isStatic then (if isFinal then .staticValue else .staticField) else .field)
  | _ => none

def ofMethodDecl : NodeKind → Option Kind
  | .methodDecl isCtor isStatic =>
    some (if isCtor then .ctorDecl else if isStatic then .staticMethodDecl else .methodDecl)
  | _ => none

def ofCall : NodeKind → Option Kind
  | .call .method => some .methodCall
  | .call .static => some .staticCall
  | .call .dynamic => some .dynamicCall
  | .call .ctor => some .ctorCall
  | _ => none

/-- The kind a rule gives to a node, if it fires. -/
def apply (r : Rule) (l : Label) : Option Kind :=
  match r with
  | deprecated => if l.flags.deprecated && l.kind.isNamed then some .deprecatedRef else none
  | unresolved => ofUnresolved l.kind
  | literal => ofLiteral l.kind
  | mapKey => if l.kind = .mapKey then some .mapKey else none
  | tagKey => if l.kind = .tagMember then some .tagKey else none
  | localName => ofVariable l.kind
  | field => ofField l.kind
  | methodDecl => ofMethodDecl l.kind
  | call => ofCall l.kind

end Rule

/-! ### Policies -/

/-- An order of precedence, the strongest rule first. -/
structure Policy where
  order : List Rule
  deriving DecidableEq, Repr

namespace Policy

def default : Policy := ⟨Rule.all⟩

/-- The policy that starts with the given rules.  A repeated rule counts where it stands first,
and the rules left out follow in their default order. -/
def ofOrder (rules : List Rule) : Policy := ⟨(rules ++ Rule.all).eraseDups⟩

/-- The kind the first rule that fires gives to a node, with that rule's place in the order. -/
def classify (p : Policy) (l : Label) : Option (Nat × Kind) :=
  p.order.zipIdx.findSome? fun (rule, rank) => (rule.apply l).map (rank, ·)

end Policy

end Highlighting
