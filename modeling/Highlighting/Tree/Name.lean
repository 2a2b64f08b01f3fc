/-
The written names of node kinds.
-/
import Highlighting.Tree.Node

namespace Highlighting

def Literal.all : List Literal := [.number, .regex, .string, .boolean, .null]

def Literal.name : Literal → String
  | .number => "number"
  | .regex => "regex"
  | .string => "string"
  | .boolean => "boolean"
  | .null => "null"

def Binding.all : List Binding :=
  [.localVar, .parameter, .unresolved, .field false false, .field true false, .field false true,
    .field true true]

def Binding.name : Binding → String
  | .localVar => "local"
  | .parameter => "parameter"
  | .unresolved => "unresolved"
  | .field false false => "field"
  | .field true false => "field.static"
  | .field false true => "field.final"
  | .field true true => "field.static.final"

def Callee.all : List Callee := [.method, .static, .dynamic, .ctor, .unresolved]

def Callee.name : Callee → String
  | .method => "instance"
  | .static => "static"
  | .dynamic => "dynamic"
  | .ctor => "ctor"
  | .unresolved => "unresolved"

namespace NodeKind

/-- Every node kind. -/
def all : List NodeKind :=
  [unit, classBody, block, other, mapKey, tagMember, methodDecl false false,
    methodDecl true false, methodDecl false true, methodDecl true true] ++
    Literal.all.map literal ++ Binding.all.map varDecl ++ Binding.all.map varRef ++
    Callee.all.map call

/-- The name of a node kind; what it holds follows a colon. -/
def name : NodeKind → String
  | unit => "unit"
  | classBody => "class"
  | block => "block"
  | other => "other"
  | mapKey => "map_key"
  | tagMember => "annotation_member"
  | literal l => "literal:" ++ l.name
  | varDecl b => "var_decl:" ++ b.name
  | varRef b => "var_ref:" ++ b.name
  | methodDecl false false => "method_decl"
  | methodDecl true false => "method_decl:ctor"
  | methodDecl false true => "method_decl:static"
  | methodDecl true true => "method_decl:ctor.static"
  | call c => "call:" ++ c.name

theorem mem_all (k : NodeKind) : k ∈ all := by
  have binding (b : Binding) : b ∈ Binding.all := by
    rcases b with _ | _ | ⟨_ | _, _ | _⟩ | _ <;> decide
  cases k with
  | literal l => cases l <;> decide
  | varDecl b => simp [all, binding b]
  | varRef b => simp [all, binding b]
  | methodDecl c s => cases c <;> cases s <;> decide
  | call c => cases c <;> decide
  | _ => decide

def ofName? (s : String) : Option NodeKind :=
  all.find? (·.name == s)

end NodeKind

end Highlighting
