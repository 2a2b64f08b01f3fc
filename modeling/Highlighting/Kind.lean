/-
The semantic kinds a stretch of source text can have.

Their order is the order of declaration.  It settles ties when two nodes with
the same span and the same precedence disagree on the kind.
-/
import Highlighting.Text.Name

namespace Highlighting

inductive Kind where
  | mapKey | tagKey | number | regexp | undefinedRef | deprecatedRef
  | localVar | parameter | field | staticField | staticValue
  | methodDecl | staticMethodDecl | ctorDecl
  | methodCall | ctorCall | dynamicCall | staticCall
  deriving DecidableEq, Hashable, Repr

namespace Kind

/-- Every kind, in order. -/
def all : List Kind :=
  [mapKey, tagKey, number, regexp, undefinedRef, deprecatedRef, localVar, parameter, field,
    staticField, staticValue, methodDecl, staticMethodDecl, ctorDecl, methodCall, ctorCall,
    dynamicCall, staticCall]

theorem mem_all (k : Kind) : k ∈ all := by cases k <;> decide

/-- The written name of a kind. -/
def name : Kind → String
  | mapKey => "map_key"
  | tagKey => "tag_key"
  | number => "number"
  | regexp => "regexp"
  | undefinedRef => "undefined_ref"
  | deprecatedRef => "deprecated_ref"
  | localVar => "local_var"
  | parameter => "parameter"
  | field => "field"
  | staticField => "static_field"
  | staticValue => "static_value"
  | methodDecl => "method_decl"
  | staticMethodDecl => "static_method_decl"
  | ctorDecl => "ctor_decl"
  | methodCall => "method_call"
  | ctorCall => "ctor_call"
  | dynamicCall => "dynamic_call"
  | staticCall => "static_call"

/-- The place of a kind in the order. -/
def index : Kind → Nat
  | mapKey => 0
  | tagKey => 1
  | number => 2
  | regexp => 3
  | undefinedRef => 4
  | deprecatedRef => 5
  | localVar => 6
  | parameter => 7
  | field => 8
  | staticField => 9
  | staticValue => 10
  | methodDecl => 11
  | staticMethodDecl => 12
  | ctorDecl => 13
  | methodCall => 14
  | ctorCall => 15
  | dynamicCall => 16
  | staticCall => 17

theorem getElem?_all_index (k : Kind) : all[k.index]? = some k := by cases k <;> rfl

theorem index_injective {k l : Kind} (h : k.index = l.index) : k = l := by
  have hk := getElem?_all_index k
  rw [h, getElem?_all_index l] at hk
  exact (Option.some.inj hk).symm

/-- A text that names no kind, kept as it was written. -/
structure Unknown where
  text : String
  deriving DecidableEq, Repr

def Unknown.message (e : Unknown) : String :=
  "unknown semantic kind: " ++ e.text

/-- The kind a text names. -/
def read? (s : String) : Option Kind :=
  Text.readName? all name s

/-- The kind a text names, or the text itself as the reason there is none. -/
def read (s : String) : Except Unknown Kind :=
  match read? s with
  | some k => .ok k
  | none => .error ⟨s⟩

end Kind

end Highlighting
