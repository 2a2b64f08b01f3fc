/-
The style of each kind.

Kinds that mean much the same share a style (declarations of methods, static
methods and constructors; instance and constructor calls; locals and
parameters), so a change from one to the other is not a visible one.  Some kinds
have modifiers that no preference takes away.
-/
import Highlighting.Kind
import Highlighting.Style

namespace Highlighting

/-- A style for every kind. -/
structure StyleTable where
  style : Kind → Style

namespace StyleTable

/-- Modifiers that are part of a kind whatever the preferences say. -/
def fixedModifiers : Kind → Modifiers
  | .regexp => { italic := true }
  | .undefinedRef => { underlined := true }
  | _ => .none

def stringColor : Color := .rgb 0x2a 0x00 0xff
def variableColor : Color := .rgb 0x6a 0x3e 0x3e
def fieldColor : Color := .rgb 0x00 0x00 0xc0
def numberColor : Color := .rgb 0x7d 0x4e 0x00
def tagKeyColor : Color := .rgb 0x64 0x64 0x64
def methodColor : Color := .rgb 0x00 0x55 0x80
def dynamicColor : Color := .rgb 0x66 0x00 0x99

/-- The built-in style of a kind, its fixed modifiers apart. -/
def baseStyle : Kind → Style
  | .mapKey | .regexp => .ofColor stringColor
  | .tagKey => .ofColor tagKeyColor
  | .number => .ofColor numberColor
  | .undefinedRef => .plain
  | .deprecatedRef => .ofModifiers { crossedOut := true }
  | .localVar | .parameter => .ofColor variableColor
  | .field => .ofColor fieldColor
  | .staticField => (Style.ofColor fieldColor).addModifiers { italic := true }
  | .staticValue => (Style.ofColor fieldColor).addModifiers { bold := true, italic := true }
  | .methodDecl | .staticMethodDecl | .ctorDecl => .ofModifiers { bold := true }
  | .methodCall | .ctorCall => .ofColor methodColor
  | .dynamicCall => .ofColor dynamicColor
  | .staticCall => (Style.ofColor methodColor).addModifiers { italic := true }

/-- The built-in style of a kind. -/
def defaultStyle (k : Kind) : Style :=
  (baseStyle k).addModifiers (fixedModifiers k)

/-- The built-in table. -/
def default : StyleTable := ⟨defaultStyle⟩

def set (t : StyleTable) (k : Kind) (s : Style) : StyleTable :=
  ⟨fun l => if l = k then s else t.style l⟩

@[simp] theorem style_set_self (t : StyleTable) (k : Kind) (s : Style) :
    (t.set k s).style k = s := by simp [set]

theorem style_set_of_ne (t : StyleTable) {k l : Kind} (s : Style) (h : l ≠ k) :
    (t.set k s).style l = t.style l := by simp [set, h]

/-- Sets several styles, later entries winning over earlier ones. -/
def setAll (t : StyleTable) (entries : List (Kind × Style)) : StyleTable :=
  entries.foldl (fun t e => t.set e.1 e.2) t

/-- The table as a list, one entry per kind. -/
def toList (t : StyleTable) : List (Kind × Style) :=
  Kind.all.map fun k => (k, t.style k)

/-- Two tables are the same when they agree on every kind. -/
theorem toList_inj {t u : StyleTable} : t.toList = u.toList ↔ t = u := by
  constructor
  · intro h
    obtain ⟨f⟩ := t
    obtain ⟨g⟩ := u
    congr
    funext k
    have := (List.map_inj_left.1 h) k (Kind.mem_all k)
    exact (Prod.mk.inj this).2
  · rintro rfl; rfl

instance : DecidableEq StyleTable := fun _ _ => decidable_of_iff _ toList_inj

end StyleTable

end Highlighting
