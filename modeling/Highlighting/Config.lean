/-
Preferences for styles and precedence.

A configuration names kinds and says how each should look, and it may name rules
in the order they should take precedence.  Reading the text only checks its
shape; names and colours are looked at when the style table and the policy are
made.
-/
import Highlighting.Rule
import Highlighting.Style.Color
import Highlighting.Style.Table
import Highlighting.Toml.Document

namespace Highlighting

/-- How a kind should look; what is left out stays as it is by default. -/
structure Preferences where
  /-- `false` takes away the colour and all modifiers that are not fixed. -/
  enabled : Option Bool := none
  fg : Option String := none
  bold : Option Bool := none
  italic : Option Bool := none
  underline : Option Bool := none
  strikethrough : Option Bool := none
  deriving DecidableEq, Repr

/-- Preferences under the names of kinds, in the order of the names and each name there once. -/
structure Styling where
  styles : List (String × Preferences) := []
  ordered : styles.Pairwise fun a b => a.1 < b.1 := by decide
  deriving DecidableEq, Repr

namespace Styling

/-- Puts preferences where their name belongs.  Those that were under the name are gone. -/
def place (name : String) (p : Preferences) :
    List (String × Preferences) → List (String × Preferences)
  | [] => [(name, p)]
  | e :: rest =>
    if name < e.1 then (name, p) :: e :: rest
    else if name = e.1 then (name, p) :: rest
    else e :: place name p rest

theorem mem_place {name : String} {p : Preferences} {e : String × Preferences}
    {entries : List (String × Preferences)} (h : e ∈ place name p entries) :
    e = (name, p) ∨ e ∈ entries := by
  induction entries with
  | nil => exact Or.inl (List.mem_singleton.mp h)
  | cons first rest ih =>
      rw [place] at h
      by_cases hlt : name < first.1
      · rw [if_pos hlt] at h
        exact List.mem_cons.mp h
      · rw [if_neg hlt] at h
        by_cases heq : name = first.1
        · rw [if_pos heq] at h
          exact (List.mem_cons.mp h).imp_right (List.mem_cons_of_mem _)
        · rw [if_neg heq] at h
          rcases List.mem_cons.mp h with hfirst | hrest
          · exact Or.inr (hfirst ▸ List.mem_cons_self)
          · exact (ih hrest).imp_right (List.mem_cons_of_mem _)

theorem ordered_place (name : String) (p : Preferences) {entries : List (String × Preferences)}
    (h : entries.Pairwise fun a b => a.1 < b.1) :
    (place name p entries).Pairwise fun a b => a.1 < b.1 := by
  induction entries with
  | nil => exact List.pairwise_singleton _ _
  | cons first rest ih =>
      obtain ⟨hfirst, hrest⟩ := List.pairwise_cons.mp h
      rw [place]
      by_cases hlt : name < first.1
      · rw [if_pos hlt]
        refine List.pairwise_cons.mpr ⟨fun e he => ?_, h⟩
        rcases List.mem_cons.mp he with rfl | he
        · exact hlt
        · exact String.lt_trans hlt (hfirst e he)
      · rw [if_neg hlt]
        by_cases heq : name = first.1
        · rw [if_pos heq]
          refine List.pairwise_cons.mpr ⟨fun e he => ?_, hrest⟩
          show name < e.1
          rw [heq]
          exact hfirst e he
        · rw [if_neg heq]
          refine List.pairwise_cons.mpr ⟨fun e he => ?_, ih hrest⟩
          rcases mem_place he with rfl | he
          · exact Std.lt_of_le_of_ne (String.not_lt.mp hlt) (Ne.symm heq)
          · exact hfirst e he

def set (s : Styling) (name : String) (p : Preferences) : Styling where
  styles := place name p s.styles
  ordered := ordered_place name p s.ordered

/-- What is given last under a name is what is there. -/
def ofList (entries : List (String × Preferences)) : Styling :=
  entries.foldl (fun s e => s.set e.1 e.2) {}

end Styling

structure Config extends Styling where
  /-- Names of rules, the strongest first. -/
  precedence : Option (List String) := none
  deriving DecidableEq, Repr

/-! ### From the text -/

namespace Toml.Value

def toBool? : Value → Option Bool
  | boolean b => some b
  | _ => none

def toText? : Value → Option String
  | string s => some s
  | _ => none

def toTexts? : Value → Option (List String)
  | array items => items.mapM toText?
  | _ => none

/-- The value under a key, read in some way; nothing if there is none. -/
def field? {α : Type} (entries : List (String × Value)) (k : String) (read : Value → Option α) :
    Option (Option α) :=
  match entries.lookup k with
  | none => some none
  | some v => (read v).map some

/-- Whether a table has no other keys than these. -/
def onlyKeys (entries : List (String × Value)) (keys : List String) : Bool :=
  entries.all fun e => keys.contains e.1

end Toml.Value

open Toml (Value)

namespace Preferences

/-- Preferences as a table, or as a list of all six in order; a longer list is cut off. -/
def ofValue? : Value → Option Preferences
  | .table entries => do
    guard (Value.onlyKeys entries
      ["enabled", "fg", "bold", "italic", "underline", "strikethrough"])
    return {
      enabled := ← Value.field? entries "enabled" Value.toBool?
      fg := ← Value.field? entries "fg" Value.toText?
      bold := ← Value.field? entries "bold" Value.toBool?
      italic := ← Value.field? entries "italic" Value.toBool?
      underline := ← Value.field? entries "underline" Value.toBool?
      strikethrough := ← Value.field? entries "strikethrough" Value.toBool? }
  | .array (enabled :: fg :: bold :: italic :: underline :: strikethrough :: _) => do
    return {
      enabled := ← enabled.toBool?
      fg := ← fg.toText?
      bold := ← bold.toBool?
      italic := ← italic.toBool?
      underline := ← underline.toBool?
      strikethrough := ← strikethrough.toBool? }
  | _ => none

end Preferences

namespace Config

/-- The order of rules as a table, or as a list that holds it first. -/
def orderOf? : Value → Option (List String)
  | .table entries => do
    guard (Value.onlyKeys entries ["order"])
    return (← Value.field? entries "order" Value.toTexts?).getD []
  | .array [] => some []
  | .array (order :: _) => order.toTexts?
  | _ => none

def stylesOf? : Value → Option Styling
  | .table entries => do
    return .ofList (← entries.mapM fun (name, v) => (Preferences.ofValue? v).map (name, ·))
  | _ => none

def ofEntries? (entries : List (String × Value)) : Option Config := do
  guard (Value.onlyKeys entries ["styles", "precedence"])
  return {
    toStyling := (← Value.field? entries "styles" stylesOf?).getD {}
    precedence := ← Value.field? entries "precedence" orderOf? }

/-- The configuration a text describes, if it has the right shape. -/
def read? (text : String) : Option Config := do
  ofEntries? (← Toml.read? text)

/-! ### To the style table and the policy -/

inductive Error where
  | unknownKind (name : String)
  | invalidColor (cause : Color.Invalid)
  | unknownRule (name : String)
  | duplicateRule (rule : Rule)
  deriving DecidableEq, Repr

def Error.message : Error → String
  | unknownKind name => "unknown annotation kind: " ++ name
  | invalidColor cause => cause.message
  | unknownRule name => "unknown precedence rule: " ++ name
  | duplicateRule rule => "precedence rule listed twice: " ++ rule.name

end Config

namespace Preferences

/-- The modifiers of a kind: a preference goes before the default, and fixed ones stay. -/
def modifiers (p : Preferences) (base fixed : Modifiers) : Modifiers :=
  Modifiers.union
    { bold := p.bold.getD base.bold
      italic := p.italic.getD base.italic
      underlined := p.underline.getD base.underlined
      crossedOut := p.strikethrough.getD base.crossedOut }
    fixed

/-- The style of a kind with these preferences. -/
def apply (p : Preferences) (k : Kind) : Except Color.Invalid Style :=
  let fixed := StyleTable.fixedModifiers k
  if p.enabled = some false then .ok (.ofModifiers fixed)
  else do
    let base := StyleTable.defaultStyle k
    let fg ← match p.fg with
      | none => pure base.fg
      | some text => Color.read text
    return { fg := fg, modifiers := p.modifiers base.modifiers fixed }

end Preferences

namespace Config

/-- Puts the preferences under one name into a table. -/
def setStyle (t : StyleTable) (entry : String × Preferences) : Except Error StyleTable :=
  match Kind.read? entry.1 with
  | none => .error (.unknownKind entry.1)
  | some k =>
    match entry.2.apply k with
    | .error e => .error (.invalidColor e)
    | .ok s => .ok (t.set k s)

/-- The default table with all preferences put in, in the order of the names. -/
def styleTable (c : Config) : Except Error StyleTable :=
  c.styles.foldlM setStyle .default

/-- The rules some names stand for, none of them twice and none in `seen`. -/
def rulesOf (seen : List Rule) : List String → Except Error (List Rule)
  | [] => .ok []
  | name :: rest =>
    match Rule.read? name with
    | none => .error (.unknownRule name)
    | some r =>
      if seen.contains r then .error (.duplicateRule r)
      else (r :: ·) <$> rulesOf (seen ++ [r]) rest

/-- The policy that starts with the rules named. -/
def policy (c : Config) : Except Error Policy :=
  match c.precedence with
  | none => .ok .default
  | some names => Policy.ofOrder <$> rulesOf [] names

/-- The style table and the policy; of two errors, that of the table. -/
def parts (c : Config) : Except Error (StyleTable × Policy) := do
  let t ← c.styleTable
  let p ← c.policy
  return (t, p)

/-! ### From a file -/

/-- What is found where a configuration should be. -/
inductive Source where
  | missing
  | directory
  | file (bytes : ByteArray)

inductive LoadError where
  | unreadable (reason : String)
  | malformed

/-- The message of an error at a path; a text that cannot be read as a configuration has none. -/
def LoadError.message? (path : String) : LoadError → Option String
  | unreadable reason => some ("I/O error reading " ++ path ++ ": " ++ reason)
  | malformed => none

def Source.text : Source → Except LoadError String
  | missing => .error (.unreadable "No such file or directory (os error 2)")
  | directory => .error (.unreadable "Is a directory (os error 21)")
  | file bytes =>
    match String.fromUTF8? bytes with
    | some text => .ok text
    | none => .error (.unreadable "stream did not contain valid UTF-8")

def load (s : Source) : Except LoadError Config := do
  match read? (← s.text) with
  | some c => return c
  | none => .error .malformed

end Config

end Highlighting
