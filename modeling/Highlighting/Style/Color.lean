/-
Colours as people write them.

A colour is written as `#rgb` or `#rrggbb`, by name, or as one of the three
words that ask for no colour at all.  Two things are easy to overlook.  A
two-character component may have a plus sign for its first digit, as numbers
elsewhere may.  And names are compared in Unicode lower case, in which just one
character outside ASCII, the Kelvin sign, becomes an ASCII letter.
-/
import Highlighting.Style
import Highlighting.Text.Blank

namespace Highlighting.Color

/-- A text that is no colour, without the blanks around it. -/
structure Invalid where
  text : String
  deriving DecidableEq, Repr

def Invalid.message (e : Invalid) : String :=
  "invalid color format: " ++ e.text

/-! ### Components -/

/-- The value of a hexadecimal digit of either case. -/
def digit? (c : Char) : Option UInt8 :=
  if '0' ≤ c ∧ c ≤ '9' then some (c.toNat - '0'.toNat).toUInt8
  else if 'a' ≤ c ∧ c ≤ 'f' then some (c.toNat - 'a'.toNat + 10).toUInt8
  else if 'A' ≤ c ∧ c ≤ 'F' then some (c.toNat - 'A'.toNat + 10).toUInt8
  else none

/-- A component of two characters: two digits, or a plus sign and one digit. -/
def component? (a b : Char) : Option UInt8 :=
  if a = '+' then digit? b
  else do
    let hi ← digit? a
    let lo ← digit? b
    return hi * 16 + lo

/-- The colour written after a `#`: three components of two characters, or of one written twice. -/
def ofHex? : List Char → Option Color
  | [r, g, b] => return .rgb (← component? r r) (← component? g g) (← component? b b)
  | [r, r', g, g', b, b'] =>
    return .rgb (← component? r r') (← component? g g') (← component? b b')
  | _ => none

/-! ### Names -/

/-- Unicode lower case as far as it leads into ASCII. -/
def lower (c : Char) : Char :=
  if c = '\u212a' then 'k' else c.toLower

/-- A name in lower case without dashes and underscores. -/
def squeeze (s : List Char) : String :=
  String.ofList ((s.map lower).filter fun c => c != '-' && c != '_')

/-- The colour with a name.  Gray may be spelled in either way. -/
def ofName? (s : List Char) : Option Color :=
  match squeeze s with
  | "black" => some .black
  | "red" => some .red
  | "green" => some .green
  | "yellow" => some .yellow
  | "blue" => some .blue
  | "magenta" => some .magenta
  | "cyan" => some .cyan
  | "gray" | "grey" => some .gray
  | "darkgray" | "darkgrey" => some .darkGray
  | "lightred" => some .lightRed
  | "lightgreen" => some .lightGreen
  | "lightyellow" => some .lightYellow
  | "lightblue" => some .lightBlue
  | "lightmagenta" => some .lightMagenta
  | "lightcyan" => some .lightCyan
  | "white" => some .white
  | _ => none

/-! ### The reader -/

/-- The words that ask for no colour, in any ASCII case. -/
def isAbsent (s : List Char) : Bool :=
  ["default", "reset", "none"].contains (String.ofList (s.map Char.toLower))

/-- The colour a text asks for, `none` when it asks for no colour. -/
def read (s : String) : Except Invalid (Option Color) :=
  let t := Text.trim s.toList
  let found :=
    if isAbsent t then some none
    else match t with
      | '#' :: hex => (ofHex? hex).map some
      | name => (ofName? name).map some
  match found with
  | some c => .ok c
  | none => .error ⟨String.ofList t⟩

end Highlighting.Color
