/-
How a stretch of text looks: a foreground colour and four modifiers.
-/
namespace Highlighting

/-- The sixteen terminal colours, and any colour by its three components. -/
inductive Color where
  | black | red | green | yellow | blue | magenta | cyan | gray
  | darkGray | lightRed | lightGreen | lightYellow | lightBlue | lightMagenta | lightCyan | white
  | rgb (r g b : UInt8)
  deriving DecidableEq, Hashable, Repr

/-- The terminal colours with the names they are shown under. -/
def Color.named : List (String × Color) :=
  [("Black", .black), ("Red", .red), ("Green", .green), ("Yellow", .yellow), ("Blue", .blue),
    ("Magenta", .magenta), ("Cyan", .cyan), ("Gray", .gray), ("DarkGray", .darkGray),
    ("LightRed", .lightRed), ("LightGreen", .lightGreen), ("LightYellow", .lightYellow),
    ("LightBlue", .lightBlue), ("LightMagenta", .lightMagenta), ("LightCyan", .lightCyan),
    ("White", .white)]

/-- Modifiers of the letters themselves, each on or off. -/
structure Modifiers where
  bold : Bool := false
  italic : Bool := false
  underlined : Bool := false
  crossedOut : Bool := false
  deriving DecidableEq, Hashable, Repr

namespace Modifiers

/-- No modifier. -/
def none : Modifiers := {}

/-- What is on in either. -/
def union (m n : Modifiers) : Modifiers where
  bold := m.bold || n.bold
  italic := m.italic || n.italic
  underlined := m.underlined || n.underlined
  crossedOut := m.crossedOut || n.crossedOut

/-- The modifiers as a number below sixteen: bold 1, italic 2, underlined 4, crossed out 8. -/
def bits (m : Modifiers) : Nat :=
  m.bold.toNat + 2 * m.italic.toNat + 4 * m.underlined.toNat + 8 * m.crossedOut.toNat

/-- The modifiers a number stands for. -/
def ofBits (n : Nat) : Modifiers where
  bold := n.testBit 0
  italic := n.testBit 1
  underlined := n.testBit 2
  crossedOut := n.testBit 3

theorem ofBits_bits (m : Modifiers) : ofBits m.bits = m := by
  obtain ⟨b, i, u, c⟩ := m
  cases b <;> cases i <;> cases u <;> cases c <;> rfl

end Modifiers

structure Style where
  /-- The colour of the letters; without one they keep the colour of plain text. -/
  fg : Option Color := none
  modifiers : Modifiers := .none
  deriving DecidableEq, Hashable, Repr

namespace Style

/-- The look of text that is not highlighted. -/
def plain : Style := {}

def ofColor (c : Color) : Style := { fg := some c }

def ofModifiers (m : Modifiers) : Style := { modifiers := m }

def withColor (s : Style) (c : Option Color) : Style := { s with fg := c }

def addModifiers (s : Style) (m : Modifiers) : Style :=
  { s with modifiers := s.modifiers.union m }

def isPlain (s : Style) : Bool := s == plain

end Style

end Highlighting
