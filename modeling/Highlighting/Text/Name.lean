/-
Names as people write them.

Kinds and rules have one written name each, in lower case with underscores.  A
reader takes the name in any ASCII case, with dashes for underscores, and with
blanks around it; `canonical` undoes all three.
-/
import Highlighting.Text.Blank

namespace Highlighting.Text

/-- How one character of a name is read: ASCII letters in lower case, a dash as an underscore. -/
def foldName (c : Char) : Char :=
  if c = '-' then '_' else c.toLower

/-- The name a text stands for. -/
def canonical (s : String) : String :=
  String.ofList ((trim s.toList).map foldName)

/-- The first of `all` whose name the text stands for. -/
def readName? {α : Type} (all : List α) (name : α → String) (s : String) : Option α :=
  all.find? fun a => name a == canonical s

end Highlighting.Text
