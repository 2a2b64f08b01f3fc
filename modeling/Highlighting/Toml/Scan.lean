/-
Reading a text from the front.

A reader that takes something off a text returns what is left together with the
proof that it is shorter, so a loop over readers ends by the length of the text.
Skipping may take nothing; then what is left is only not longer.
-/
namespace Highlighting.Toml

/-- What is left of a text when something of it has been read. -/
abbrev Rest (s : List Char) := { r : List Char // r.length < s.length }

/-- What is left of a text when something of it may have been skipped. -/
abbrev Tail (s : List Char) := { r : List Char // r.length ≤ s.length }

/-- Reads something off the front of a text, or fails. -/
abbrev Reader (α : Type) := (s : List Char) → Option (α × Rest s)

/-! ### What is left of what is left -/

section Left

variable {s : List Char}

/-- All of a text. -/
def Tail.whole (s : List Char) : Tail s := ⟨s, Nat.le_refl _⟩

/-- All of a text but its first characters. -/
def Tail.drop (n : Nat) (s : List Char) : Tail s := ⟨s.drop n, (List.drop_sublist n s).length_le⟩

def Tail.tail (t : Tail s) (u : Tail t.1) : Tail s := ⟨u.1, Nat.le_trans u.2 t.2⟩

def Tail.rest (t : Tail s) (u : Rest t.1) : Rest s := ⟨u.1, Nat.lt_of_lt_of_le u.2 t.2⟩

def Rest.tail (t : Rest s) (u : Tail t.1) : Rest s := ⟨u.1, Nat.lt_of_le_of_lt u.2 t.2⟩

def Rest.rest (t : Rest s) (u : Rest t.1) : Rest s := ⟨u.1, Nat.lt_trans u.2 t.2⟩

def Rest.toTail (t : Rest s) : Tail s := ⟨t.1, Nat.le_of_lt t.2⟩

end Left

namespace Rest

/-- What is left behind the first character. -/
def behind (c : Char) (r : List Char) : Rest (c :: r) := ⟨r, Nat.lt_succ_self _⟩

/-- What is left behind the first two characters. -/
def behindTwo (c d : Char) (r : List Char) : Rest (c :: d :: r) :=
  (behind c (d :: r)).rest (behind d r)

end Rest

def dropTail (p : Char → Bool) (s : List Char) : Tail s :=
  ⟨s.dropWhile p, (List.dropWhile_sublist p).length_le⟩

/-- Reads one expected character. -/
def char (c : Char) : Reader Unit
  | d :: r => if d = c then some ((), .behind d r) else none
  | [] => none

/-! ### Blanks, line ends and comments -/

def isBlank (c : Char) : Bool := c == ' ' || c == '\t'

/-- Skips the blanks of a line. -/
def blanks (s : List Char) : Tail s := dropTail isBlank s

/-- Whether a character may stand in a comment or a text: any but the control characters, of which
only the tab may. -/
def isPrintable (c : Char) : Bool :=
  c == '\t' || (0x20 ≤ c.toNat && c.toNat != 0x7F)

def isLineEnd (c : Char) : Bool := c == '\n' || c == '\r'

/-- Reads the end of a line; a carriage return counts only before a line feed. -/
def newline : Reader Unit
  | '\n' :: r => some ((), .behind '\n' r)
  | '\r' :: '\n' :: r => some ((), .behindTwo '\r' '\n' r)
  | _ => none

/-- Skips the comment at the front, if there is one; fails if it holds a control character. -/
def comment (s : List Char) : Option (Tail s) :=
  match s with
  | '#' :: r =>
    if (r.takeWhile fun c => !isLineEnd c).all isPrintable then
      some ((Rest.behind '#' r).tail (dropTail (fun c => !isLineEnd c) r)).toTail
    else none
  | t => some (.whole t)

/-- Skips blanks, line ends and comments. -/
def trivia (s : List Char) : Option (Tail s) := do
  let t := blanks s
  let u := t.tail (← comment t.1)
  match newline u.1 with
  | some ((), v) =>
    let w := u.rest v
    return w.toTail.tail (← trivia w.1)
  | none => return u
termination_by s.length
decreasing_by exact w.2

/-- Skips to the next line, over blanks and a comment; the text may also end. -/
def lineEnd (s : List Char) : Option (Tail s) := do
  let t := blanks s
  let u := t.tail (← comment t.1)
  if u.1.isEmpty then return u
  let ((), v) ← newline u.1
  return (u.rest v).toTail

end Highlighting.Toml
