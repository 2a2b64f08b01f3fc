/-
Quoted texts: in double quotes with escapes, in single quotes without, and both
of them over several lines between three quotes.
-/
import Highlighting.Toml.Scan

namespace Highlighting.Toml

/-! ### Escapes -/

def hexDigit? (c : Char) : Option Nat :=
  if '0' ≤ c ∧ c ≤ '9' then some (c.toNat - '0'.toNat)
  else if 'a' ≤ c ∧ c ≤ 'f' then some (c.toNat - 'a'.toNat + 10)
  else if 'A' ≤ c ∧ c ≤ 'F' then some (c.toNat - 'A'.toNat + 10)
  else none

/-- The number some hexadecimal digits stand for. -/
def hexNumber? (digits : List Char) : Option Nat :=
  digits.foldlM (fun n c => (hexDigit? c).map (16 * n + ·)) 0

/-- The character with the code some hexadecimal digits give; surrogates are none. -/
def hexChar? (digits : List Char) : Option Char := do
  let n ← hexNumber? digits
  if n.isValidChar then some (Char.ofNat n) else none

/-- Reads an escape of `n` hexadecimal digits behind the letter that announces them. -/
def hexEscape (letter : Char) (n : Nat) (r : List Char) : Option (Char × Rest (letter :: r)) := do
  if r.length < n then none
  else return (← hexChar? (r.take n), (Rest.behind letter r).tail (.drop n r))

/-- Reads the part of an escape behind the backslash. -/
def escape : Reader Char
  | 'b' :: r => some ('\x08', .behind 'b' r)
  | 't' :: r => some ('\t', .behind 't' r)
  | 'n' :: r => some ('\n', .behind 'n' r)
  | 'f' :: r => some ('\x0c', .behind 'f' r)
  | 'r' :: r => some ('\r', .behind 'r' r)
  | 'e' :: r => some ('\x1b', .behind 'e' r)
  | '"' :: r => some ('"', .behind '"' r)
  | '\\' :: r => some ('\\', .behind '\\' r)
  | 'x' :: r => hexEscape 'x' 2 r
  | 'u' :: r => hexEscape 'u' 4 r
  | 'U' :: r => hexEscape 'U' 8 r
  | _ => none

/-! ### Texts on one line -/

/-- Reads the rest of a text in double quotes, the closing one included. -/
def basicText (s : List Char) : Option (List Char × Rest s) :=
  match s with
  | [] => none
  | '"' :: r => some ([], .behind '"' r)
  | '\\' :: r => do
    let (c, t) ← escape r
    let u := (Rest.behind '\\' r).rest t
    let (cs, v) ← basicText u.1
    return (c :: cs, u.rest v)
  | c :: r =>
    if isPrintable c then do
      let u := Rest.behind c r
      let (cs, v) ← basicText u.1
      return (c :: cs, u.rest v)
    else none
termination_by s.length
decreasing_by all_goals exact u.2

/-- Reads the rest of a text in single quotes, the closing one included. -/
def literalText : Reader (List Char)
  | [] => none
  | '\'' :: r => some ([], .behind '\'' r)
  | c :: r =>
    if isPrintable c then do
      let (cs, t) ← literalText r
      return (c :: cs, (Rest.behind c r).rest t)
    else none

/-! ### Texts over several lines -/

/-- Reads three closing quotes, and before them up to two quotes that belong to the text. -/
def closing (q : Char) : Reader (List Char)
  | a :: b :: c :: r =>
    if a = q ∧ b = q ∧ c = q then
      match r with
      | d :: e :: t =>
        if d = q ∧ e = q then some ([q, q], ⟨t, by simp only [List.length_cons]; omega⟩)
        else if d = q then some ([q], ⟨e :: t, by simp only [List.length_cons]; omega⟩)
        else some ([], ⟨d :: e :: t, by simp only [List.length_cons]; omega⟩)
      | [d] =>
        if d = q then some ([q], ⟨[], by simp only [List.length_cons, List.length_nil]; omega⟩)
        else some ([], ⟨[d], by simp only [List.length_cons, List.length_nil]; omega⟩)
      | [] => some ([], ⟨[], by simp only [List.length_cons, List.length_nil]; omega⟩)
    else none
  | _ => none

/-- Skips the line end right behind three opening quotes. -/
def openingLine (s : List Char) : Tail s :=
  match newline s with
  | some ((), r) => r.toTail
  | none => .whole s

/-- Skips blanks and line ends. -/
def margin (s : List Char) : Tail s :=
  let t := blanks s
  match newline t.1 with
  | some ((), u) =>
    let v := t.rest u
    v.toTail.tail (margin v.1)
  | none => t
termination_by s.length
decreasing_by exact v.2

/-- Reads the part of a continued line behind its backslash: the rest of the line, which must be
blank, and the margin of the text that goes on. -/
def continued (s : List Char) : Option (Rest s) := do
  let t := blanks s
  let ((), u) ← newline t.1
  return (t.rest u).tail (margin u.1)

/-- One piece of a text over several lines. -/
def piece (escapes : Bool) : Reader (List Char)
  | '\\' :: r =>
    if escapes then
      match r with
      | c :: t =>
        if isBlank c || isLineEnd c then do
          return ([], (Rest.behind '\\' (c :: t)).rest (← continued (c :: t)))
        else do
          let (d, u) ← escape (c :: t)
          return ([d], (Rest.behind '\\' (c :: t)).rest u)
      | [] => none
    else some (['\\'], .behind '\\' r)
  | '\r' :: '\n' :: r => some (['\r', '\n'], .behindTwo '\r' '\n' r)
  | c :: r => if c = '\n' ∨ isPrintable c then some ([c], .behind c r) else none
  | [] => none

/-- Reads the rest of a text over several lines, the closing quotes included. -/
def longText (q : Char) (escapes : Bool) (s : List Char) : Option (List Char × Rest s) :=
  match closing q s with
  | some (quotes, r) => some (quotes, r)
  | none => do
    let (cs, t) ← piece escapes s
    let (ds, u) ← longText q escapes t.1
    return (cs ++ ds, t.rest u)
termination_by s.length
decreasing_by exact t.2

/-! ### Any quoted text -/

/-- Reads a text on one line in quotes of either kind. -/
def shortQuoted : Reader String
  | '"' :: r => do
    let (cs, t) ← basicText r
    return (String.ofList cs, (Rest.behind '"' r).rest t)
  | '\'' :: r => do
    let (cs, t) ← literalText r
    return (String.ofList cs, (Rest.behind '\'' r).rest t)
  | _ => none

/-- Reads a quoted text of any of the four kinds. -/
def quoted : Reader String
  | q :: b :: c :: r =>
    if (q = '"' ∨ q = '\'') ∧ b = q ∧ c = q then do
      let t := ((Rest.behindTwo q b (c :: r)).rest (.behind c r)).tail (openingLine r)
      let (cs, u) ← longText q (q = '"') t.1
      return (String.ofList cs, t.rest u)
    else shortQuoted (q :: b :: c :: r)
  | s => shortQuoted s

end Highlighting.Toml
