/-
Reading a whole text of the configuration format.

The text is read line by line into statements, and the statements then write the
table.  Arrays and inline tables may be nested eighty deep and may be broken into
lines; an inline table may be broken anywhere but inside a key.
-/
import Highlighting.Toml.Quoted
import Highlighting.Toml.Table
import Highlighting.Toml.Time

namespace Highlighting.Toml

/-! ### Keys -/

def isBare (c : Char) : Bool :=
  isDigit c || ('a' ≤ c && c ≤ 'z') || ('A' ≤ c && c ≤ 'Z') || c == '_' || c == '-'

/-- Reads a key without dots: a bare word or a quoted text on one line. -/
def simpleKey : Reader String
  | c :: r =>
    if isBare c then
      some (String.ofList (c :: r.takeWhile isBare), (Rest.behind c r).tail (dropTail isBare r))
    else shortQuoted (c :: r)
  | [] => none

/-- Reads the parts of a key, with blanks around its dots and behind it. -/
def keyParts (s : List Char) : Option (List String × Rest s) := do
  let (k, t) ← simpleKey s
  let u := t.tail (blanks t.1)
  match char '.' u.1 with
  | some ((), v) =>
    let w := (u.rest v).tail (blanks v.1)
    let (ks, x) ← keyParts w.1
    return (k :: ks, w.rest x)
  | none => return ([k], u)
termination_by s.length
decreasing_by exact w.2

/-- How many parts a key may have, and how deep brackets may be nested. -/
def maxDepth : Nat := 80

/-- Reads a key. -/
def key : Reader (List String) := fun s => do
  let (ks, rest) ← keyParts s
  guard (ks.length ≤ maxDepth)
  return (ks, rest)

/-! ### Values -/

/-- The characters that never stand in a word, apart from the dot. -/
def isBreak (c : Char) : Bool :=
  ['=', ',', '[', ']', '{', '}', ' ', '\t', '#', '\r', '\n'].contains c

/-- Whether another piece of a word follows, perhaps behind blanks. -/
def hasPiece (s : List Char) : Bool :=
  match s.dropWhile isBlank with
  | c :: _ => !(isBreak c || c == '.' || c == '"' || c == '\'')
  | [] => false

/-- The rest of a value that is not quoted and not bracketed.  There may be blanks inside it, but
not at its end. -/
def takeWord : List Char → List Char
  | [] => []
  | c :: r => if !isBreak c || (isBlank c && hasPiece r) then c :: takeWord r else []

/-- The value a word stands for. -/
def word? (w : List Char) : Option Value :=
  if w = ['t', 'r', 'u', 'e'] then some (.boolean true)
  else if w = ['f', 'a', 'l', 's', 'e'] then some (.boolean false)
  else if isNumber w then some (.number (String.ofList w))
  else if isTime w then some (.time (String.ofList w))
  else none

/-- Reads a word. -/
def word : Reader Value
  | c :: r => do
    guard (!isBreak c)
    let w := takeWord r
    let v ← word? (c :: w)
    return (v, ⟨r.drop w.length, by simp only [List.length_drop, List.length_cons]; omega⟩)
  | [] => none

/-- Reads a value that holds no others. -/
def simpleValue : Reader Value
  | c :: r =>
    if c = '"' ∨ c = '\'' then do
      let (text, rest) ← quoted (c :: r)
      return (.string text, rest)
    else word (c :: r)
  | [] => none

/-- Reads items with commas between them, and perhaps one behind the last, up to a closing
bracket. -/
def items {α : Type} (item : Reader α) (close : Char) (s : List Char) :
    Option (List α × Rest s) := do
  let t ← trivia s
  match char close t.1 with
  | some ((), u) => return ([], t.rest u)
  | none =>
    let (x, u) ← item t.1
    let v := (t.rest u).tail (← trivia u.1)
    match char close v.1 with
    | some ((), w) => return ([x], v.rest w)
    | none =>
      let ((), w) ← char ',' v.1
      let y := v.rest w
      let (xs, z) ← items item close y.1
      return (x :: xs, y.rest z)
termination_by s.length
decreasing_by exact y.2

/-- Reads a key and its value in an inline table. -/
def pair (value : Reader Value) : Reader (List String × Value) := fun s => do
  let (k, t) ← key s
  let u := t.tail (← trivia t.1)
  let ((), v) ← char '=' u.1
  let w := (u.rest v).tail (← trivia v.1)
  let (x, y) ← value w.1
  return ((k, x), w.rest y)

/-- Reads a value with brackets nested no deeper than the given depth. -/
def value : Nat → Reader Value
  | 0, s => simpleValue s
  | depth + 1, '[' :: r => do
    let (xs, t) ← items (value depth) ']' r
    return (.array xs, (Rest.behind '[' r).rest t)
  | depth + 1, '{' :: r => do
    let (pairs, t) ← items (pair (value depth)) '}' r
    let table ← tableOf pairs
    return (table, (Rest.behind '{' r).rest t)
  | _ + 1, s => simpleValue s

/-! ### Statements -/

inductive Statement where
  | assign (key : List String) (v : Value)
  /-- The header of a table. -/
  | header (key : List String)
  /-- The header of one more table under the same key. -/
  | another (key : List String)

def header : Reader Statement
  | '[' :: '[' :: r => do
    let s := (Rest.behindTwo '[' '[' r).tail (blanks r)
    let (k, t) ← key s.1
    let ((), u) ← char ']' t.1
    let ((), v) ← char ']' u.1
    return (.another k, ((s.rest t).rest u).rest v)
  | '[' :: r => do
    let s := (Rest.behind '[' r).tail (blanks r)
    let (k, t) ← key s.1
    let ((), u) ← char ']' t.1
    return (.header k, (s.rest t).rest u)
  | _ => none

def assignment : Reader Statement := fun s => do
  let (k, t) ← key s
  let ((), u) ← char '=' t.1
  let v := (t.rest u).tail (blanks u.1)
  let (x, w) ← value maxDepth v.1
  return (.assign k x, v.rest w)

/-- Reads a statement. -/
def statement (s : List Char) : Option (Statement × Rest s) :=
  if s.head? = some '[' then header s else assignment s

/-- Reads the statements of a text, one on a line, with any number of lines that hold none. -/
def statements (s : List Char) : Option (List Statement) := do
  let t ← trivia s
  if t.1.isEmpty then return []
  let (x, u) ← statement t.1
  let v := (t.rest u).tail (← lineEnd u.1)
  let xs ← statements v.1
  return x :: xs
termination_by s.length
decreasing_by exact v.2

/-! ### The table -/

/-- A table being written, and the path of the header that stands last. -/
structure Writing where
  draft : Draft := []
  path : List String := []

def Writing.step (w : Writing) : Statement → Option Writing
  | .assign k v => do
    let d ← w.draft.within w.path fun d => d.assign k v
    return { w with draft := d }
  | .header k => do
    let last ← k.getLast?
    let d ← w.draft.within k.dropLast (Draft.openHere last)
    return ⟨d, k⟩
  | .another k => do
    let last ← k.getLast?
    let d ← w.draft.within k.dropLast (Draft.extendHere last)
    return ⟨d, k⟩

/-- The entries a text describes, if it is well formed.  A byte order mark in front is skipped. -/
def read? (text : String) : Option (List (String × Value)) := do
  let s := match text.toList with
    | '\ufeff' :: r => r
    | s => s
  let w ← (← statements s).foldlM Writing.step {}
  return finishEntries w.draft

end Highlighting.Toml
