/-
Tables while they are being written.

A table may be spread over a text: it can come from a header, from a dotted key,
or just from standing on the way to another one.  Where it came from decides who
may still add to it.  Values, inline tables among them, are closed.
-/
import Highlighting.Toml.Value

namespace Highlighting.Toml

/-- Where a table came from. -/
inductive Origin where
  /-- It stands on the way of a header and has none of its own yet. -/
  | implied
  /-- It was made by a dotted key. -/
  | dotted
  /-- It has its own header. -/
  | headed
  deriving DecidableEq, Repr

inductive Item where
  | value (v : Value)
  | table (origin : Origin) (entries : List (String × Item))
  /-- Tables under one doubled header, the latest first. -/
  | tables (elements : List (List (String × Item)))

/-- The entries of a table that is being written. -/
abbrev Draft := List (String × Item)

namespace Draft

def has (d : Draft) (k : String) : Bool := d.any (·.1 == k)

def get? (d : Draft) (k : String) : Option Item := d.lookup k

/-- Replaces the item under a key. -/
def replace (d : Draft) (k : String) (i : Item) : Draft :=
  d.map fun e => if e.1 == k then (k, i) else e

/-- Adds an item under a new key. -/
def put (d : Draft) (k : String) (i : Item) : Draft := d ++ [(k, i)]

/-- Gives a key a value.  A dotted key makes the tables it needs; it may go through tables that are
only implied and add to those that dotted keys made, but not to one with a header. -/
def assign (d : Draft) (key : List String) (v : Value) : Option Draft :=
  match key with
  | [] => none
  | [k] => if d.has k then none else some (d.put k (.value v))
  | k :: l :: rest =>
    match d.get? k with
    | none => do
      let inner ← assign [] (l :: rest) v
      return d.put k (.table .dotted inner)
    | some (.table origin entries) => do
      guard (origin = .dotted ∨ origin = .implied ∧ rest ≠ [])
      let inner ← assign entries (l :: rest) v
      return d.replace k (.table origin inner)
    | some _ => none

/-- Changes the table a path leads to; tables on the way are implied if they are missing. -/
def within (d : Draft) (path : List String) (change : Draft → Option Draft) : Option Draft :=
  match path with
  | [] => change d
  | k :: rest =>
    match d.get? k with
    | none => do
      let inner ← within [] rest change
      return d.put k (.table .implied inner)
    | some (.table origin entries) => do
      let inner ← within entries rest change
      return d.replace k (.table origin inner)
    | some (.tables (latest :: earlier)) => do
      let inner ← within latest rest change
      return d.replace k (.tables (inner :: earlier))
    | some _ => none

/-- Opens the table under a key by its header; it may have been implied before, nothing else. -/
def openHere (k : String) (d : Draft) : Option Draft :=
  match d.get? k with
  | none => some (d.put k (.table .headed []))
  | some (.table .implied entries) => some (d.replace k (.table .headed entries))
  | some _ => none

/-- Opens one more of the tables under a key by its doubled header. -/
def extendHere (k : String) (d : Draft) : Option Draft :=
  match d.get? k with
  | none => some (d.put k (.tables [[]]))
  | some (.tables elements) => some (d.replace k (.tables ([] :: elements)))
  | some _ => none

end Draft

mutual

/-- The finished value of an item. -/
def Item.finish : Item → Value
  | .value v => v
  | .table _ entries => .table (finishEntries entries)
  | .tables elements => .array (finishTables elements).reverse

/-- The finished entries of a table. -/
def finishEntries : List (String × Item) → List (String × Value)
  | [] => []
  | (k, i) :: rest => (k, i.finish) :: finishEntries rest

/-- The finished tables of a list. -/
def finishTables : List (List (String × Item)) → List Value
  | [] => []
  | d :: rest => .table (finishEntries d) :: finishTables rest

end

/-- The table some keys with values make. -/
def tableOf (pairs : List (List String × Value)) : Option Value := do
  let d ← pairs.foldlM (fun (d : Draft) p => d.assign p.1 p.2) []
  return .table (finishEntries d)

end Highlighting.Toml
