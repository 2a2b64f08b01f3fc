/-
Counting keys, and taking entries off a list one for one.

`Tally.subtract key xs ys` is what is left of `xs` once every entry of `ys` has
taken off the earliest entry of `xs` with its key that is still there.  Doing
that by search is quadratic; counting the keys of `ys` first makes it one run
over each list.
-/
import Std.Data.HashMap

namespace Highlighting

/-- How often each key occurs. -/
abbrev Tally (κ : Type) [BEq κ] [Hashable κ] := Std.HashMap κ Nat

namespace Tally

variable {α κ : Type} [BEq κ] [Hashable κ]

def count (t : Tally κ) (k : κ) : Nat := t.getD k 0

def add (t : Tally κ) (k : κ) : Tally κ := t.insert k (t.count k + 1)

def ofList (keys : List κ) : Tally κ := keys.foldl add ∅

@[simp] theorem count_empty (k : κ) : count (∅ : Tally κ) k = 0 := by
  simp [count]

theorem count_add [LawfulBEq κ] (t : Tally κ) (k l : κ) :
    (t.add k).count l = t.count l + if k == l then 1 else 0 := by
  by_cases h : k = l
  · subst h; simp [add, count]
  · simp [add, count, Std.HashMap.getD_insert, h]

/-- A tally counts what the list counts. -/
theorem count_ofList [LawfulBEq κ] (keys : List κ) (k : κ) :
    (ofList keys).count k = keys.count k := by
  suffices ∀ t : Tally κ, (keys.foldl add t).count k = t.count k + keys.count k by
    simpa [ofList] using this ∅
  induction keys with
  | nil => simp
  | cons l ls ih =>
    intro t
    rw [List.foldl_cons, ih, count_add, List.count_cons]
    omega

/-- The list without the entries the tally still has a key for; each of them uses one up. -/
def drop (key : α → κ) : Tally κ → List α → List α
  | _, [] => []
  | t, x :: xs =>
    match t.count (key x) with
    | 0 => x :: drop key t xs
    | n + 1 => drop key (t.insert (key x) n) xs

/-- What is left of `xs` when each of `ys` has taken off the earliest one with its key. -/
def subtract {β : Type} (key : α → κ) (key' : β → κ) (xs : List α) (ys : List β) : List α :=
  drop key (ofList (ys.map key')) xs

end Tally

end Highlighting
