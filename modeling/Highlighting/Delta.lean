/-
Changes to the highlights on a screen.

A delta takes some highlights away and adds others.  `Delta.between` finds the
change from what is shown to what is wanted, pairing highlights that look the
same: those stay as they are, kind included.  Searching what is shown for each
partner would be quadratic; an index of the places that are still free, look by
look, has the earliest one at hand.  `Delta.apply` carries a delta out.
-/
import Highlighting.Mark
import Highlighting.Tally

namespace Highlighting

structure Delta where
  add : List Highlight
  remove : List Highlight
  deriving DecidableEq

/-! ### Pairing what is wanted with what is shown -/

/-- The places that are free, for each look; the earliest stands first. -/
abbrev Places := Std.HashMap Appearance (List Nat)

namespace Places

def ofLook (p : Places) (look : Appearance) : List Nat := p.getD look []

/-- Puts the place of a highlight in front of those with the same look. -/
def push (e : Highlight × Nat) (p : Places) : Places :=
  p.insert e.1.appearance (e.2 :: p.ofLook e.1.appearance)

/-- The places of the highlights in a list, put in from the last one to the first. -/
def ofList (shown : List Highlight) : Places := shown.zipIdx.foldr push ∅

end Places

/-- How far the pairing has come. -/
structure Pairing where
  free : Places
  /-- Whether the highlight shown at each place has a partner. -/
  paired : Array Bool
  /-- The wanted highlights that found none. -/
  add : Array Highlight

namespace Pairing

def start (shown : List Highlight) : Pairing :=
  ⟨.ofList shown, .replicate shown.length false, #[]⟩

/-- Pairs a wanted highlight with the earliest free one that looks the same. -/
def pair (p : Pairing) (w : Highlight) : Pairing :=
  match p.free.ofLook w.appearance with
  | [] => { p with add := p.add.push w }
  | i :: rest =>
    { p with
      free := p.free.insert w.appearance rest
      paired := p.paired.setIfInBounds i true }

/-- The highlights shown that nothing was paired with. -/
def unpaired (p : Pairing) (shown : List Highlight) : List Highlight :=
  ((shown.zip p.paired.toList).filter fun e => !e.2).map (·.1)

end Pairing

namespace Delta

/-- The change from the highlights shown to those wanted.  Of several that look the same the
earliest ones are paired. -/
def between (shown wanted : List Highlight) : Delta :=
  let p := wanted.foldl Pairing.pair (.start shown)
  ⟨p.add.toList, p.unpaired shown⟩

def isEmpty (d : Delta) : Bool := d.add.isEmpty && d.remove.isEmpty

/-- The highlights after a change, by position.  Each removal takes off the first equal highlight,
if there is one; where positions are equal, what stays comes before what is added. -/
def apply (d : Delta) (shown : List Highlight) : List Highlight :=
  (Tally.subtract id id shown d.remove ++ d.add).mergeSort Highlight.le

end Delta

end Highlighting
