/-
Marks and highlights.

A mark says that a stretch of text has a kind; a highlight is a mark with the
style it is shown in.  Two highlights look the same when offset, length and style
agree: the kind is not visible.
-/
import Highlighting.Kind
import Highlighting.Span
import Highlighting.Style

namespace Highlighting

/-- A stretch of text with its kind.  It is never empty. -/
structure Mark where
  offset : UInt32
  length : UInt32
  kind : Kind
  length_pos : 0 < length
  deriving DecidableEq

/-- The reason there is no mark at an offset: it would be empty. -/
structure Mark.Empty where
  offset : UInt32
  deriving DecidableEq, Repr

def Mark.Empty.message (e : Mark.Empty) : String :=
  s!"annotation at offset {e.offset} has zero length"

namespace Mark

def make (offset length : UInt32) (kind : Kind) : Except Empty Mark :=
  if h : 0 < length then .ok ⟨offset, length, kind, h⟩ else .error ⟨offset⟩

/-- The first offset behind the mark. -/
def stop (m : Mark) : UInt32 := addCapped m.offset m.length

/-- Order by position: by offset, and at one offset by length. -/
def le (a b : Mark) : Bool :=
  a.offset < b.offset || (a.offset == b.offset && a.length ≤ b.length)

theorem le_iff (a b : Mark) :
    a.le b = true ↔ a.offset.toNat < b.offset.toNat ∨
      a.offset.toNat = b.offset.toNat ∧ a.length.toNat ≤ b.length.toNat := by
  simp [le, UInt32.lt_iff_toNat_lt, UInt32.le_iff_toNat_le, UInt32.toNat_inj]

theorem le_trans {a b c : Mark} (hab : a.le b = true) (hbc : b.le c = true) :
    a.le c = true := by
  rw [le_iff] at *
  omega

theorem le_total (a b : Mark) : (a.le b || b.le a) = true := by
  rw [Bool.or_eq_true, le_iff, le_iff]
  omega

end Mark

/-- A mark and the style it is shown in. -/
structure Highlight extends Mark where
  style : Style
  deriving DecidableEq

/-- What can be seen of a highlight. -/
structure Appearance where
  offset : UInt32
  length : UInt32
  style : Style
  deriving DecidableEq, Hashable, Repr

def Mark.styled (m : Mark) (s : Style) : Highlight := { m with style := s }

namespace Highlight

def appearance (h : Highlight) : Appearance := ⟨h.offset, h.length, h.style⟩

instance : Hashable Highlight where
  hash h := mixHash (hash h.appearance) (hash h.kind)

/-- The order of the marks. -/
def le (a b : Highlight) : Bool := a.toMark.le b.toMark

theorem le_iff (a b : Highlight) :
    a.le b = true ↔ a.offset.toNat < b.offset.toNat ∨
      a.offset.toNat = b.offset.toNat ∧ a.length.toNat ≤ b.length.toNat :=
  Mark.le_iff a.toMark b.toMark

theorem le_trans {a b c : Highlight} (hab : a.le b = true) (hbc : b.le c = true) :
    a.le c = true :=
  Mark.le_trans hab hbc

theorem le_total (a b : Highlight) : (a.le b || b.le a) = true :=
  Mark.le_total a.toMark b.toMark

end Highlight

end Highlighting
