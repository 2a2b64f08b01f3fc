/-
Spans of source text: a start and an end offset.

Offsets are thirty-two bits wide.  Nothing keeps the end behind the start; such
a span is empty.
-/
namespace Highlighting

structure Span where
  start : UInt32
  stop : UInt32
  deriving DecidableEq, Hashable, Repr

/-- Addition that stays at the largest offset instead of wrapping. -/
def addCapped (a b : UInt32) : UInt32 :=
  if a.toNat + b.toNat < UInt32.size then a + b else UInt32.ofNat (UInt32.size - 1)

theorem toNat_addCapped (a b : UInt32) :
    (addCapped a b).toNat = min (a.toNat + b.toNat) (UInt32.size - 1) := by
  unfold addCapped
  have hsize : UInt32.size = 4294967296 := rfl
  split
  · rw [UInt32.toNat_add]; omega
  · rw [UInt32.toNat_ofNat']; omega

namespace Span

/-- The span of a given length, cut off at the largest offset. -/
def ofLength (start length : UInt32) : Span := ⟨start, addCapped start length⟩

/-- How many offsets a span covers. -/
def length (s : Span) : UInt32 :=
  if s.start ≤ s.stop then s.stop - s.start else 0

def isEmpty (s : Span) : Bool := s.stop ≤ s.start

/-- Whether a span ends within a text of the given length, if the length is known. -/
def isWithin (s : Span) : Option UInt32 → Bool
  | none => true
  | some n => s.stop ≤ n

/-- A span that ends before it starts. -/
def isInverted (s : Span) : Bool := s.stop < s.start

end Span

end Highlighting
