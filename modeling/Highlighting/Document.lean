/-
Identities of documents.

An identity is a number of sixty-four bits.  A supply hands out fresh ones, each
the successor of the one before.
-/
namespace Highlighting

structure DocumentId where
  value : UInt64
  deriving DecidableEq, Hashable, Repr

namespace DocumentId

/-- How an identity is shown. -/
def text (d : DocumentId) : String := s!"doc#{d.value}"

/-- A supply of fresh identities, known by the next one. -/
structure Supply where
  fresh : DocumentId

/-- The supply that starts at one. -/
def Supply.first : Supply := ⟨⟨1⟩⟩

/-- The next identity and the supply without it. -/
def Supply.take (s : Supply) : DocumentId × Supply :=
  (s.fresh, ⟨⟨s.fresh.value + 1⟩⟩)

/-- The next several identities, in order. -/
def Supply.takeMany (s : Supply) : Nat → List DocumentId
  | 0 => []
  | n + 1 => s.take.1 :: s.take.2.takeMany n

end DocumentId

end Highlighting
