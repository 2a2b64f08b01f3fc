/-
Things kept under a key.

A registry holds at most one thing per key, in a list.
-/
namespace Highlighting

structure Registry (κ α : Type) where
  entries : List (κ × α)

namespace Registry

variable {κ α : Type} [DecidableEq κ]

def empty : Registry κ α := ⟨[]⟩

def get? (r : Registry κ α) (k : κ) : Option α :=
  (r.entries.find? (·.1 = k)).map (·.2)

def contains (r : Registry κ α) (k : κ) : Bool := (r.get? k).isSome

def erase (r : Registry κ α) (k : κ) : Registry κ α :=
  ⟨r.entries.filter (·.1 ≠ k)⟩

/-- Keeps a thing under a key, in place of any other. -/
def set (r : Registry κ α) (k : κ) (a : α) : Registry κ α :=
  ⟨(k, a) :: (r.erase k).entries⟩

def size (r : Registry κ α) : Nat := r.entries.length

@[simp] theorem get?_empty (k : κ) : (empty : Registry κ α).get? k = none := rfl

theorem get?_erase (r : Registry κ α) (k l : κ) :
    (r.erase k).get? l = if l = k then none else r.get? l := by
  obtain ⟨es⟩ := r
  simp only [get?, erase]
  induction es with
  | nil => simp
  | cons e es ih =>
    by_cases hk : e.1 = k
    · by_cases hl : l = k
      · simp [hl]
      · simpa [hk, hl, Ne.symm hl] using ih
    · by_cases hl : e.1 = l
      · have : l ≠ k := fun h => hk (hl.trans h)
        simp [hl, this]
      · simpa [hk, hl] using ih

theorem get?_set (r : Registry κ α) (k l : κ) (a : α) :
    (r.set k a).get? l = if l = k then some a else r.get? l := by
  by_cases h : l = k
  · subst h; simp [get?, set]
  · have he := get?_erase r k l
    simp only [h, if_false] at he ⊢
    rw [← he]
    simp [get?, set, Ne.symm h]

end Registry

end Highlighting
