/-
Reading a name finds the one thing that bears it.

The reader looks for the first thing whose name the text stands for.  No two kinds and
no two rules have the same name, so there is at most one, and what stands before it in
the list does not matter.
-/
import Highlighting.Rule
import Mathlib

namespace Highlighting

theorem Text.readName?_eq_some_iff {α : Type} {all : List α} {name : α → String}
    (hall : ∀ a, a ∈ all) (hname : (all.map name).Nodup) {s : String} {a : α} :
    readName? all name s = some a ↔ name a = canonical s := by
  unfold readName?
  constructor
  · intro h
    simpa using List.find?_some h
  · intro h
    cases hfind : all.find? fun b => name b == canonical s with
    | none =>
        have hnone := List.find?_eq_none.mp hfind a (hall a)
        exact absurd (beq_iff_eq.mpr h) hnone
    | some b =>
        have hb : name b = canonical s := by simpa using List.find?_some hfind
        rw [List.inj_on_of_nodup_map hname (hall b) (hall a) (hb.trans h.symm)]

theorem Text.readName?_eq_none_iff {α : Type} {all : List α} {name : α → String}
    (hall : ∀ a, a ∈ all) {s : String} :
    readName? all name s = none ↔ ∀ a, name a ≠ canonical s := by
  unfold readName?
  rw [List.find?_eq_none]
  constructor
  · intro h a ha
    exact h a (hall a) (beq_iff_eq.mpr ha)
  · intro h a _ ha
    exact h a (beq_iff_eq.mp ha)

theorem Kind.nodup_names : (Kind.all.map Kind.name).Nodup := by decide

theorem Kind.name_injective : Function.Injective Kind.name := by
  intro k l h
  exact List.inj_on_of_nodup_map Kind.nodup_names (Kind.mem_all k) (Kind.mem_all l) h

theorem Kind.read?_eq_some_iff {s : String} {k : Kind} :
    Kind.read? s = some k ↔ k.name = Text.canonical s :=
  Text.readName?_eq_some_iff Kind.mem_all Kind.nodup_names

theorem Kind.read?_eq_none_iff {s : String} :
    Kind.read? s = none ↔ ∀ k : Kind, k.name ≠ Text.canonical s :=
  Text.readName?_eq_none_iff Kind.mem_all

theorem Rule.nodup_names : (Rule.all.map Rule.name).Nodup := by decide

theorem Rule.name_injective : Function.Injective Rule.name := by
  intro r s h
  exact List.inj_on_of_nodup_map Rule.nodup_names (Rule.mem_all r) (Rule.mem_all s) h

theorem Rule.read?_eq_some_iff {s : String} {r : Rule} :
    Rule.read? s = some r ↔ r.name = Text.canonical s :=
  Text.readName?_eq_some_iff Rule.mem_all Rule.nodup_names

theorem Rule.read?_eq_none_iff {s : String} :
    Rule.read? s = none ↔ ∀ r : Rule, r.name ≠ Text.canonical s :=
  Text.readName?_eq_none_iff Rule.mem_all

end Highlighting
