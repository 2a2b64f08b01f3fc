/-
Who comes from whom among tokens.

A ledger of some steps says which tokens were made and from which, which of them were
cancelled and what was reported through which.  All it needs to know is what names
stand for; it has no scopes and no meters, and it never forgets a token, whether or
not a name still stands for it.

Three relations are read off the ledger.  Copies of a token share its progress;
copies and wrappers share its cancellation; and a token is reached from all those
that share its cancellation or that of one of its ancestors.

A list of tokens fits the ledger if each has the scope and the meter that its origin
gives it: those of its source, or new ones.  What is proved here is that the scopes
and meters of such tokens say neither more nor less than the relations do.  That a
new scope is above all those handed out before keeps parents and siblings apart.
-/
import Highlighting.Token
import Mathlib

namespace Highlighting

/-- How a token was made.  Tokens go by number, in the order in which they were made. -/
inductive Origin where
  | new
  | copy (source : Nat)
  | child (parent : Nat)
  | wrap (source : Nat)
  deriving DecidableEq, Repr

/-- What some steps did to which token. -/
structure Ledger where
  origins : List Origin := []
  /-- The tokens that names stand for. -/
  holders : Registry String Nat := .empty
  /-- The tokens that were cancelled, the last one first. -/
  cancels : List Nat := []
  /-- The tokens through which work was reported, with the units, the last one first. -/
  reports : List (Nat × UInt32) := []

namespace Ledger

def make (l : Ledger) (name : String) (o : Origin) : Ledger :=
  { l with origins := l.origins ++ [o], holders := l.holders.set name l.origins.length }

/-- Enters something about the token under a name; without one, nothing. -/
def withHolder (l : Ledger) (name : String) (f : Nat → Ledger) : Ledger :=
  match l.holders.get? name with
  | some t => f t
  | none => l

def enter (l : Ledger) : TokenStep → Ledger
  | .new name => l.make name .new
  | .copy name source => l.withHolder source fun s => l.make name (.copy s)
  | .child name parent => l.withHolder parent fun p => l.make name (.child p)
  | .wrap name source => l.withHolder source fun s => l.make name (.wrap s)
  | .cancel name => l.withHolder name fun t => { l with cancels := t :: l.cancels }
  | .drop name => { l with holders := l.holders.erase name }
  | .worked name units => l.withHolder name fun t => { l with reports := (t, units) :: l.reports }
  | .poll _ => l

def ofSteps (steps : List TokenStep) : Ledger := steps.foldl enter {}

/-- One token comes from another by copying, or both from a third, and so on. -/
def SameMeter (l : Ledger) : Nat → Nat → Prop :=
  Relation.EqvGen fun a b => l.origins[b]? = some (.copy a)

/-- One token comes from another by copying or wrapping, or both from a third, and so on. -/
def SameScope (l : Ledger) : Nat → Nat → Prop :=
  Relation.EqvGen fun a b => l.origins[b]? = some (.copy a) ∨ l.origins[b]? = some (.wrap a)

/-- The tokens that share the cancellation of a token, those that share the cancellation of a child
of one of them, and so on down. -/
inductive Reaches (l : Ledger) (x : Nat) : Nat → Prop
  | same {t : Nat} (h : l.SameScope x t) : Reaches l x t
  | child {p c t : Nat} (hp : Reaches l x p) (hc : l.origins[c]? = some (.child p))
      (ht : l.SameScope c t) : Reaches l x t

theorem Reaches.sameScope {l : Ledger} {x t u : Nat} (h : l.Reaches x t) (htu : l.SameScope t u) :
    l.Reaches x u := by
  cases h with
  | same h => exact .same (h.trans _ _ _ htu)
  | child hp hc ht => exact .child hp hc (ht.trans _ _ _ htu)

theorem Reaches.of_sameScope {l : Ledger} {x y t : Nat} (h : l.Reaches y t)
    (hxy : l.SameScope x y) : l.Reaches x t := by
  induction h with
  | same h => exact .same (hxy.trans _ _ _ h)
  | child _ hc ht ih => exact .child ih hc ht

end Ledger

/-! ### Tokens that fit a ledger -/

/-- A scope above all those of earlier tokens. -/
def Token.NewScope (t : Token) (earlier : List Token) : Prop :=
  ∀ u ∈ earlier, ∀ s ∈ u.lineage.scopes, s < t.lineage.own

def Token.NewMeter (t : Token) (earlier : List Token) : Prop := ∀ u ∈ earlier, u.meter < t.meter

/-- What a token is like, given how it was made and the tokens made before. -/
def Origin.Fits (earlier : List Token) (t : Token) : Origin → Prop
  | .new => t.lineage.above = [] ∧ t.NewScope earlier ∧ t.NewMeter earlier
  | .copy s => earlier[s]? = some t
  | .child p =>
    (∃ u, earlier[p]? = some u ∧ t.lineage.above = u.lineage.scopes) ∧
      t.NewScope earlier ∧ t.NewMeter earlier
  | .wrap s => (∃ u, earlier[s]? = some u ∧ t.lineage = u.lineage) ∧ t.NewMeter earlier

structure Genealogy (origins : List Origin) (made : List Token) : Prop where
  length : made.length = origins.length
  fits : ∀ (i : Nat) (o : Origin) (t : Token),
    origins[i]? = some o → made[i]? = some t → o.Fits (made.take i) t

theorem getElem?_of_take {made : List Token} {i s : Nat} {t : Token}
    (h : (made.take i)[s]? = some t) : s < i ∧ made[s]? = some t := by
  rw [List.getElem?_take] at h
  split at h
  · exact ⟨‹_›, h⟩
  · cases h

theorem mem_take_of_getElem? {made : List Token} {i s : Nat} {t : Token} (hs : s < i)
    (h : made[s]? = some t) : t ∈ made.take i := by
  refine List.mem_of_getElem? (i := s) ?_
  rw [List.getElem?_take, if_pos hs, h]

/-- Links to earlier tokens that keep a label, and labels above all earlier ones wherever there is
no link: then the links join all tokens with the same label. -/
theorem eqvGen_of_label_eq {made : List Token} {R : Nat → Nat → Prop} (label : Token → Nat)
    (h : ∀ (j : Nat) (u : Token), made[j]? = some u →
      (∃ i < j, ∃ t, made[i]? = some t ∧ R i j ∧ label t = label u) ∨
        ∀ t ∈ made.take j, label t < label u)
    {a b : Nat} {t u : Token} (ha : made[a]? = some t) (hb : made[b]? = some u)
    (heq : label t = label u) : Relation.EqvGen R a b := by
  -- by induction on the greater number, the one that is linked or new
  have hle : ∀ (j : Nat) (u : Token), made[j]? = some u → ∀ (i : Nat) (t : Token),
      made[i]? = some t → i ≤ j → label t = label u → Relation.EqvGen R i j := by
    intro j
    induction j using Nat.strongRecOn with
    | ind j ih =>
        intro u hj i t hi hij heq
        rcases Nat.eq_or_lt_of_le hij with rfl | hlt
        · exact .refl _
        · rcases h j u hj with ⟨s, hs, v, hv, hlink, hsame⟩ | hnew
          · refine .trans _ s _ ?_ (.rel _ _ hlink)
            rcases Nat.le_total i s with hle | hle
            · exact ih s hs v hv i t hi hle (heq.trans hsame.symm)
            · exact .symm _ _ (ih i hlt t hi s v hv hle (hsame.trans heq.symm))
          · exact absurd heq (Nat.ne_of_lt (hnew t (mem_take_of_getElem? hlt hi)))
  rcases Nat.le_total a b with hab | hab
  · exact hle b u hb a t ha hab heq
  · exact .symm _ _ (hle a t ha b u hb hab heq.symm)

namespace Genealogy

variable {l : Ledger} {made : List Token}

theorem snoc {origins : List Origin} (g : Genealogy origins made) {o : Origin} {t : Token}
    (h : o.Fits made t) : Genealogy (origins ++ [o]) (made ++ [t]) where
  length := by simp [g.length]
  fits := by
    intro i o' t' ho ht
    rcases Nat.lt_trichotomy i made.length with hi | rfl | hi
    · rw [List.getElem?_append_left (by rw [← g.length]; exact hi)] at ho
      rw [List.getElem?_append_left hi] at ht
      rw [List.take_append_of_le_length (Nat.le_of_lt hi)]
      exact g.fits i o' t' ho ht
    · rw [g.length, List.getElem?_concat_length, Option.some.injEq] at ho
      rw [List.getElem?_concat_length, Option.some.injEq] at ht
      rw [List.take_left, ← ho, ← ht]
      exact h
    · rw [List.getElem?_eq_none (by simp; omega)] at ht
      cases ht

theorem exists_made (g : Genealogy l.origins made) {i : Nat} {o : Origin}
    (h : l.origins[i]? = some o) : ∃ t, made[i]? = some t ∧ o.Fits (made.take i) t := by
  obtain ⟨hlt, -⟩ := List.getElem?_eq_some_iff.mp h
  have hi : i < made.length := g.length ▸ hlt
  have ht := List.getElem?_eq_getElem hi
  exact ⟨made[i], ht, g.fits i o _ h ht⟩

theorem exists_origin (g : Genealogy l.origins made) {i : Nat} {t : Token}
    (h : made[i]? = some t) : ∃ o, l.origins[i]? = some o ∧ o.Fits (made.take i) t := by
  obtain ⟨hlt, -⟩ := List.getElem?_eq_some_iff.mp h
  have hi : i < l.origins.length := g.length ▸ hlt
  have ho := List.getElem?_eq_getElem hi
  exact ⟨l.origins[i], ho, g.fits i _ t ho h⟩

/-! ### Copies have one meter -/

theorem meter_eq (g : Genealogy l.origins made) {a b : Nat} (h : l.SameMeter a b) :
    made[a]?.map Token.meter = made[b]?.map Token.meter := by
  induction h with
  | rel a b hab =>
      obtain ⟨t, ht, hfits⟩ := g.exists_made hab
      rw [ht, (getElem?_of_take hfits).2]
  | refl a => rfl
  | symm a b _ ih => exact ih.symm
  | trans a b c _ _ ihab ihbc => exact ihab.trans ihbc

/-- Two tokens count into one meter exactly if one is a copy of the other, or both of a third, and
so on. -/
theorem sameMeter_iff (g : Genealogy l.origins made) {a b : Nat} {t u : Token}
    (ha : made[a]? = some t) (hb : made[b]? = some u) :
    l.SameMeter a b ↔ t.meter = u.meter := by
  constructor
  · intro h
    have heq := g.meter_eq h
    rw [ha, hb] at heq
    exact Option.some.inj heq
  · refine eqvGen_of_label_eq Token.meter (fun j v hj => ?_) ha hb
    obtain ⟨o, ho, hfits⟩ := g.exists_origin hj
    cases o with
    | new => exact .inr hfits.2.2
    | copy s =>
        obtain ⟨hs, hmade⟩ := getElem?_of_take hfits
        exact .inl ⟨s, hs, v, hmade, ho, rfl⟩
    | child p => exact .inr hfits.2.2
    | wrap s => exact .inr hfits.2

/-! ### Copies and wrappers have one scope -/

theorem lineage_eq (g : Genealogy l.origins made) {a b : Nat} (h : l.SameScope a b) :
    made[a]?.map Token.lineage = made[b]?.map Token.lineage := by
  induction h with
  | rel a b hab =>
      rcases hab with hcopy | hwrap
      · obtain ⟨t, ht, hfits⟩ := g.exists_made hcopy
        rw [ht, (getElem?_of_take hfits).2]
      · obtain ⟨t, ht, ⟨u, hu, hlineage⟩, -⟩ := g.exists_made hwrap
        rw [ht, (getElem?_of_take hu).2, Option.map_some, Option.map_some, hlineage]
  | refl a => rfl
  | symm a b _ ih => exact ih.symm
  | trans a b c _ _ ihab ihbc => exact ihab.trans ihbc

theorem sameScope_of_own_eq (g : Genealogy l.origins made) {a b : Nat} {t u : Token}
    (ha : made[a]? = some t) (hb : made[b]? = some u) (heq : t.lineage.own = u.lineage.own) :
    l.SameScope a b := by
  refine eqvGen_of_label_eq (fun t => t.lineage.own) (fun j v hj => ?_) ha hb heq
  obtain ⟨o, ho, hfits⟩ := g.exists_origin hj
  cases o with
  | new => exact .inr fun w hw => hfits.2.1 w hw _ List.mem_cons_self
  | copy s =>
      obtain ⟨hs, hmade⟩ := getElem?_of_take hfits
      exact .inl ⟨s, hs, v, hmade, .inl ho, rfl⟩
  | child p => exact .inr fun w hw => hfits.2.1 w hw _ List.mem_cons_self
  | wrap s =>
      obtain ⟨⟨w, hw, hlineage⟩, -⟩ := hfits
      obtain ⟨hs, hmade⟩ := getElem?_of_take hw
      exact .inl ⟨s, hs, w, hmade, .inr ho, by rw [hlineage]⟩

/-! ### A lineage has the scopes a token is reached from -/

/-- **A token is reached from exactly those whose scope is in its lineage.** -/
theorem reaches_iff (g : Genealogy l.origins made) {x b : Nat} {t u : Token}
    (hx : made[x]? = some t) (hb : made[b]? = some u) :
    l.Reaches x b ↔ t.lineage.own ∈ u.lineage.scopes := by
  constructor
  · intro h
    induction h generalizing u with
    | same hsame =>
        have heq := g.lineage_eq hsame
        rw [hx, hb] at heq
        rw [← Option.some.inj heq]
        exact List.mem_cons_self
    | child _ hc hsame ih =>
        obtain ⟨v, hv, ⟨w, hw, habove⟩, -⟩ := g.exists_made hc
        have heq := g.lineage_eq hsame
        rw [hv, hb] at heq
        have hmem := ih (getElem?_of_take hw).2
        rw [← Option.some.inj heq, Lineage.scopes, habove]
        exact List.mem_cons_of_mem _ hmem
  · -- by induction on the number of the token that is reached, along its origin
    induction b using Nat.strongRecOn generalizing u with
    | ind b ih =>
        intro hmem
        rcases List.mem_cons.mp hmem with hown | habove
        · exact .same (g.sameScope_of_own_eq hx hb hown)
        · obtain ⟨o, ho, hfits⟩ := g.exists_origin hb
          cases o with
          | new =>
              rw [hfits.1] at habove
              cases habove
          | copy s =>
              obtain ⟨hs, hmade⟩ := getElem?_of_take hfits
              exact (ih s hs hmade hmem).sameScope (.rel _ _ (.inl ho))
          | child p =>
              obtain ⟨⟨v, hv, heq⟩, -⟩ := hfits
              obtain ⟨hp, hmade⟩ := getElem?_of_take hv
              rw [heq] at habove
              exact .child (ih p hp hmade habove) ho (.refl _)
          | wrap s =>
              obtain ⟨⟨v, hv, hlineage⟩, -⟩ := hfits
              obtain ⟨hs, hmade⟩ := getElem?_of_take hv
              rw [hlineage] at hmem
              exact (ih s hs hmade hmem).sameScope (.rel _ _ (.inr ho))

/-- A child does not reach its parent. -/
theorem not_reaches_parent (g : Genealogy l.origins made) {c p : Nat}
    (hc : l.origins[c]? = some (.child p)) : ¬ l.Reaches c p := by
  obtain ⟨t, ht, ⟨u, hu, -⟩, hnew, -⟩ := g.exists_made hc
  obtain ⟨hp, hmade⟩ := getElem?_of_take hu
  rw [g.reaches_iff ht hmade]
  intro hmem
  exact Nat.lt_irrefl _ (hnew u (mem_take_of_getElem? hp hmade) _ hmem)

/-- A child does not reach another child of its parent, or of a token that shares the cancellation
of its parent. -/
theorem not_reaches_sibling (g : Genealogy l.origins made) {a b p q : Nat}
    (ha : l.origins[a]? = some (.child p)) (hb : l.origins[b]? = some (.child q))
    (hpq : l.SameScope p q) (hne : a ≠ b) : ¬ l.Reaches a b := by
  obtain ⟨t, ht, ⟨v, hv, habove⟩, hnewt, -⟩ := g.exists_made ha
  obtain ⟨u, hu, ⟨w, hw, hbbove⟩, hnewu, -⟩ := g.exists_made hb
  obtain ⟨hp, hmadep⟩ := getElem?_of_take hv
  obtain ⟨hq, hmadeq⟩ := getElem?_of_take hw
  have hparents : v.lineage = w.lineage := by
    have heq := g.lineage_eq hpq
    rw [hmadep, hmadeq] at heq
    exact Option.some.inj heq
  rw [g.reaches_iff ht hu]
  intro hmem
  rcases List.mem_cons.mp hmem with hown | hmem
  · -- the scope of the later of the two is above that of the earlier one
    rcases Nat.lt_or_gt_of_ne hne with hlt | hlt
    · have habs := hnewu t (mem_take_of_getElem? hlt ht) _ List.mem_cons_self
      omega
    · have habs := hnewt u (mem_take_of_getElem? hlt hu) _ List.mem_cons_self
      omega
  · rw [hbbove, ← hparents] at hmem
    exact Nat.lt_irrefl _ (hnewt v (mem_take_of_getElem? hp hmadep) _ hmem)

end Genealogy

end Highlighting
