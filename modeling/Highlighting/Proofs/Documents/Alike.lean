/-
The same document in two editors.

In one editor a document stands among others, in the other one it is alone.  They
number their slots, surfaces, resolvers and scopes differently, and a link tells
which is which.  The editors are `Alike` if what the document has in the one is, up
to the link, what it has in the other, and `Related` if in the first one the others
are apart from it, too.

Two things keep editors related: whatever others do in the first, and whatever the
document does in both, provided that it leaves alone what others have.
-/
import Highlighting.Proofs.Documents.Foreign
import Mathlib

namespace Highlighting

/-! ### Links -/

/-- Which part of one editor is which part of another. -/
abbrev Link := Part → Nat → Nat → Prop

namespace Link

/-- What is linked in the first editor. -/
def Has (ρ : Link) (p : Part) (i : Nat) : Prop := ∃ j, ρ p i j

/-- What is linked in the second editor. -/
def Of (ρ : Link) (p : Part) (j : Nat) : Prop := ∃ i, ρ p i j

/-- One more pair. -/
def join (ρ : Link) (p : Part) (i j : Nat) : Link := fun q k l => ρ q k l ∨ q = p ∧ k = i ∧ l = j

variable {ρ : Link} {p : Part} {i j : Nat}

theorem le_join : ρ ≤ ρ.join p i j := fun _ _ _ h => Or.inl h

theorem join_self : ρ.join p i j p i j := Or.inr ⟨rfl, rfl, rfl⟩

theorem has_join {q : Part} {k : Nat} : (ρ.join p i j).Has q k ↔ ρ.Has q k ∨ q = p ∧ k = i := by
  constructor
  · rintro ⟨l, hold | ⟨hq, hk, _⟩⟩
    · exact Or.inl ⟨l, hold⟩
    · exact Or.inr ⟨hq, hk⟩
  · rintro (⟨l, hold⟩ | ⟨rfl, rfl⟩)
    · exact ⟨l, Or.inl hold⟩
    · exact ⟨j, join_self⟩

end Link

/-! ### Being alike -/

section

variable (o : Ownership) (d : DocumentId) (ρ : Link)

def Lineage.Like (l m : Lineage) : Prop := List.Forall₂ (ρ .scope) l.scopes m.scopes

def Token.Like (t u : Token) : Prop := t.lineage.Like ρ u.lineage

structure Target.Like (t u : Target) : Prop where
  doc : t.doc = d
  doc' : u.doc = d
  surface : ρ .surface t.surface u.surface
  lifetime : t.lifetime.Like ρ u.lifetime

structure Job.Like (j k : Job) : Prop where
  target : j.target.Like d ρ k.target
  delta : k.delta = j.delta

structure Slot.Like (s t : Slot) : Prop where
  target : s.target.Like d ρ t.target
  resolver : ρ .resolver s.resolver t.resolver
  gate : t.gate = s.gate
  snapshot : t.snapshot = s.snapshot

/-- A part of one editor is like a part of another. -/
def Part.Like (e f : Editor) : Part → Nat → Nat → Prop
  | .slot, i, j => Option.Rel (Slot.Like d ρ) e.slots[i]? f.slots[j]?
  | .surface, i, j => f.surfaces[j]? = e.surfaces[i]? ∧
    ∀ s, e.surfaces[i]? = some s → s.actsOn o d
  | .resolver, i, j => f.resolvers[j]? = e.resolvers[i]? ∧
    ∀ r, e.resolvers[i]? = some r → r.actsOn o d
  | .scope, i, j => i ∈ e.tokens.cancelled ↔ j ∈ f.tokens.cancelled

/-- Up to the link, the document has in the first editor what there is in the second. -/
structure Alike (e f : Editor) : Prop where
  policy : f.policy = e.policy
  baseTable : f.baseTable = e.baseTable
  coordinating : f.coordinating = e.coordinating
  keeper : f.queue.keeper = e.queue.keeper
  bound : ∀ p i j, ρ p i j → i < e.count p ∧ j < f.count p
  unique : ∀ p i j k l, ρ p i j → ρ p k l → (i = k ↔ j = l)
  cancelled : ∀ n ∈ f.tokens.cancelled, n < f.tokens.scopes
  parts : ∀ p i j, ρ p i j → Part.Like o d ρ e f p i j
  documents : Option.Rel (ρ .slot) (e.documents.get? d) (f.documents.get? d)
  surfaceNames : ∀ name, o.surface name = d →
    Option.Rel (ρ .surface) (e.surfaceNames.get? name) (f.surfaceNames.get? name)
  tokenNames : ∀ name, o.token name = d →
    Option.Rel (Token.Like ρ) (e.tokenNames.get? name) (f.tokenNames.get? name)
  targetNames : ∀ name, o.target name = d →
    Option.Rel (Target.Like d ρ) (e.targetNames.get? name) (f.targetNames.get? name)
  jobs : List.Forall₂ (Job.Like d ρ) (e.queue.jobs.filter (·.target.doc = d)) f.queue.jobs
  deeds : f.deeds d = e.deeds d

/-- Moreover, in the first editor the others are apart. -/
structure Related (e f : Editor) : Prop extends Alike o d ρ e f where
  apart : Apart o d ρ.Has e

end

variable {o : Ownership} {d : DocumentId} {ρ ρ' : Link} {e f e' f' : Editor}

/-! ### More links -/

theorem Lineage.Like.mono {l m : Lineage} (h : l.Like ρ m) (hle : ρ ≤ ρ') : l.Like ρ' m :=
  List.Forall₂.imp (hle .scope) h

theorem Token.Like.mono {t u : Token} (h : t.Like ρ u) (hle : ρ ≤ ρ') : t.Like ρ' u :=
  Lineage.Like.mono h hle

theorem Target.Like.mono {t u : Target} (h : t.Like d ρ u) (hle : ρ ≤ ρ') : t.Like d ρ' u :=
  ⟨h.doc, h.doc', hle _ _ _ h.surface, h.lifetime.mono hle⟩

theorem Job.Like.mono {j k : Job} (h : j.Like d ρ k) (hle : ρ ≤ ρ') : j.Like d ρ' k :=
  ⟨h.target.mono hle, h.delta⟩

theorem Slot.Like.mono {s t : Slot} (h : s.Like d ρ t) (hle : ρ ≤ ρ') : s.Like d ρ' t :=
  ⟨h.target.mono hle, hle _ _ _ h.resolver, h.gate, h.snapshot⟩

theorem rel_imp {α β : Type} {R S : α → β → Prop} (h : ∀ a b, R a b → S a b) {x : Option α}
    {y : Option β} (hxy : Option.Rel R x y) : Option.Rel S x y := by
  cases hxy with
  | some hab => exact .some (h _ _ hab)
  | none => exact .none

theorem Part.Like.mono {p : Part} {i j : Nat} (h : Part.Like o d ρ e f p i j) (hle : ρ ≤ ρ') :
    Part.Like o d ρ' e f p i j := by
  cases p with
  | slot => exact rel_imp (fun _ _ hst => hst.mono hle) h
  | surface | resolver | scope => exact h

theorem Alike.lt_count (h : Alike o d ρ e f) {p : Part} {j : Nat} (hj : ρ.Of p j) :
    j < f.count p := by
  obtain ⟨i, hij⟩ := hj
  exact (h.bound p i j hij).2

/-- Two parts that are alike and not yet linked can be linked. -/
theorem Alike.join {p : Part} {i j : Nat} (h : Alike o d ρ e f) (hi : i < e.count p)
    (hj : j < f.count p) (hfresh : ¬ρ.Has p i) (hfresh' : ¬ρ.Of p j)
    (hlike : Part.Like o d ρ e f p i j) : Alike o d (ρ.join p i j) e f := by
  refine { h with bound := ?_, unique := ?_, parts := ?_, documents := ?_, surfaceNames := ?_,
                  tokenNames := ?_, targetNames := ?_, jobs := ?_ }
  · rintro q k l (hold | ⟨rfl, rfl, rfl⟩)
    · exact h.bound q k l hold
    · exact ⟨hi, hj⟩
  · rintro q k l k' l' (hold | ⟨rfl, rfl, rfl⟩) (hold' | ⟨hq, rfl, rfl⟩)
    · exact h.unique q k l k' l' hold hold'
    · subst hq
      refine ⟨fun heq => absurd ⟨l, heq ▸ hold⟩ hfresh, fun heq => absurd ⟨k, heq ▸ hold⟩ hfresh'⟩
    · refine ⟨fun heq => absurd ⟨l', heq ▸ hold'⟩ hfresh, fun heq => ?_⟩
      exact absurd ⟨k', heq ▸ hold'⟩ hfresh'
    · exact ⟨fun _ => rfl, fun _ => rfl⟩
  · rintro q k l (hold | ⟨rfl, rfl, rfl⟩)
    · exact (h.parts q k l hold).mono Link.le_join
    · exact hlike.mono Link.le_join
  · exact rel_imp (Link.le_join .slot) h.documents
  · exact fun name hname => rel_imp (Link.le_join .surface) (h.surfaceNames name hname)
  · exact fun name hname => rel_imp (fun _ _ ht => ht.mono Link.le_join) (h.tokenNames name hname)
  · exact fun name hname => rel_imp (fun _ _ ht => ht.mono Link.le_join) (h.targetNames name hname)
  · exact List.Forall₂.imp (fun _ _ hj => hj.mono Link.le_join) h.jobs

/-! ### What others do -/

/-- Changes that touch nothing of the document in either editor. -/
theorem Alike.frame (h : Alike o d ρ e f) (he : Frame o d ρ.Has e e') (hf : Frame o d ρ.Of f f')
    (hcancelled : ∀ n ∈ f'.tokens.cancelled, n < f'.tokens.scopes)
    (hjobs : f'.queue.jobs = f.queue.jobs) : Alike o d ρ e' f' where
  policy := by rw [he.policy, hf.policy, h.policy]
  baseTable := by rw [he.baseTable, hf.baseTable, h.baseTable]
  coordinating := by rw [he.coordinating, hf.coordinating, h.coordinating]
  keeper := by rw [he.keeper, hf.keeper, h.keeper]
  bound p i j hij := by
    obtain ⟨hi, hj⟩ := h.bound p i j hij
    exact ⟨Nat.lt_of_lt_of_le hi (he.count p), Nat.lt_of_lt_of_le hj (hf.count p)⟩
  unique := h.unique
  cancelled := hcancelled
  parts p i j hij := by
    have hlike := h.parts p i j hij
    cases p with
    | slot =>
        rw [Part.Like, he.slots i ⟨j, hij⟩, hf.slots j ⟨i, hij⟩]
        exact hlike
    | surface =>
        rw [Part.Like, he.surfaces i ⟨j, hij⟩, hf.surfaces j ⟨i, hij⟩]
        exact hlike
    | resolver =>
        rw [Part.Like, he.resolvers i ⟨j, hij⟩, hf.resolvers j ⟨i, hij⟩]
        exact hlike
    | scope => exact (he.cancelled i ⟨j, hij⟩).trans (hlike.trans (hf.cancelled j ⟨i, hij⟩).symm)
  documents := by
    rw [he.documents, hf.documents]
    exact h.documents
  surfaceNames name hname := by
    rw [he.surfaceNames name hname, hf.surfaceNames name hname]
    exact h.surfaceNames name hname
  tokenNames name hname := by
    rw [he.tokenNames name hname, hf.tokenNames name hname]
    exact h.tokenNames name hname
  targetNames name hname := by
    rw [he.targetNames name hname, hf.targetNames name hname]
    exact h.targetNames name hname
  jobs := by
    rw [he.jobs, hjobs]
    exact h.jobs
  deeds := by rw [he.deeds, hf.deeds, h.deeds]

theorem Related.foreign (h : Related o d ρ e f) (hforeign : Foreign o d ρ.Has e e') :
    Related o d ρ e' f := by
  obtain ⟨hapart, hframe⟩ := hforeign h.apart
  exact ⟨h.toAlike.frame hframe (Frame.refl f) h.cancelled rfl, hapart⟩

/-! ### What the document does -/

/-- Whatever is not owned is left alone. -/
structure Domestic (o : Ownership) (d : DocumentId) (own : Part → Nat → Prop) (e e' : Editor) :
    Prop where
  count : ∀ p, e.count p ≤ e'.count p
  cancelled : ∀ n ∈ e'.tokens.cancelled, n < e'.tokens.scopes
  documents : ∀ x, x ≠ d → e'.documents.get? x = e.documents.get? x
  slots : ∀ i, ¬own .slot i → e'.slots[i]? = e.slots[i]?
  surfaceNames : ∀ name, o.surface name ≠ d →
    e'.surfaceNames.get? name = e.surfaceNames.get? name
  tokenNames : ∀ name, o.token name ≠ d → e'.tokenNames.get? name = e.tokenNames.get? name
  targetNames : ∀ name, o.target name ≠ d → e'.targetNames.get? name = e.targetNames.get? name
  jobs : ∀ j ∈ e'.queue.jobs, j.target.doc ≠ d → j ∈ e.queue.jobs
  surfaces : ∀ i, ¬own .surface i → e'.surfaces[i]? = e.surfaces[i]?
  resolvers : ∀ i, ¬own .resolver i → e'.resolvers[i]? = e.resolvers[i]?

section

variable {own own' : Part → Nat → Prop}

theorem Apart.domestic (h : Apart o d own e) : Domestic o d own' e e where
  count _ := Nat.le_refl _
  cancelled := h.cancelled
  documents _ _ := rfl
  slots _ _ := rfl
  surfaceNames _ _ := rfl
  tokenNames _ _ := rfl
  targetNames _ _ := rfl
  jobs _ hj _ := hj
  surfaces _ _ := rfl
  resolvers _ _ := rfl

/-- The document may come to own what is new. -/
theorem Domestic.apart_of_le (h : Domestic o d own' e e') (hapart : Apart o d own e)
    (hle : ∀ p i, own p i → own' p i)
    (hnew : ∀ p i, own' p i → own p i ∨ e.count p ≤ i ∧ i < e'.count p) : Apart o d own' e' := by
  have haway : ∀ {p i}, Away own e.count p i → Away own' e'.count p i := by
    intro p i hi
    refine ⟨Nat.lt_of_lt_of_le hi.1 (h.count p), fun hown => ?_⟩
    rcases hnew p i hown with hold | ⟨hge, _⟩
    · exact hi.2 hold
    · exact absurd hi.1 (Nat.not_lt.mpr hge)
  have htarget : ∀ {t : Target}, t.Away d own e.count → t.Away d own' e'.count := fun ht =>
    ⟨ht.doc, haway ht.surface, fun i hi => haway (ht.lifetime i hi)⟩
  constructor
  · intro p i hi
    rcases hnew p i hi with hold | ⟨_, hlt⟩
    · exact Nat.lt_of_lt_of_le (hapart.bound p i hold) (h.count p)
    · exact hlt
  · exact h.cancelled
  · intro x id hx hid
    rw [h.documents x hx] at hid
    exact haway (hapart.documents x id hx hid)
  · intro id s hs hid
    rw [h.slots id hid] at hs
    obtain ⟨ht, hr⟩ := hapart.slots id s hs fun hown => hid (hle _ _ hown)
    exact ⟨htarget ht, haway hr⟩
  · intro name id hname hid
    rw [h.surfaceNames name hname] at hid
    exact haway (hapart.surfaceNames name id hname hid)
  · intro name t hname ht
    rw [h.tokenNames name hname] at ht
    exact fun i hi => haway (hapart.tokenNames name t hname ht i hi)
  · intro name t hname ht
    rw [h.targetNames name hname] at ht
    exact htarget (hapart.targetNames name t hname ht)
  · intro j hj hdoc
    exact htarget (hapart.jobs j (h.jobs j hj hdoc) hdoc)
  · intro id s hs hid
    rw [h.surfaces id hid] at hs
    exact hapart.surfaces id s hs fun hown => hid (hle _ _ hown)
  · intro id r hr hid
    rw [h.resolvers id hid] at hr
    exact hapart.resolvers id r hr fun hown => hid (hle _ _ hown)

theorem Domestic.apart (h : Domestic o d own e e') (hapart : Apart o d own e) : Apart o d own e' :=
  h.apart_of_le hapart (fun _ _ hi => hi) fun _ _ hi => Or.inl hi

end

end Highlighting
