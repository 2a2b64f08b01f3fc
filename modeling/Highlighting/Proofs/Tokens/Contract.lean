/-
The law of the token tree, for any library of cancellation.

A library is asked for one thing: of handles made and cancelled in any way, exactly
those are cancelled that were cancelled themselves or are below one that was.  Scopes
meet that.  Nothing else is known of a library, and nothing else matters: run the same
steps on two desks whose libraries meet the contract, and at any time the tokens under
one name have handles of the same number and the same meter, so they are cancelled on
both desks or on neither, and show the same.

So what is known of tokens that go by scopes is true of any tokens.
-/
import Highlighting.Proofs.Tokens.Cancellation
import Mathlib

namespace Highlighting

/-! ### The contract -/

/-- What may be done with handles.  They go by number, in the order in which they were made. -/
inductive HandleStep where
  | root
  | below (parent : Nat)
  | cancel (handle : Nat)
  deriving DecidableEq, Repr

/-- The handles there are: what each was made below, and which were cancelled, the last one first. -/
structure Family where
  parents : List (Option Nat) := []
  cancelled : List Nat := []

namespace Family

/-- A step that speaks of a handle that is not there does nothing. -/
def enter (f : Family) : HandleStep → Family
  | .root => { f with parents := f.parents ++ [none] }
  | .below p => if p < f.parents.length then { f with parents := f.parents ++ [some p] } else f
  | .cancel i => if i < f.parents.length then { f with cancelled := i :: f.cancelled } else f

def ofSteps (steps : List HandleStep) : Family := steps.foldl enter {}

/-- A handle is at or above another one. -/
inductive Above (f : Family) (x : Nat) : Nat → Prop
  | self : Above f x x
  | child {p c : Nat} (hc : f.parents[c]? = some (some p)) (hp : Above f x p) : Above f x c

variable {f : Family}

theorem ofSteps_concat (steps : List HandleStep) (s : HandleStep) :
    ofSteps (steps ++ [s]) = (ofSteps steps).enter s := by
  rw [ofSteps, List.foldl_append]
  rfl

/-- Handles are below earlier ones. -/
def Descends (f : Family) : Prop := ∀ c p : Nat, f.parents[c]? = some (some p) → p < c

theorem descends_ofSteps (steps : List HandleStep) : (ofSteps steps).Descends := by
  intro c p h
  induction steps using List.reverseRecOn with
  | nil => cases h
  | append_singleton steps s ih =>
      rw [ofSteps_concat] at h
      cases s with
      | root =>
          rw [enter, List.getElem?_append] at h
          split at h
          · exact ih h
          · simp [List.getElem?_singleton] at h
      | below q =>
          rw [enter] at h
          by_cases hq : q < (ofSteps steps).parents.length
          · rw [if_pos hq, List.getElem?_append] at h
            split at h
            · exact ih h
            · simp only [List.getElem?_singleton, Option.ite_none_right_eq_some,
                Option.some.injEq] at h
              omega
          · rw [if_neg hq] at h
            exact ih h
      | cancel i =>
          rw [enter] at h
          split at h <;> exact ih h

/-- A new handle does not change what is above those there are. -/
theorem above_concat_iff (hf : f.Descends) {f' : Family} {o : Option Nat}
    (hf' : f'.parents = f.parents ++ [o]) {x i : Nat} (hi : i < f.parents.length) :
    f'.Above x i ↔ f.Above x i := by
  constructor
  · intro h
    induction h with
    | self => exact .self
    | child hc _ ih =>
        rw [hf', List.getElem?_append_left hi] at hc
        exact .child hc (ih ((hf _ _ hc).trans hi))
  · intro h
    induction h with
    | self => exact .self
    | child hc _ ih =>
        refine .child ?_ (ih ((hf _ _ hc).trans hi))
        rw [hf', List.getElem?_append_left hi, hc]

theorem above_congr (f f' : Family) (hf : f.parents = f'.parents) {x i : Nat} :
    f.Above x i ↔ f'.Above x i := by
  have himp : ∀ {f f' : Family}, f.parents = f'.parents → f.Above x i → f'.Above x i := by
    intro f f' hf h
    induction h with
    | self => exact .self
    | child hc _ ih => exact .child (hf ▸ hc) ih
  exact ⟨himp hf, himp hf.symm⟩

end Family

namespace Cancellation

section Carry

variable {σ : Type} {κ : outParam Type} [Cancellation σ κ]

/-- Does a step, with the handles made so far. -/
def carry (made : List κ × σ) : HandleStep → List κ × σ
  | .root => (made.1 ++ [(root made.2).1], (root made.2).2)
  | .below p =>
    match made.1[p]? with
    | some h => (made.1 ++ [(below made.2 h).1], (below made.2 h).2)
    | none => made
  | .cancel i =>
    match made.1[i]? with
    | some h => (made.1, cancel made.2 h)
    | none => made

/-- The handles that some steps make, and the state behind them. -/
def ofSteps (σ : Type) {κ : outParam Type} [Cancellation σ κ] (steps : List HandleStep) :
    List κ × σ :=
  steps.foldl carry ([], start)

theorem ofSteps_concat (steps : List HandleStep) (s : HandleStep) :
    ofSteps σ (steps ++ [s]) = carry (ofSteps σ steps) s := by
  rw [ofSteps, List.foldl_append]
  rfl

/-- There are as many handles as the steps say. -/
theorem length_ofSteps (steps : List HandleStep) :
    (ofSteps σ steps).1.length = (Family.ofSteps steps).parents.length := by
  induction steps using List.reverseRecOn with
  | nil => rfl
  | append_singleton steps s ih =>
      rw [ofSteps_concat, Family.ofSteps, List.foldl_append]
      change (carry (ofSteps σ steps) s).1.length = ((Family.ofSteps steps).enter s).parents.length
      cases s with
      | root => simp [carry, Family.enter, ih]
      | below p =>
          by_cases hp : p < (Family.ofSteps steps).parents.length <;>
            simp [carry, Family.enter, hp, ih]
      | cancel i =>
          by_cases hi : i < (Family.ofSteps steps).parents.length <;>
            simp [carry, Family.enter, hi, ih]

theorem getElem?_carry {made : List κ × σ} {i : Nat} {h : κ} (hi : made.1[i]? = some h)
    (s : HandleStep) : (carry made s).1[i]? = some h := by
  have hlt := (List.getElem?_eq_some_iff.mp hi).1
  cases s with
  | root => exact (List.getElem?_append_left hlt).trans hi
  | below p =>
      rw [carry]
      split
      · exact (List.getElem?_append_left hlt).trans hi
      · exact hi
  | cancel j =>
      rw [carry]
      split <;> exact hi

/-- Handles keep their numbers. -/
theorem getElem?_ofSteps_append {steps : List HandleStep} {i : Nat} {h : κ}
    (hi : (ofSteps σ steps).1[i]? = some h) (later : List HandleStep) :
    (ofSteps σ (steps ++ later)).1[i]? = some h := by
  induction later using List.reverseRecOn with
  | nil => rwa [List.append_nil]
  | append_singleton later s ih =>
      rw [← List.append_assoc, ofSteps_concat]
      exact getElem?_carry ih s

end Carry

end Cancellation

/-- What is asked of a library: a handle is cancelled exactly when it or one above it was cancelled.
Nothing else cancels it, and there is nothing that takes it back. -/
class LawfulCancellation (σ : Type) {κ : outParam Type} [Cancellation σ κ] : Prop where
  isCancelled_iff : ∀ (steps : List HandleStep) (i : Nat) (h : κ),
    (Cancellation.ofSteps σ steps).1[i]? = some h →
      (Cancellation.isCancelled (Cancellation.ofSteps σ steps).2 h = true ↔
        ∃ x ∈ (Family.ofSteps steps).cancelled, (Family.ofSteps steps).Above x i)

/-! ### Scopes meet it -/

namespace Scopes

/-- Scopes have the numbers of their handles, and a lineage those of the handles above. -/
structure Tracks (made : List Lineage × Scopes) (f : Family) : Prop where
  count : made.2.count = f.parents.length
  cancelled : made.2.cancelled = f.cancelled
  length : made.1.length = f.parents.length
  lineage : ∀ i l, made.1[i]? = some l → l.own = i ∧ ∀ x, x ∈ l.scopes ↔ f.Above x i

theorem Tracks.concat {made : List Lineage × Scopes} {f : Family} (h : Tracks made f)
    (hf : f.Descends) (f' : Family) {o : Option Nat} (ho : ∀ p, o = some p → p < f.parents.length)
    (hparents : f'.parents = f.parents ++ [o]) (hcancelled : f'.cancelled = f.cancelled)
    {l : Lineage} (hown : l.own = made.2.count)
    (hl : ∀ x, x ∈ l.above ↔ ∃ p, o = some p ∧ f.Above x p) :
    Tracks (made.1 ++ [l], { made.2 with count := made.2.count + 1 }) f' where
  count := by simp [hparents, h.count]
  cancelled := by rw [hcancelled, ← h.cancelled]
  length := by simp [hparents, h.length]
  lineage := by
    intro i l' hl'
    rw [List.getElem?_append] at hl'
    split at hl'
    · rename_i hi
      obtain ⟨hown', hmem⟩ := h.lineage i l' hl'
      refine ⟨hown', fun x => ?_⟩
      rw [hmem, Family.above_concat_iff hf hparents (h.length ▸ hi)]
    · rename_i hi
      simp only [List.getElem?_singleton, Option.ite_none_right_eq_some, Option.some.injEq] at hl'
      obtain ⟨hzero, rfl⟩ := hl'
      obtain rfl : i = f.parents.length := by
        have := h.length
        omega
      have hnew : f'.parents[f.parents.length]? = some o := by
        rw [hparents, List.getElem?_concat_length]
      rw [h.count] at hown
      refine ⟨hown, fun x => ?_⟩
      rw [Lineage.scopes, List.mem_cons, hl, hown]
      constructor
      · rintro (rfl | ⟨p, rfl, hx⟩)
        · exact .self
        · exact .child hnew ((Family.above_concat_iff hf hparents (ho p rfl)).mpr hx)
      · intro hx
        cases hx with
        | self => exact Or.inl rfl
        | @child p _ hc hx =>
            rw [hnew, Option.some.injEq] at hc
            exact Or.inr ⟨p, hc, (Family.above_concat_iff hf hparents (ho p hc)).mp hx⟩

theorem tracks_ofSteps (steps : List HandleStep) :
    Tracks (Cancellation.ofSteps Scopes steps) (Family.ofSteps steps) := by
  induction steps using List.reverseRecOn with
  | nil => exact ⟨rfl, rfl, rfl, by simp [Cancellation.ofSteps]⟩
  | append_singleton steps s ih =>
      have hf := Family.descends_ofSteps steps
      rw [Cancellation.ofSteps_concat, Family.ofSteps_concat]
      generalize Cancellation.ofSteps Scopes steps = made at *
      generalize Family.ofSteps steps = f at *
      cases s with
      | root =>
          exact ih.concat hf (f.enter .root) (o := none) (l := ⟨made.2.count, []⟩) (by simp) rfl rfl
            rfl (by simp)
      | below p =>
          by_cases hp : p < f.parents.length
          · have hget := List.getElem?_eq_getElem (ih.length ▸ hp)
            obtain ⟨-, hmem⟩ := ih.lineage p _ hget
            rw [Cancellation.carry, hget, Family.enter, if_pos hp]
            exact ih.concat hf { f with parents := f.parents ++ [some p] } (o := some p)
              (l := ⟨made.2.count, _⟩) (by simpa using hp) rfl rfl rfl (by simpa using hmem)
          · have hget := List.getElem?_eq_none (ih.length ▸ Nat.le_of_not_lt hp)
            rw [Cancellation.carry, hget, Family.enter, if_neg hp]
            exact ih
      | cancel i =>
          by_cases hi : i < f.parents.length
          · have hget := List.getElem?_eq_getElem (ih.length ▸ hi)
            obtain ⟨hown, -⟩ := ih.lineage i _ hget
            rw [Cancellation.carry, hget, Family.enter, if_pos hi]
            refine ⟨ih.count, ?_, ih.length, fun j l hl => ?_⟩
            · show _ :: made.2.cancelled = i :: f.cancelled
              rw [hown, ih.cancelled]
            · obtain ⟨hown', hmem⟩ := ih.lineage j l hl
              exact ⟨hown', fun x => (hmem x).trans
                (Family.above_congr f { f with cancelled := i :: f.cancelled } rfl)⟩
          · have hget := List.getElem?_eq_none (ih.length ▸ Nat.le_of_not_lt hi)
            rw [Cancellation.carry, hget, Family.enter, if_neg hi]
            exact ih

instance : LawfulCancellation Scopes where
  isCancelled_iff := by
    intro steps i l hl
    have htracks := tracks_ofSteps steps
    obtain ⟨-, hmem⟩ := htracks.lineage i l hl
    show l.scopes.any (Cancellation.ofSteps Scopes steps).2.cancelled.contains = true ↔ _
    rw [htracks.cancelled, List.any_eq_true]
    simp only [List.contains_iff_mem, hmem]
    exact exists_congr fun x => And.comm

end Scopes

/-! ### Two desks -/

open Cancellation (ofSteps)

section Twins

variable {σ σ' : Type} {κ κ' : Type} [Cancellation σ κ] [Cancellation σ' κ']

/-- Two tokens with handles of one number, and one meter. -/
structure Token.Twin (σ σ' : Type) {κ κ' : Type} [Cancellation σ κ] [Cancellation σ' κ']
    (steps : List HandleStep) (t : Token κ) (t' : Token κ') : Prop where
  handle : ∃ i : Nat, (ofSteps σ steps).1[i]? = some t.lineage ∧
    (ofSteps σ' steps).1[i]? = some t'.lineage
  meter : t.meter = t'.meter

/-- Two desks after the same steps, which did the same with handles. -/
structure Desk.Twins (steps : List HandleStep) (d : Desk σ κ) (d' : Desk σ' κ') : Prop where
  left : d.tokens.cancellation = (ofSteps σ steps).2
  right : d'.tokens.cancellation = (ofSteps σ' steps).2
  meters : d.tokens.meters = d'.tokens.meters
  names : ∀ name, (d.names.get? name = none ∧ d'.names.get? name = none) ∨
    ∃ t t', d.names.get? name = some t ∧ d'.names.get? name = some t' ∧ t.Twin σ σ' steps t'

section Step

variable {steps more : List HandleStep} {d : Desk σ κ} {d' : Desk σ' κ'} {t : Token κ}
  {t' : Token κ'}

/-- Handles keep their numbers, so twins stay twins. -/
theorem Token.Twin.of_prefix (h : t.Twin σ σ' steps t') (hmore : steps <+: more) :
    t.Twin σ σ' more t' := by
  obtain ⟨later, rfl⟩ := hmore
  obtain ⟨i, hi, hi'⟩ := h.handle
  refine ⟨⟨i, ?_, ?_⟩, h.meter⟩
  · exact Cancellation.getElem?_ofSteps_append hi later
  · exact Cancellation.getElem?_ofSteps_append hi' later

namespace Desk

theorem twins_empty : Twins [] (empty : Desk σ κ) (empty : Desk σ' κ') :=
  ⟨rfl, rfl, rfl, fun _ => Or.inl ⟨rfl, rfl⟩⟩

/-! What can be seen of twins is the same. -/

theorem Twins.isCancelled_eq [LawfulCancellation σ] [LawfulCancellation σ'] (h : Twins steps d d')
    (ht : t.Twin σ σ' steps t') :
    d.tokens.isCancelled t.lineage = d'.tokens.isCancelled t'.lineage := by
  obtain ⟨i, hi, hi'⟩ := ht.handle
  rw [Bool.eq_iff_iff, Tokens.isCancelled, Tokens.isCancelled, h.left, h.right,
    LawfulCancellation.isCancelled_iff steps i _ hi, LawfulCancellation.isCancelled_iff steps i _ hi']

theorem Twins.workDone_eq (h : Twins steps d d') (ht : t.Twin σ σ' steps t') :
    d.tokens.workDone t = d'.tokens.workDone t' := by
  rw [Tokens.workDone, Tokens.workDone, h.meters, ht.meter]

/-- One more token on each desk, made in the same way. -/
theorem Twins.put (h : Twins steps d d') (hmore : steps <+: more) (name : String)
    {made : Token κ × Tokens σ} {made' : Token κ' × Tokens σ'}
    (hleft : made.2.cancellation = (ofSteps σ more).2)
    (hright : made'.2.cancellation = (ofSteps σ' more).2)
    (hmeters : made.2.meters = made'.2.meters) (htwin : made.1.Twin σ σ' more made'.1) :
    Twins more (d.put name made) (d'.put name made') where
  left := hleft
  right := hright
  meters := hmeters
  names := by
    intro name'
    simp only [Desk.put, Registry.get?_set]
    by_cases hname : name' = name
    · rw [if_pos hname, if_pos hname]
      exact Or.inr ⟨made.1, made'.1, rfl, rfl, htwin⟩
    · rw [if_neg hname, if_neg hname]
      rcases h.names name' with hnone | ⟨t, t', ht, ht', htt⟩
      · exact Or.inl hnone
      · exact Or.inr ⟨t, t', ht, ht', htt.of_prefix hmore⟩

/-- Both desks do something with the token under a name, or neither. -/
theorem Twins.withToken (h : Twins steps d d') (name : String)
    {f : Token κ → Option Bool × Desk σ κ} {f' : Token κ' → Option Bool × Desk σ' κ'}
    (hf : ∀ t t', t.Twin σ σ' steps t' → ∃ more, steps <+: more ∧ Twins more (f t).2 (f' t').2) :
    ∃ more, steps <+: more ∧ Twins more (d.withToken name f).2 (d'.withToken name f').2 := by
  rcases h.names name with ⟨hnone, hnone'⟩ | ⟨t, t', ht, ht', htt⟩
  · rw [Desk.withToken, hnone, Desk.withToken, hnone']
    exact ⟨steps, List.prefix_refl _, h⟩
  · rw [Desk.withToken, ht, Desk.withToken, ht']
    exact hf t t' htt

/-- A handle made on both sides. -/
theorem Twins.exists_handle (steps : List HandleStep) {s : HandleStep} {l : κ} {l' : κ'}
    (hl : (ofSteps σ (steps ++ [s])).1 = (ofSteps σ steps).1 ++ [l])
    (hl' : (ofSteps σ' (steps ++ [s])).1 = (ofSteps σ' steps).1 ++ [l']) :
    ∃ i : Nat, (ofSteps σ (steps ++ [s])).1[i]? = some l ∧
      (ofSteps σ' (steps ++ [s])).1[i]? = some l' := by
  refine ⟨(ofSteps σ steps).1.length, ?_, ?_⟩
  · rw [hl, List.getElem?_concat_length]
  · rw [hl', Cancellation.length_ofSteps, ← Cancellation.length_ofSteps (σ := σ'),
      List.getElem?_concat_length]

/-- **A step keeps twins.** -/
theorem Twins.step (h : Twins steps d d') (s : TokenStep) :
    ∃ more, steps <+: more ∧ Twins more (d.step s).2 (d'.step s).2 := by
  cases s with
  | new name =>
      have hleft := Cancellation.ofSteps_concat (σ := σ) steps .root
      have hright := Cancellation.ofSteps_concat (σ := σ') steps .root
      rw [Cancellation.carry, ← h.left] at hleft
      rw [Cancellation.carry, ← h.right] at hright
      refine ⟨_, List.prefix_append steps [.root], h.put (List.prefix_append _ _) name ?_ ?_ ?_ ?_⟩
      · rw [hleft]
        rfl
      · rw [hright]
        rfl
      · show d.tokens.meters ++ [0] = d'.tokens.meters ++ [0]
        rw [h.meters]
      · refine ⟨exists_handle steps (congrArg Prod.fst hleft) (congrArg Prod.fst hright), ?_⟩
        exact congrArg List.length h.meters
  | copy name source =>
      refine h.withToken source fun t t' htt => ⟨steps, List.prefix_refl _, ?_⟩
      exact h.put (List.prefix_refl _) name h.left h.right h.meters htt
  | child name parent =>
      refine h.withToken parent fun t t' htt => ?_
      obtain ⟨i, hi, hi'⟩ := htt.handle
      have hleft := Cancellation.ofSteps_concat (σ := σ) steps (.below i)
      have hright := Cancellation.ofSteps_concat (σ := σ') steps (.below i)
      rw [Cancellation.carry, hi, ← h.left] at hleft
      rw [Cancellation.carry, hi', ← h.right] at hright
      refine ⟨_, List.prefix_append steps [.below i],
        h.put (List.prefix_append _ _) name ?_ ?_ ?_ ?_⟩
      · rw [hleft]
        rfl
      · rw [hright]
        rfl
      · show d.tokens.meters ++ [0] = d'.tokens.meters ++ [0]
        rw [h.meters]
      · refine ⟨exists_handle steps (congrArg Prod.fst hleft) (congrArg Prod.fst hright), ?_⟩
        exact congrArg List.length h.meters
  | wrap name source =>
      refine h.withToken source fun t t' htt => ⟨steps, List.prefix_refl _, ?_⟩
      refine h.put (List.prefix_refl _) name h.left h.right ?_ ⟨htt.handle, ?_⟩
      · show d.tokens.meters ++ [0] = d'.tokens.meters ++ [0]
        rw [h.meters]
      · exact congrArg List.length h.meters
  | cancel name =>
      refine h.withToken name fun t t' htt => ?_
      obtain ⟨i, hi, hi'⟩ := htt.handle
      have hleft := Cancellation.ofSteps_concat (σ := σ) steps (.cancel i)
      have hright := Cancellation.ofSteps_concat (σ := σ') steps (.cancel i)
      rw [Cancellation.carry, hi, ← h.left] at hleft
      rw [Cancellation.carry, hi', ← h.right] at hright
      refine ⟨_, List.prefix_append steps [.cancel i], ?_, ?_, h.meters, fun name' => ?_⟩
      · rw [hleft]
        rfl
      · rw [hright]
        rfl
      · rcases h.names name' with hnone | ⟨u, u', hu, hu', huu⟩
        · exact Or.inl hnone
        · exact Or.inr ⟨u, u', hu, hu', huu.of_prefix (List.prefix_append _ _)⟩
  | drop name =>
      refine ⟨steps, List.prefix_refl _, h.left, h.right, h.meters, fun name' => ?_⟩
      simp only [Desk.step, Registry.get?_erase]
      by_cases hname : name' = name
      · rw [if_pos hname, if_pos hname]
        exact Or.inl ⟨rfl, rfl⟩
      · rw [if_neg hname, if_neg hname]
        exact h.names name'
  | worked name units =>
      refine h.withToken name fun t t' htt => ⟨steps, List.prefix_refl _, h.left, h.right, ?_, h.names⟩
      show d.tokens.meters.modify t.meter _ = d'.tokens.meters.modify t'.meter _
      rw [h.meters, htt.meter]
  | poll name => exact h.withToken name fun t t' htt => ⟨steps, List.prefix_refl _, h⟩

theorem Twins.run (todo : List TokenStep) :
    ∀ {steps : List HandleStep} {d : Desk σ κ} {d' : Desk σ' κ'}, Twins steps d d' →
      ∃ more, steps <+: more ∧ Twins more (d.run todo).2 (d'.run todo).2 := by
  induction todo with
  | nil =>
      intro steps d d' h
      exact ⟨steps, List.prefix_refl _, h⟩
  | cons s rest ih =>
      intro steps d d' h
      obtain ⟨more, hfirst, hstep⟩ := h.step s
      obtain ⟨all, hrest, hrun⟩ := ih hstep
      exact ⟨all, hfirst.trans hrest, hrun⟩

theorem Twins.exists_twin (h : Twins steps d d') {name : String} (ht : d.names.get? name = some t) :
    ∃ t', d'.names.get? name = some t' ∧ t.Twin σ σ' steps t' := by
  rcases h.names name with ⟨hnone, -⟩ | ⟨u, t', hu, ht', htt⟩
  · rw [ht] at hnone
    cases hnone
  · rw [ht] at hu
    cases hu
    exact ⟨t', ht', htt⟩

end Desk

end Step

end Twins

/-! ### The law of the token tree -/

namespace Desk

/-- **Cancelling goes down the tree, progress stays with the copies**, whatever library does the
cancelling, as long as it meets its contract.  Take a token that some name stands for after some steps, and any steps after that, whether or not the name still stands for it.
It is cancelled if and only if a token that reaches it was ever cancelled, and it shows what was
reported through it and its copies; reporting tells whether it is cancelled.  So cancelling is for
good, a child of a cancelled token starts out cancelled, and neither a child nor what shares its
cancellation reaches the parent or another child of the parent. -/
theorem cancelled_iff_reached {σ κ : Type} [Cancellation σ κ] [LawfulCancellation σ]
    (before later : List TokenStep) (name : String) (t : Token κ)
    (ht : ((empty : Desk σ κ).run before).2.names.get? name = some t) :
    let d := ((empty : Desk σ κ).run (before ++ later)).2
    let l := Ledger.ofSteps (before ++ later)
    ∃ i, (Ledger.ofSteps before).holders.get? name = some i ∧
      (d.tokens.isCancelled t.lineage = true ↔ ∃ x ∈ l.cancels, l.Reaches x i) ∧
      (d.tokens.workDone t).toNat = l.reported i % UInt32.size ∧
      (∀ n units, d.names.get? n = some t →
        (d.step (.worked n units)).1
          = some ((d.step (.worked n units)).2.tokens.isCancelled t.lineage)) ∧
      (((empty : Desk σ κ).run before).2.tokens.isCancelled t.lineage = true →
        d.tokens.isCancelled t.lineage = true) ∧
      (∀ n m, d.names.get? n = some t → d.tokens.isCancelled t.lineage = true →
        ∃ c, (d.step (.child m n)).2.names.get? m = some c ∧
          (d.step (.child m n)).2.tokens.isCancelled c.lineage = true) ∧
      ∀ c p, l.origins[c]? = some (.child p) → l.SameScope c i →
        ¬ l.Reaches i p ∧
        ∀ c' q, c' ≠ c → l.origins[c']? = some (.child q) → l.SameScope p q → ¬ l.Reaches i c' := by
  intro d l
  -- the same steps with scopes
  let e : TokenDesk := (TokenDesk.empty.run (before ++ later)).2
  have hd : d = (((empty : Desk σ κ).run before).2.run later).2 := run_append before later empty
  have he : e = ((TokenDesk.empty.run before).2.run later).2 :=
    run_append before later TokenDesk.empty
  obtain ⟨made, -, hbefore⟩ := Ledger.matches_empty.run before
  obtain ⟨made', hmade, hlater⟩ := hbefore.run later
  have hmatches : l.Matches e made' := by
    have hledger : l = later.foldl Ledger.enter (Ledger.ofSteps before) := List.foldl_append
    rw [hledger, he]
    exact hlater
  have hstart : Twins [] (empty : Desk σ κ) TokenDesk.empty := twins_empty
  obtain ⟨steps, -, htwins⟩ := hstart.run before
  obtain ⟨more, hmore, htwins'⟩ := htwins.run later
  rw [← hd, ← he] at htwins'
  obtain ⟨u, hu, htu⟩ := htwins.exists_twin ht
  have htu' := htu.of_prefix hmore
  rcases hbefore.names name with ⟨-, hnone⟩ | ⟨i, v, hi, hv, hiv⟩
  · rw [hu] at hnone
    cases hnone
  · obtain rfl : u = v := Option.some.inj (hu.symm.trans hv)
    have hiu : made'[i]? = some u := by
      obtain ⟨rest, rfl⟩ := hmade
      rw [List.getElem?_append_left (List.getElem?_eq_some_iff.mp hiv).1, hiv]
    refine ⟨i, hi, ?_, ?_, ?_, ?_, ?_, ?_⟩
    · rw [htwins'.isCancelled_eq htu', hmatches.isCancelled_iff hiu]
    · rw [htwins'.workDone_eq htu', hmatches.workDone_eq hiu]
    · intro n units hn
      simp only [step, withToken, hn]
      rfl
    · rw [htwins.isCancelled_eq htu, htwins'.isCancelled_eq htu']
      refine TokenDesk.isCancelled_of_subset ?_
      rw [he]
      exact TokenDesk.cancelled_subset_run later _
    · intro n m hn hc
      obtain ⟨w, hw, htw⟩ := htwins'.exists_twin hn
      obtain ⟨_, -, hchild⟩ := htwins'.step (.child m n)
      have hnew : (d.step (.child m n)).2.names.get? m = some (d.tokens.child t).1 := by
        simp [step, withToken, hn, put, Registry.get?_set]
      have hnew' : (e.step (.child m n)).2.names.get? m = some (e.tokens.child w).1 := by
        simp [step, withToken, hw, put, Registry.get?_set]
      obtain ⟨c, hc', htc⟩ := hchild.exists_twin hnew
      obtain rfl : (e.tokens.child w).1 = c := Option.some.inj (hnew'.symm.trans hc')
      refine ⟨_, hnew, ?_⟩
      rw [hchild.isCancelled_eq htc]
      rw [htwins'.isCancelled_eq htw] at hc
      simp only [step, withToken, hw]
      exact TokenDesk.isCancelled_child hc
    · intro c p hp hci
      refine ⟨fun hreach => ?_, fun c' q hne hq hpq hreach => ?_⟩
      · exact hmatches.genealogy.not_reaches_parent hp (hreach.of_sameScope hci)
      · exact hmatches.genealogy.not_reaches_sibling hp hq hpq hne.symm (hreach.of_sameScope hci)

/-- A grandchild outlives the handles to its parent and to the root, and is cancelled through a
wrapper of the root. -/
theorem cancelled_past_dropped_tokens :
    let before : List TokenStep := [.new "root", .child "middle" "root", .child "leaf" "middle"]
    let later : List TokenStep :=
      [.drop "middle", .wrap "other" "root", .drop "root", .worked "leaf" 5, .cancel "other"]
    let leaf : Token := ⟨⟨2, [1, 0]⟩, 2⟩
    (TokenDesk.empty.run before).2.names.get? "leaf" = some leaf ∧
    (TokenDesk.empty.run (before ++ later)).2.tokens.isCancelled leaf.lineage = true ∧
    (∃ x ∈ (Ledger.ofSteps (before ++ later)).cancels,
      (Ledger.ofSteps (before ++ later)).Reaches x 2) ∧
    5 = (Ledger.ofSteps (before ++ later)).reported 2 % UInt32.size := by
  intro before later leaf
  have hleaf : (TokenDesk.empty.run before).2.names.get? "leaf" = some leaf := by decide
  have hcancelled : (TokenDesk.empty.run (before ++ later)).2.tokens.isCancelled leaf.lineage = true := by
    decide
  obtain ⟨i, hi, hiff, hwork, -⟩ := cancelled_iff_reached (σ := Scopes) before later "leaf" leaf hleaf
  have htwo : (Ledger.ofSteps before).holders.get? "leaf" = some 2 := by decide
  obtain rfl : i = 2 := Option.some.inj (hi.symm.trans htwo)
  have hdone : (TokenDesk.empty.run (before ++ later)).2.tokens.workDone leaf = 5 := by decide
  change ((TokenDesk.empty.run (before ++ later)).2.tokens.workDone leaf).toNat = _ at hwork
  rw [hdone] at hwork
  exact ⟨hleaf, hcancelled, hiff.mp hcancelled, hwork⟩

end Desk

end Highlighting
