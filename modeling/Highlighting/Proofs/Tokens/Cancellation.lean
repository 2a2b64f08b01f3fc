/-
Which tokens a sequence of steps leaves cancelled, and what was reported through them,
where cancellation goes by scopes.

The tokens made so far, dropped ones included, fit the ledger of the steps, and what
the desk keeps is what the ledger says of them: a scope is cancelled for each token
that was, and a meter shows what was reported through the tokens that have it.  Each
step keeps this up, so it holds after any steps; the tokens made before are then
still the first ones, by the same numbers.

With what lineages and meters say about origins, a token is cancelled if and only if
one that reaches it was, at any time, and its progress is that of its copies and its
own.
-/
import Highlighting.Proofs.Tokens.Genealogy
import Mathlib

namespace Highlighting

/-- The state behind the tokens after one more was made: at most a scope and a meter are new. -/
structure Tokens.Makes (before : Tokens) (t : Token) (after : Tokens) : Prop where
  scopes_le : before.scopes ≤ after.scopes
  scopes_lt : ∀ s ∈ t.lineage.scopes, s < after.scopes
  meter_lt : t.meter < after.meters.length
  meters : ∃ n, after.meters = before.meters ++ List.replicate n 0
  cancelled : after.cancelled = before.cancelled

/-- A token for a scope that is there or just handed out, with a meter of its own. -/
theorem Tokens.makes_wrap {before after : Tokens} {lineage : Lineage}
    (hscopes : before.scopes ≤ after.scopes) (hlineage : ∀ s ∈ lineage.scopes, s < after.scopes)
    (hmeters : after.meters = before.meters) (hcancelled : after.cancelled = before.cancelled) :
    Tokens.Makes before (after.wrap lineage).1 (after.wrap lineage).2 where
  scopes_le := hscopes
  scopes_lt := hlineage
  meter_lt := by simp [Tokens.wrap]
  meters := ⟨1, by simp [Tokens.wrap, hmeters]⟩
  cancelled := hcancelled

namespace Ledger

/-- What was reported through the tokens with a given meter. -/
def metered (l : Ledger) (made : List Token) (m : Nat) : Nat :=
  ((l.reports.filter fun r => made[r.1]?.map Token.meter = some m).map fun r => r.2.toNat).sum

open Classical in
/-- What was reported through a token and its copies. -/
noncomputable def reported (l : Ledger) (t : Nat) : Nat :=
  ((l.reports.filter fun r => l.SameMeter r.1 t).map fun r => r.2.toNat).sum

/-- The desk is as the ledger says, given the tokens made so far. -/
structure Matches (l : Ledger) (d : TokenDesk) (made : List Token) : Prop where
  genealogy : Genealogy l.origins made
  names : ∀ name, (l.holders.get? name = none ∧ d.names.get? name = none) ∨
    ∃ x t, l.holders.get? name = some x ∧ d.names.get? name = some t ∧ made[x]? = some t
  /-- Scopes and meters are handed out in order, so the next one is new. -/
  scopes_lt : ∀ t ∈ made, ∀ s ∈ t.lineage.scopes, s < d.tokens.scopes
  meter_lt : ∀ t ∈ made, t.meter < d.tokens.meters.length
  cancelled : d.tokens.cancelled.map some = l.cancels.map fun x => made[x]?.map (·.lineage.own)
  reports_lt : ∀ r ∈ l.reports, r.1 < made.length
  meters : ∀ (m : Nat) (w : UInt32), d.tokens.meters[m]? = some w →
    w.toNat = l.metered made m % UInt32.size

theorem matches_empty : Matches {} .empty [] where
  genealogy := ⟨rfl, by simp⟩
  names := fun name => .inl ⟨rfl, rfl⟩
  scopes_lt := by simp
  meter_lt := by simp
  cancelled := rfl
  reports_lt := by simp
  meters := by simp [TokenDesk.empty, Desk.empty, Tokens.empty]

namespace Matches

variable {l : Ledger} {d : TokenDesk} {made : List Token}

theorem exists_cancelled (h : l.Matches d made) {x : Nat} (hx : x ∈ l.cancels) :
    ∃ t, made[x]? = some t := by
  have hmem : made[x]?.map (·.lineage.own) ∈ d.tokens.cancelled.map some := by
    rw [h.cancelled]
    exact List.mem_map_of_mem hx
  obtain ⟨s, -, hs⟩ := List.mem_map.mp hmem
  obtain ⟨t, ht, -⟩ := Option.map_eq_some_iff.mp hs.symm
  exact ⟨t, ht⟩

theorem mem_cancelled_iff (h : l.Matches d made) (s : Nat) :
    s ∈ d.tokens.cancelled ↔ ∃ x ∈ l.cancels, ∃ t, made[x]? = some t ∧ t.lineage.own = s := by
  have hmem : s ∈ d.tokens.cancelled ↔ some s ∈ d.tokens.cancelled.map some := by simp
  rw [hmem, h.cancelled, List.mem_map]
  simp only [Option.map_eq_some_iff]

/-! ### What the desk says of a token -/

/-- **A token is cancelled exactly if one that reaches it was cancelled.** -/
theorem isCancelled_iff (h : l.Matches d made) {i : Nat} {t : Token} (ht : made[i]? = some t) :
    d.tokens.isCancelled t.lineage = true ↔ ∃ x ∈ l.cancels, l.Reaches x i := by
  simp only [Tokens.isCancelled_eq, List.any_eq_true, List.contains_iff_mem, h.mem_cancelled_iff]
  constructor
  · rintro ⟨s, hs, x, hx, u, hu, rfl⟩
    exact ⟨x, hx, (h.genealogy.reaches_iff hu ht).mpr hs⟩
  · rintro ⟨x, hx, hreach⟩
    obtain ⟨u, hu⟩ := h.exists_cancelled hx
    exact ⟨_, (h.genealogy.reaches_iff hu ht).mp hreach, x, hx, u, hu, rfl⟩

theorem metered_eq_reported (h : l.Matches d made) {i : Nat} {t : Token} (ht : made[i]? = some t) :
    l.metered made t.meter = l.reported i := by
  rw [metered, reported]
  congr 2
  refine List.filter_congr fun r hr => ?_
  have hu := List.getElem?_eq_getElem (h.reports_lt r hr)
  simp [hu, h.genealogy.sameMeter_iff hu ht]

/-- **The progress of a token is what was reported through it and its copies**, up to wrapping. -/
theorem workDone_eq (h : l.Matches d made) {i : Nat} {t : Token} (ht : made[i]? = some t) :
    (d.tokens.workDone t).toNat = l.reported i % UInt32.size := by
  have hlt := h.meter_lt t (List.mem_of_getElem? ht)
  have hw := List.getElem?_eq_getElem hlt
  rw [Tokens.workDone, hw, Option.getD_some, h.meters _ _ hw, h.metered_eq_reported ht]

/-! ### Making a token -/

theorem metered_snoc (h : l.Matches d made) (t : Token) (m : Nat) :
    l.metered (made ++ [t]) m = l.metered made m := by
  rw [metered, metered]
  congr 2
  refine List.filter_congr fun r hr => ?_
  rw [List.getElem?_append_left (h.reports_lt r hr)]

/-- A meter that is not handed out shows nothing. -/
theorem metered_eq_zero (h : l.Matches d made) {m : Nat} (hm : d.tokens.meters.length ≤ m) :
    l.metered made m = 0 := by
  have hnone : l.reports.filter (fun r => made[r.1]?.map Token.meter = some m) = [] := by
    rw [List.filter_eq_nil_iff]
    intro r hr hmeter
    have hu := List.getElem?_eq_getElem (h.reports_lt r hr)
    simp only [hu, Option.map_some, Option.some.injEq, decide_eq_true_eq] at hmeter
    have hlt := h.meter_lt _ (List.mem_of_getElem? hu)
    omega
  rw [metered, hnone]
  rfl

theorem make (h : l.Matches d made) (name : String) {o : Origin} {t : Token} {ts : Tokens}
    (hfits : o.Fits made t) (hmade : d.tokens.Makes t ts) :
    (l.make name o).Matches (d.put name (t, ts)) (made ++ [t]) where
  genealogy := h.genealogy.snoc hfits
  names := by
    intro name'
    simp only [Ledger.make, Desk.put, Registry.get?_set]
    by_cases hname : name' = name
    · rw [if_pos hname, if_pos hname]
      exact .inr ⟨_, t, rfl, rfl, by rw [← h.genealogy.length, List.getElem?_concat_length]⟩
    · rw [if_neg hname, if_neg hname]
      rcases h.names name' with hnone | ⟨x, u, hx, hu, hxu⟩
      · exact .inl hnone
      · refine .inr ⟨x, u, hx, hu, ?_⟩
        rw [List.getElem?_append_left (List.getElem?_eq_some_iff.mp hxu).1, hxu]
  scopes_lt := by
    intro u hu s hs
    rcases List.mem_append.mp hu with hu | hu
    · exact (h.scopes_lt u hu s hs).trans_le hmade.scopes_le
    · rw [List.mem_singleton.mp hu] at hs
      exact hmade.scopes_lt s hs
  meter_lt := by
    intro u hu
    show u.meter < ts.meters.length
    rcases List.mem_append.mp hu with hu | hu
    · obtain ⟨n, hn⟩ := hmade.meters
      have hlt := h.meter_lt u hu
      rw [hn, List.length_append]
      omega
    · rw [List.mem_singleton.mp hu]
      exact hmade.meter_lt
  cancelled := by
    show ts.cancelled.map some = l.cancels.map fun x => (made ++ [t])[x]?.map (·.lineage.own)
    rw [hmade.cancelled, h.cancelled]
    refine List.map_congr_left fun x hx => ?_
    obtain ⟨u, hu⟩ := h.exists_cancelled hx
    rw [List.getElem?_append_left (List.getElem?_eq_some_iff.mp hu).1]
  reports_lt := by
    intro r hr
    have hlt := h.reports_lt r hr
    rw [List.length_append]
    omega
  meters := by
    intro m w hw
    show w.toNat = l.metered (made ++ [t]) m % UInt32.size
    obtain ⟨n, hn⟩ := hmade.meters
    rw [h.metered_snoc]
    rcases Nat.lt_or_ge m d.tokens.meters.length with hm | hm
    · refine h.meters m w ?_
      rw [← hw]
      show d.tokens.meters[m]? = ts.meters[m]?
      rw [hn, List.getElem?_append_left hm]
    · have hzero : w = 0 := by
        have hmem : ts.meters[m]? = some w := hw
        rw [hn, List.getElem?_append_right hm] at hmem
        exact List.eq_of_mem_replicate (List.mem_of_getElem? hmem)
      rw [h.metered_eq_zero hm, hzero]
      rfl

/-! ### Every step -/

theorem newScope (h : l.Matches d made) (t : Token) (ht : t.lineage.own = d.tokens.scopes) :
    t.NewScope made := by
  intro u hu s hs
  rw [ht]
  exact h.scopes_lt u hu s hs

theorem newMeter (h : l.Matches d made) (t : Token) (ht : t.meter = d.tokens.meters.length) :
    t.NewMeter made := by
  intro u hu
  rw [ht]
  exact h.meter_lt u hu

/-- The ledger and the desk do something with a token under a name for the same names. -/
theorem withName (h : l.Matches d made) (name : String) {f : Nat → Ledger}
    {g : Token → Option Bool × TokenDesk}
    (hfg : ∀ x t, made[x]? = some t → ∃ made', made <+: made' ∧ (f x).Matches (g t).2 made') :
    ∃ made', made <+: made' ∧ (l.withHolder name f).Matches (d.withToken name g).2 made' := by
  rcases h.names name with ⟨hl, hd⟩ | ⟨x, t, hl, hd, hxt⟩
  · refine ⟨made, List.prefix_refl _, ?_⟩
    rw [withHolder, hl, Desk.withToken, hd]
    exact h
  · rw [withHolder, hl, Desk.withToken, hd]
    exact hfg x t hxt

theorem cancel (h : l.Matches d made) {x : Nat} {t : Token} (hxt : made[x]? = some t) :
    ({ l with cancels := x :: l.cancels } : Ledger).Matches
      { d with tokens := d.tokens.cancel t.lineage } made := by
  refine ⟨h.genealogy, h.names, h.scopes_lt, h.meter_lt, ?_, h.reports_lt, h.meters⟩
  show (t.lineage.own :: d.tokens.cancelled).map some = _
  rw [List.map_cons, List.map_cons, h.cancelled, hxt, Option.map_some]

theorem drop (h : l.Matches d made) (name : String) :
    ({ l with holders := l.holders.erase name } : Ledger).Matches
      { d with names := d.names.erase name } made := by
  refine ⟨h.genealogy, fun name' => ?_, h.scopes_lt, h.meter_lt, h.cancelled, h.reports_lt,
    h.meters⟩
  simp only [Registry.get?_erase]
  by_cases hname : name' = name
  · rw [if_pos hname, if_pos hname]
    exact .inl ⟨rfl, rfl⟩
  · rw [if_neg hname, if_neg hname]
    exact h.names name'

theorem worked (h : l.Matches d made) {x : Nat} {t : Token} (hxt : made[x]? = some t)
    (units : UInt32) :
    ({ l with reports := (x, units) :: l.reports } : Ledger).Matches
      { d with tokens := d.tokens.worked t units } made := by
  refine ⟨h.genealogy, h.names, h.scopes_lt, fun u hu => ?_, h.cancelled, fun r hr => ?_,
    fun m w hw => ?_⟩
  · show u.meter < (d.tokens.meters.modify t.meter (· + units)).length
    rw [List.length_modify]
    exact h.meter_lt u hu
  · rcases List.mem_cons.mp hr with rfl | hr
    · exact (List.getElem?_eq_some_iff.mp hxt).1
    · exact h.reports_lt r hr
  · have hmeter : (d.tokens.meters.modify t.meter (· + units))[m]? = some w := hw
    rw [List.getElem?_modify] at hmeter
    obtain ⟨v, hv, rfl⟩ := Option.map_eq_some_iff.mp hmeter
    have hold := h.meters m v hv
    rw [metered] at hold
    rw [metered, List.filter_cons, hxt, Option.map_some]
    by_cases hm : t.meter = m
    · simp only [hm, if_true, decide_true, List.map_cons, List.sum_cons]
      rw [UInt32.toNat_add, hold, Nat.mod_add_mod, Nat.add_comm]
    · simp [hm, hold]

/-- **A step keeps the desk as the ledger says**, and the tokens made before keep their numbers. -/
theorem step (h : l.Matches d made) (s : TokenStep) :
    ∃ made', made <+: made' ∧ (l.enter s).Matches (d.step s).2 made' := by
  cases s with
  | new name =>
      have hfits : Origin.new.Fits made d.tokens.new.1 :=
        ⟨rfl, h.newScope _ rfl, h.newMeter _ rfl⟩
      refine ⟨_, List.prefix_append made _, h.make name hfits (Tokens.makes_wrap ?_ ?_ rfl rfl)⟩
      · exact Nat.le_succ _
      · intro s hs
        rw [List.mem_singleton.mp hs]
        exact Nat.lt_succ_self _
  | copy name source =>
      refine h.withName source fun x t hxt => ?_
      have hmem := List.mem_of_getElem? hxt
      have hfits : (Origin.copy x).Fits made t := hxt
      refine ⟨_, List.prefix_append made _, h.make name hfits ?_⟩
      exact ⟨le_rfl, h.scopes_lt t hmem, h.meter_lt t hmem, ⟨0, by simp⟩, rfl⟩
  | child name parent =>
      refine h.withName parent fun x t hxt => ?_
      have hmem := List.mem_of_getElem? hxt
      have hfits : (Origin.child x).Fits made (d.tokens.child t).1 :=
        ⟨⟨t, hxt, rfl⟩, h.newScope _ rfl, h.newMeter _ rfl⟩
      refine ⟨_, List.prefix_append made _, h.make name hfits (Tokens.makes_wrap ?_ ?_ rfl rfl)⟩
      · exact Nat.le_succ _
      · intro s hs
        rcases List.mem_cons.mp hs with rfl | hs
        · exact Nat.lt_succ_self _
        · exact Nat.lt_succ_of_lt (h.scopes_lt t hmem s hs)
  | wrap name source =>
      refine h.withName source fun x t hxt => ?_
      have hmem := List.mem_of_getElem? hxt
      have hfits : (Origin.wrap x).Fits made (d.tokens.wrap t.lineage).1 :=
        ⟨⟨t, hxt, rfl⟩, h.newMeter _ rfl⟩
      exact ⟨_, List.prefix_append made _,
        h.make name hfits (Tokens.makes_wrap le_rfl (h.scopes_lt t hmem) rfl rfl)⟩
  | cancel name => exact h.withName name fun x t hxt => ⟨made, List.prefix_refl _, h.cancel hxt⟩
  | drop name => exact ⟨made, List.prefix_refl _, h.drop name⟩
  | worked name units =>
      exact h.withName name fun x t hxt => ⟨made, List.prefix_refl _, h.worked hxt units⟩
  | poll name =>
      have hsame : (d.step (.poll name)).2 = d := by
        rw [Desk.step, Desk.withToken]
        cases d.names.get? name with
        | none => rfl
        | some t => rfl
      rw [hsame]
      exact ⟨made, List.prefix_refl _, h⟩

theorem run (steps : List TokenStep) :
    ∀ {l : Ledger} {d : TokenDesk} {made : List Token}, l.Matches d made →
      ∃ made', made <+: made' ∧ (steps.foldl enter l).Matches (d.run steps).2 made' := by
  induction steps with
  | nil => intro l d made h; exact ⟨made, List.prefix_refl _, h⟩
  | cons s rest ih =>
      intro l d made h
      obtain ⟨made', hfirst, hstep⟩ := h.step s
      obtain ⟨made'', hrest, hrun⟩ := ih hstep
      exact ⟨made'', hfirst.trans hrest, hrun⟩

end Matches

end Ledger

theorem Desk.run_append {σ κ : Type} [Cancellation σ κ] (steps more : List TokenStep) :
    ∀ d : Desk σ κ, (d.run (steps ++ more)).2 = ((d.run steps).2.run more).2 := by
  induction steps with
  | nil => intro d; rfl
  | cons s rest ih => intro d; exact ih (d.step s).2

/-! ### Cancelling is for good -/

namespace TokenDesk

theorem isCancelled_of_subset {ts us : Tokens} (h : ts.cancelled ⊆ us.cancelled)
    {lineage : Lineage} (hc : ts.isCancelled lineage = true) : us.isCancelled lineage = true := by
  simp only [Tokens.isCancelled_eq, List.any_eq_true, List.contains_iff_mem] at hc ⊢
  obtain ⟨s, hs, hmem⟩ := hc
  exact ⟨s, hs, h hmem⟩

theorem cancelled_subset_step (d : TokenDesk) (s : TokenStep) :
    d.tokens.cancelled ⊆ (d.step s).2.tokens.cancelled := by
  have hwith : ∀ (name : String) (f : Token → Option Bool × TokenDesk),
      (∀ t, d.tokens.cancelled ⊆ (f t).2.tokens.cancelled) →
        d.tokens.cancelled ⊆ (d.withToken name f).2.tokens.cancelled := by
    intro name f hf
    rw [Desk.withToken]
    cases d.names.get? name with
    | none => exact List.Subset.refl _
    | some t => exact hf t
  cases s with
  | new name => exact List.Subset.refl _
  | copy name source => exact hwith source _ fun t => List.Subset.refl _
  | child name parent => exact hwith parent _ fun t => List.Subset.refl _
  | wrap name source => exact hwith source _ fun t => List.Subset.refl _
  | cancel name => exact hwith name _ fun t => List.subset_cons_self _ _
  | drop name => exact List.Subset.refl _
  | worked name units => exact hwith name _ fun t => List.Subset.refl _
  | poll name => exact hwith name _ fun t => List.Subset.refl _

theorem cancelled_subset_run (steps : List TokenStep) :
    ∀ d : TokenDesk, d.tokens.cancelled ⊆ (d.run steps).2.tokens.cancelled := by
  induction steps with
  | nil => intro d; exact List.Subset.refl _
  | cons s rest ih => intro d; exact List.Subset.trans (d.cancelled_subset_step s) (ih (d.step s).2)

/-- A child of a cancelled token is cancelled from the start. -/
theorem isCancelled_child {ts : Tokens} {t : Token} (h : ts.isCancelled t.lineage = true) :
    (ts.child t).2.isCancelled (ts.child t).1.lineage = true := by
  simp only [Tokens.isCancelled_eq, List.any_eq_true, List.contains_iff_mem] at h ⊢
  obtain ⟨s, hs, hmem⟩ := h
  exact ⟨s, List.mem_cons_of_mem _ hs, hmem⟩

end TokenDesk

end Highlighting
