/-
The marks of a tree, as an auction.

The classification of a tree fills a table node by node and sorts what the table
holds.  The same marks come out if the nodes bid for their spans, the bids are
sorted, and each then displaces the next one for its own span.  That has no table in
it, so it can be evaluated, and proofs about marks go by it.

Two inductions carry this.  Along the nodes, the table holds the best of the bids
made so far for each place, and no place without a bid; it is a bid that fails to be
better, or the first for its place, that says which.  Along the sorted bids from
their end, as `foldr` goes, a bid is never behind any of those already decided, so
what is left is in strict order of position and a span never wins twice.
-/
import Highlighting.Classification
import Highlighting.Proofs.Delta
import Highlighting.Proofs.Walk
import Highlighting.Style.Table
import Mathlib

namespace Highlighting

theorem Mark.Before.trans {a b c : Mark} (hab : a.Before b) (hbc : b.Before c) : a.Before c := by
  simp only [Mark.Before, UInt32.lt_iff_toNat_lt, ← UInt32.toNat_inj] at *
  omega

instance : Std.Irrefl Mark.Before where
  irrefl _ h := h.not_sameSpan rfl rfl

instance : Std.Antisymm Mark.Before where
  antisymm _ _ hab hba := absurd rfl ((hab.trans hba).not_sameSpan rfl)

theorem Mark.toOption_make_eq_some_iff {offset length : UInt32} {kind : Kind} {m : Mark} :
    (Mark.make offset length kind).toOption = some m ↔
      m.offset = offset ∧ m.length = length ∧ m.kind = kind := by
  unfold Mark.make
  constructor
  · intro h
    by_cases hpos : 0 < length
    · rw [dif_pos hpos] at h
      cases h
      exact ⟨rfl, rfl, rfl⟩
    · rw [dif_neg hpos] at h
      cases h
  · rintro ⟨rfl, rfl, rfl⟩
    rw [dif_pos m.length_pos]
    rfl

/-! ### Bids -/

/-- A mark somebody asks for, with the place of the rule behind it. -/
structure Bid where
  mark : Mark
  rank : Nat

namespace Bid

/-- The offset and the length a bid is for. -/
def place (b : Bid) : UInt32 × UInt32 := (b.mark.offset, b.mark.length)

/-- The kind that is asked for, with the place of its rule. -/
def found (b : Bid) : Nat × Kind := (b.rank, b.mark.kind)

/-- Whether two bids are for the same span. -/
def sameSpan (a b : Bid) : Bool :=
  a.mark.offset == b.mark.offset && a.mark.length == b.mark.length

/-- By position; for one span the better bid first. -/
def le (a b : Bid) : Bool :=
  if a.mark.offset = b.mark.offset then
    if a.mark.length = b.mark.length then
      if a.rank = b.rank then a.mark.kind.index ≤ b.mark.kind.index
      else a.rank < b.rank
    else a.mark.length < b.mark.length
  else a.mark.offset < b.mark.offset

theorem le_iff (a b : Bid) :
    a.le b = true ↔ a.mark.offset.toNat < b.mark.offset.toNat ∨
      a.mark.offset.toNat = b.mark.offset.toNat ∧
      (a.mark.length.toNat < b.mark.length.toNat ∨ a.mark.length.toNat = b.mark.length.toNat ∧
        (a.rank < b.rank ∨ a.rank = b.rank ∧ a.mark.kind.index ≤ b.mark.kind.index)) := by
  unfold le
  simp only [← UInt32.toNat_inj, UInt32.lt_iff_toNat_lt]
  repeat' split
  all_goals simp only [decide_eq_true_eq]; omega

theorem le_trans {a b c : Bid} (hab : a.le b = true) (hbc : b.le c = true) : a.le c = true := by
  rw [le_iff] at *
  omega

theorem le_total (a b : Bid) : (a.le b || b.le a) = true := by
  rw [Bool.or_eq_true, le_iff, le_iff]
  omega

/-- Puts a bid in front of those that win behind it; it displaces one for the same span. -/
def win (b : Bid) : List Bid → List Bid
  | [] => [b]
  | w :: rest => if b.sameSpan w then b :: rest else b :: w :: rest

/-- The best bid for each span, in the order of the spans. -/
def winners (bids : List Bid) : List Bid :=
  (bids.mergeSort le).foldr win []

end Bid

/-- What a node bids, given what the policy says of it; `none` if it may not. -/
def Label.bid? (l : Label) (sourceLength : Option UInt32) (rank : Nat) (kind : Kind) :
    Option Bid := do
  let s ← l.span
  guard (s.isWithin sourceLength && !l.flags.synthetic)
  let mark ← (Mark.make s.start s.length kind).toOption
  return ⟨mark, rank⟩

namespace Policy

/-- What a node bids, if a rule fires on it. -/
def bidOf (p : Policy) (sourceLength : Option UInt32) (l : Label) : Option (Option Bid) :=
  (p.classify l).map fun found => l.bid? sourceLength found.1 found.2

/-- What the nodes a rule fires on bid, in the order of the walk. -/
def bids (p : Policy) (t : SyntaxTree) : List (Option Bid) :=
  t.root.walk.filterMap fun n => p.bidOf t.sourceLength n.label

/-- The marks of a tree as those of the bids that win. -/
def auction (p : Policy) (t : SyntaxTree) : Classification where
  marks := (Bid.winners ((p.bids t).filterMap id)).map (·.mark)
  skipped := (p.bids t).countP Option.isNone
  visited := t.root.count

end Policy

/-! ### Bids that win -/

namespace Bid

theorem sameSpan_iff (a b : Bid) :
    a.sameSpan b = true ↔ a.mark.offset = b.mark.offset ∧ a.mark.length = b.mark.length := by
  simp [sameSpan]

/-- A bid that is not behind another is before it, unless they are for the same span. -/
theorem before_of_le {a b : Bid} (h : a.le b = true) (hne : ¬ a.sameSpan b = true) :
    a.mark.Before b.mark := by
  rw [le_iff] at h
  rw [sameSpan_iff] at hne
  simp only [Mark.Before, UInt32.lt_iff_toNat_lt, ← UInt32.toNat_inj] at *
  omega

theorem eq_of_le {a b : Bid} (hab : a.le b = true) (hba : b.le a = true) : a = b := by
  rw [le_iff] at hab hba
  obtain ⟨⟨offset, length, kind, _⟩, rank⟩ := a
  obtain ⟨⟨offset', length', kind', _⟩, rank'⟩ := b
  simp only at hab hba
  obtain rfl : offset = offset' := UInt32.toNat_inj.mp (by omega)
  obtain rfl : length = length' := UInt32.toNat_inj.mp (by omega)
  obtain rfl : kind = kind' := Kind.index_injective (by omega)
  obtain rfl : rank = rank' := by omega
  rfl

theorem mem_win {b x : Bid} {ws : List Bid} (h : x ∈ win b ws) : x = b ∨ x ∈ ws := by
  cases ws with
  | nil => exact Or.inl (List.mem_singleton.mp h)
  | cons w rest =>
      rw [win] at h
      split at h
      · rcases List.mem_cons.mp h with rfl | hx
        · exact Or.inl rfl
        · exact Or.inr (List.mem_cons_of_mem _ hx)
      · exact List.mem_cons.mp h

theorem win_ordered {b : Bid} {ws : List Bid} (hle : ∀ w ∈ ws, b.le w = true)
    (hws : ws.Pairwise fun a b => a.mark.Before b.mark) :
    (win b ws).Pairwise fun a b => a.mark.Before b.mark := by
  cases ws with
  | nil => exact List.pairwise_singleton _ _
  | cons w rest =>
      obtain ⟨hw, hrest⟩ := List.pairwise_cons.mp hws
      rw [win]
      split
      · rename_i hsame
        obtain ⟨ho, hl⟩ := (sameSpan_iff b w).mp hsame
        refine List.pairwise_cons.mpr ⟨fun x hx => ?_, hrest⟩
        have hwx := hw x hx
        rw [Mark.Before, ← ho, ← hl] at hwx
        exact hwx
      · rename_i hsame
        have hbw : b.mark.Before w.mark := before_of_le (hle w List.mem_cons_self) hsame
        refine List.pairwise_cons.mpr ⟨fun x hx => ?_, hws⟩
        rcases List.mem_cons.mp hx with rfl | hx
        · exact hbw
        · exact hbw.trans (hw x hx)

theorem foldr_win_ordered (bids : List Bid) (h : bids.Pairwise fun a b => a.le b = true) :
    (∀ x ∈ bids.foldr win [], x ∈ bids) ∧
      (bids.foldr win []).Pairwise fun a b => a.mark.Before b.mark := by
  induction bids with
  | nil => exact ⟨fun x hx => hx, List.Pairwise.nil⟩
  | cons b rest ih =>
      obtain ⟨hb, hrest⟩ := List.pairwise_cons.mp h
      obtain ⟨hmem, hord⟩ := ih hrest
      refine ⟨fun x hx => ?_, win_ordered (fun w hw => hb w (hmem w hw)) hord⟩
      rcases mem_win hx with rfl | hx
      · exact List.mem_cons_self
      · exact List.mem_cons_of_mem _ (hmem x hx)

theorem mergeSort_sorted (bids : List Bid) :
    (bids.mergeSort le).Pairwise fun a b => a.le b = true :=
  @List.pairwise_mergeSort _ le (fun _ _ _ hab hbc => le_trans hab hbc) le_total bids

theorem winners_ordered (bids : List Bid) :
    (winners bids).Pairwise fun a b => a.mark.Before b.mark :=
  (foldr_win_ordered _ (mergeSort_sorted bids)).2

theorem mem_of_mem_winners {bids : List Bid} {b : Bid} (h : b ∈ winners bids) : b ∈ bids :=
  List.mem_mergeSort.mp ((foldr_win_ordered _ (mergeSort_sorted bids)).1 b h)

/-- A place is won if and only if there is a bid for it. -/
theorem mem_places_foldr_win (bids : List Bid) (x : UInt32 × UInt32) :
    x ∈ (bids.foldr win []).map place ↔ x ∈ bids.map place := by
  induction bids with
  | nil => exact Iff.rfl
  | cons b rest ih =>
      have hwin : ∀ ws : List Bid, x ∈ (win b ws).map place ↔ x = b.place ∨ x ∈ ws.map place := by
        intro ws
        cases ws with
        | nil => simp [win]
        | cons w ws =>
            rw [win]
            by_cases hsame : b.sameSpan w = true
            · have hplace : w.place = b.place := by
                obtain ⟨ho, hl⟩ := (sameSpan_iff b w).mp hsame
                simp [place, ho, hl]
              simp [hsame, hplace]
            · simp [hsame]
      rw [List.foldr_cons, hwin, ih, List.map_cons, List.mem_cons]

theorem mem_places_winners (bids : List Bid) (x : UInt32 × UInt32) :
    x ∈ (winners bids).map place ↔ x ∈ bids.map place := by
  rw [winners, mem_places_foldr_win]
  exact ((List.mergeSort_perm bids le).map place).mem_iff

theorem exists_win_eq (b : Bid) (ws : List Bid) :
    ∃ ws', win b ws = b :: ws' ∧ ws'.Sublist ws := by
  cases ws with
  | nil => exact ⟨[], rfl, List.Sublist.refl _⟩
  | cons w rest =>
      rw [win]
      by_cases hsame : b.sameSpan w = true
      · rw [if_pos hsame]
        exact ⟨rest, rfl, List.sublist_cons_self w rest⟩
      · rw [if_neg hsame]
        exact ⟨w :: rest, rfl, List.Sublist.refl _⟩

/-- Of sorted bids none is better than the one that wins its place.  A bid that is put in front may
displace the one behind it, but it is no worse. -/
theorem foldr_win_least (bids : List Bid) (h : bids.Pairwise fun a b => a.le b = true) :
    ∀ w ∈ bids.foldr win [], ∀ b ∈ bids, w.place = b.place → w.le b = true := by
  induction bids with
  | nil =>
      intro w hw
      exact absurd hw List.not_mem_nil
  | cons first rest ih =>
      intro w hw b hb hplace
      obtain ⟨hfirst, hrest⟩ := List.pairwise_cons.mp h
      have hord := (foldr_win_ordered (first :: rest) h).2
      obtain ⟨ws, hws, hsub⟩ := exists_win_eq first (rest.foldr win [])
      rw [List.foldr_cons, hws] at hw hord
      rcases List.mem_cons.mp hw with hw | hw
      · rw [hw]
        rcases List.mem_cons.mp hb with hb | hb
        · rw [hb]
          simpa using le_total first first
        · exact hfirst b hb
      · rcases List.mem_cons.mp hb with hb | hb
        · -- the first bid is before all that win behind it, so none of them is for its place
          have hbefore := (List.pairwise_cons.mp hord).1 w hw
          rw [hb] at hplace
          obtain ⟨ho, hl⟩ := Prod.mk.inj hplace
          exact absurd hl.symm (hbefore.not_sameSpan ho.symm)
        · exact ih hrest w (hsub.subset hw) b hb hplace

/-- No bid for a place is better than the one that wins it. -/
theorem le_of_mem_winners {bids : List Bid} {w b : Bid} (hw : w ∈ winners bids) (hb : b ∈ bids)
    (hplace : w.place = b.place) : w.le b = true :=
  foldr_win_least _ (mergeSort_sorted bids) w hw b (List.mem_mergeSort.mpr hb) hplace

/-- The bids that win are those nobody outbids. -/
theorem mem_winners_iff {bids : List Bid} {w : Bid} :
    w ∈ winners bids ↔ w ∈ bids ∧ ∀ b ∈ bids, w.place = b.place → w.le b = true := by
  constructor
  · intro hw
    exact ⟨mem_of_mem_winners hw, fun b hb => le_of_mem_winners hw hb⟩
  · rintro ⟨hmem, hleast⟩
    obtain ⟨w', hw', hplace⟩ :=
      List.mem_map.mp ((mem_places_winners bids w.place).mpr (List.mem_map_of_mem hmem))
    have hle := hleast w' (mem_of_mem_winners hw') hplace.symm
    have hle' := le_of_mem_winners hw' hmem hplace
    rwa [eq_of_le hle hle']

theorem le_iff_not_outranks {a b : Bid} (hplace : a.place = b.place) :
    a.le b = true ↔ outranks b.found a.found = false := by
  obtain ⟨ho, hl⟩ := Prod.mk.inj hplace
  rw [← Bool.not_eq_true, outranks_iff, le_iff, ho, hl]
  simp only [found, Nat.lt_irrefl, true_and, false_or]
  omega

end Bid

/-! ### What the table holds -/

theorem Span.isEmpty_eq (s : Span) : s.isEmpty = !decide (s.start < s.stop) := by
  rw [isEmpty, ← decide_not, decide_eq_decide, UInt32.not_lt]

theorem Span.length_pos_iff (s : Span) : 0 < s.length ↔ s.start < s.stop := by
  unfold Span.length
  simp only [UInt32.lt_iff_toNat_lt, UInt32.le_iff_toNat_le]
  by_cases hle : s.start.toNat ≤ s.stop.toNat
  · rw [if_pos hle, UInt32.toNat_sub_of_le _ _ (UInt32.le_iff_toNat_le.mpr hle)]
    simp only [UInt32.toNat_zero]
    omega
  · rw [if_neg hle]
    simp only [UInt32.toNat_zero]
    omega

/-- The kind for a place: somebody bid it, and nobody bid anything better. -/
structure IsBest (bids : List Bid) (place : UInt32 × UInt32) (found : Nat × Kind) : Prop where
  bid : ∃ b ∈ bids, b.place = place ∧ b.found = found
  least : ∀ b ∈ bids, b.place = place → outranks b.found found = false

/-- A bid that is no better than the best for its place leaves it the best. -/
theorem IsBest.concat {bids : List Bid} {place : UInt32 × UInt32} {found : Nat × Kind}
    (h : IsBest bids place found) {b : Bid}
    (hb : b.place = place → outranks b.found found = false) :
    IsBest (bids ++ [b]) place found := by
  obtain ⟨⟨b₀, hb₀, hbid⟩, hleast⟩ := h
  refine ⟨⟨b₀, List.mem_append_left _ hb₀, hbid⟩, fun b' hb' hsame => ?_⟩
  rcases List.mem_append.mp hb' with hb' | hb'
  · exact hleast b' hb' hsame
  · rw [List.mem_singleton.mp hb'] at hsame ⊢
    exact hb hsame

theorem outranks_self (a : Nat × Kind) : outranks a a = false := by
  rw [← Bool.not_eq_true, outranks_iff]
  omega

/-- What is not better than something is not better than what that is no better than. -/
theorem not_outranks_trans {a b c : Nat × Kind} (hab : outranks a b = false)
    (hbc : outranks b c = false) : outranks a c = false := by
  rw [← Bool.not_eq_true, outranks_iff] at *
  omega

theorem not_outranks_of_outranks {a b : Nat × Kind} (h : outranks a b = true) :
    outranks b a = false := by
  rw [← Bool.not_eq_true, outranks_iff]
  rw [outranks_iff] at h
  omega

/-- A bid is the best for its place if none before it was better. -/
theorem isBest_last {bids : List Bid} {b : Bid}
    (h : ∀ b' ∈ bids, b'.place = b.place → outranks b'.found b.found = false) :
    IsBest (bids ++ [b]) b.place b.found := by
  refine ⟨⟨b, by simp, rfl, rfl⟩, fun b' hb' hsame => ?_⟩
  rcases List.mem_append.mp hb' with hb' | hb'
  · exact h b' hb' hsame
  · rw [List.mem_singleton.mp hb']
    exact outranks_self b.found

theorem eq_of_not_outranks {a b : Nat × Kind} (hab : outranks a b = false)
    (hba : outranks b a = false) : a = b := by
  rw [← Bool.not_eq_true, outranks_iff] at hab hba
  exact Prod.ext (by omega) (Kind.index_injective (by omega))

namespace Sweep

/-- The table of a sweep after these bids: it has a kind for every place that was bid for, and each
is the best. -/
structure Reflects (s : Sweep) (bids : List Bid) : Prop where
  sound : ∀ place found, s.best[place]? = some found → IsBest bids place found
  complete : ∀ b ∈ bids, (s.best[b.place]?).isSome = true

/-- One more bid for a place. -/
theorem getElem?_best_ask (s : Sweep) (b : Bid) (x : UInt32 × UInt32) :
    (s.ask b.place b.found).best[x]? =
      if b.place = x then
        some ((s.best[b.place]?).elim b.found fun current =>
          if outranks b.found current then b.found else current)
      else s.best[x]? := by
  unfold ask
  cases hcurrent : s.best[b.place]? with
  | none => simp [Std.HashMap.getElem?_insert]
  | some current =>
      by_cases hbetter : outranks b.found current = true
      · simp [hbetter, Std.HashMap.getElem?_insert]
      · by_cases hx : b.place = x
        · simp [hbetter, ← hx, hcurrent]
        · simp [hbetter, hx]

/-- A bid either is the first for its place, or it replaces what is there, or it is no better. -/
theorem Reflects.ask {s : Sweep} {bids : List Bid} (h : s.Reflects bids) (b : Bid) :
    (s.ask b.place b.found).Reflects (bids ++ [b]) where
  sound := by
    intro x found hx
    rw [getElem?_best_ask] at hx
    by_cases hplace : b.place = x
    · rw [if_pos hplace, Option.some.injEq] at hx
      subst hplace hx
      cases hcurrent : s.best[b.place]? with
      | none =>
          -- no bid before was for this place
          refine isBest_last fun b' hb' hsame => ?_
          have hsome := h.complete b' hb'
          rw [hsame, hcurrent] at hsome
          cases hsome
      | some current =>
          have hbest := h.sound _ _ hcurrent
          by_cases hbetter : outranks b.found current = true
          · simp only [Option.elim_some, if_pos hbetter]
            refine isBest_last fun b' hb' hsame => ?_
            exact not_outranks_trans (hbest.least b' hb' hsame) (not_outranks_of_outranks hbetter)
          · simp only [Option.elim_some, if_neg hbetter]
            exact hbest.concat fun _ => by simpa using hbetter
    · rw [if_neg hplace] at hx
      exact (h.sound x found hx).concat fun hsame => absurd hsame hplace
  complete := by
    intro b' hb'
    rw [getElem?_best_ask]
    by_cases hplace : b.place = b'.place
    · simp [hplace]
    · rcases List.mem_append.mp hb' with hb' | hb'
      · simpa [hplace] using h.complete b' hb'
      · exact absurd (congrArg Bid.place (List.mem_singleton.mp hb')).symm hplace

theorem counts_ask (s : Sweep) (place : UInt32 × UInt32) (found : Nat × Kind) :
    (s.ask place found).skipped = s.skipped ∧ (s.ask place found).visited = s.visited := by
  unfold ask
  split
  · exact ⟨rfl, rfl⟩
  · split <;> exact ⟨rfl, rfl⟩

/-- The sweep over some nodes, given what those a rule fires on have bid. -/
structure After (s : Sweep) (bids : List (Option Bid)) (nodes : Nat) : Prop where
  table : s.Reflects (bids.filterMap id)
  skipped : s.skipped = bids.countP Option.isNone
  visited : s.visited = nodes

end Sweep

/-- A node that a rule fires on either skips or asks for what it bids. -/
theorem Sweep.visit_eq (p : Policy) (sourceLength : Option UInt32) (s : Sweep) (l : Label) :
    s.visit p sourceLength l =
      match p.bidOf sourceLength l with
      | none => { s with visited := s.visited + 1 }
      | some none => Sweep.skip { s with visited := s.visited + 1 }
      | some (some b) => Sweep.ask { s with visited := s.visited + 1 } b.place b.found := by
  unfold Sweep.visit Policy.bidOf Label.bid? Mark.make
  cases p.classify l with
  | none => rfl
  | some found =>
      cases l.span with
      | none => rfl
      | some span =>
          have hempty := span.isEmpty_eq
          by_cases hlt : span.start < span.stop
          · have hpos : 0 < span.length := (Span.length_pos_iff span).mpr hlt
            cases hwithin : span.isWithin sourceLength <;> cases l.flags.synthetic <;>
              simp [hpos, hlt, hempty, hwithin, Option.filter_some, Except.toOption, guard, failure,
                Bid.place, Bid.found]
          · have hpos : ¬0 < span.length := mt (Span.length_pos_iff span).mp hlt
            cases hwithin : span.isWithin sourceLength <;> cases l.flags.synthetic <;>
              simp [hpos, hlt, hempty, hwithin, Option.filter_some, Except.toOption, guard, failure]

namespace Sweep

theorem After.visit {s : Sweep} {bids : List (Option Bid)} {nodes : Nat} (h : s.After bids nodes)
    (p : Policy) (sourceLength : Option UInt32) (l : Label) :
    (s.visit p sourceLength l).After (bids ++ (p.bidOf sourceLength l).toList) (nodes + 1) := by
  obtain ⟨⟨hsound, hcomplete⟩, hskipped, hvisited⟩ := h
  rw [visit_eq]
  cases p.bidOf sourceLength l with
  | none => exact ⟨by simpa using ⟨hsound, hcomplete⟩, by simpa using hskipped, by rw [hvisited]⟩
  | some bid =>
      cases bid with
      | none =>
          refine ⟨by simpa using ⟨hsound, hcomplete⟩, ?_, congrArg (· + 1) hvisited⟩
          simp [skip, hskipped]
      | some b =>
          have htable : Reflects { s with visited := s.visited + 1 } (bids.filterMap id) :=
            ⟨hsound, hcomplete⟩
          refine ⟨by simpa using htable.ask b, ?_, ?_⟩
          · rw [(counts_ask _ _ _).1]
            simp [hskipped]
          · rw [(counts_ask _ _ _).2, hvisited]

/-- Along the nodes. -/
theorem After.foldl (p : Policy) (sourceLength : Option UInt32) (nodes : List Node) :
    ∀ {s : Sweep} {bids : List (Option Bid)} {n : Nat}, s.After bids n →
      (nodes.foldl (fun s node => s.visit p sourceLength node.label) s).After
        (bids ++ nodes.filterMap fun node => p.bidOf sourceLength node.label)
        (n + nodes.length) := by
  induction nodes with
  | nil =>
      intro s bids n h
      simpa using h
  | cons node rest ih =>
      intro s bids n h
      have hrest := ih (h.visit p sourceLength node.label)
      have hbids : (node :: rest).filterMap (fun node => p.bidOf sourceLength node.label) =
          (p.bidOf sourceLength node.label).toList ++
            rest.filterMap fun node => p.bidOf sourceLength node.label := by
        cases hbid : p.bidOf sourceLength node.label <;> simp [hbid]
      rw [hbids, ← List.append_assoc, List.length_cons, Nat.add_comm rest.length, ← Nat.add_assoc]
      exact hrest

/-- Which marks come out of the table. -/
theorem mem_marks {s : Sweep} {m : Mark} :
    m ∈ s.marks ↔ s.best[(m.offset, m.length)]?.map Prod.snd = some m.kind := by
  rw [marks, List.mem_mergeSort, List.mem_filterMap, Option.map_eq_some_iff]
  constructor
  · rintro ⟨⟨⟨offset, length⟩, found⟩, hmem, hmake⟩
    obtain ⟨rfl, rfl, hkind⟩ := Mark.toOption_make_eq_some_iff.mp hmake
    exact ⟨found, Std.HashMap.mem_toList_iff_getElem?_eq_some.mp hmem, hkind.symm⟩
  · rintro ⟨found, hget, hkind⟩
    exact ⟨((m.offset, m.length), found), Std.HashMap.mem_toList_iff_getElem?_eq_some.mpr hget,
      Mark.toOption_make_eq_some_iff.mpr ⟨rfl, rfl, hkind.symm⟩⟩

/-- A table has each key once, so when its marks are sorted no two are at one span. -/
theorem marks_ordered (s : Sweep) : s.marks.Pairwise Mark.Before := by
  have hsorted : s.marks.Pairwise fun a b => a.le b = true :=
    @List.pairwise_mergeSort _ Mark.le (fun _ _ _ hab hbc => Mark.le_trans hab hbc) Mark.le_total _
  have hapart : s.marks.Pairwise fun a b => (a.offset, a.length) ≠ (b.offset, b.length) := by
    refine ((List.mergeSort_perm _ _).pairwise_iff fun h => Ne.symm h).mpr ?_
    refine List.Pairwise.filterMap _ ?_ s.best.distinct_keys_toList
    intro e e' hkeys a ha b hb
    obtain ⟨ho, hl, -⟩ := Mark.toOption_make_eq_some_iff.mp ha
    obtain ⟨ho', hl', -⟩ := Mark.toOption_make_eq_some_iff.mp hb
    rw [ho, hl, ho', hl']
    simpa using hkeys
  refine (hsorted.and hapart).imp ?_
  rintro a b ⟨hle, hne⟩
  rw [Mark.le_iff] at hle
  simp only [Mark.Before, UInt32.lt_iff_toNat_lt, ← UInt32.toNat_inj, ne_eq, Prod.mk.injEq] at *
  omega

/-- The marks of the table are those of the bids that win. -/
theorem Reflects.mem_marks_iff {s : Sweep} {bids : List Bid} (h : s.Reflects bids) (m : Mark) :
    m ∈ s.marks ↔ m ∈ (Bid.winners bids).map (·.mark) := by
  rw [mem_marks, Option.map_eq_some_iff, List.mem_map]
  constructor
  · rintro ⟨found, hget, hkind⟩
    obtain ⟨⟨b, hb, hplace, rfl⟩, hleast⟩ := h.sound _ _ hget
    refine ⟨b, Bid.mem_winners_iff.mpr ⟨hb, fun b' hb' hsame => ?_⟩, ?_⟩
    · exact (Bid.le_iff_not_outranks hsame).mpr (hleast b' hb' (hsame.symm.trans hplace))
    · obtain ⟨ho, hl⟩ := Prod.mk.inj hplace
      obtain ⟨mark, rank⟩ := b
      cases mark
      cases m
      rw [Mark.mk.injEq]
      exact ⟨ho, hl, hkind⟩
  · rintro ⟨w, hw, rfl⟩
    obtain ⟨hmem, hleast⟩ := Bid.mem_winners_iff.mp hw
    obtain ⟨found, hget⟩ := Option.isSome_iff_exists.mp (h.complete w hmem)
    obtain ⟨⟨b, hb, hplace, rfl⟩, hbest⟩ := h.sound _ _ hget
    have hle := (Bid.le_iff_not_outranks hplace.symm).mp (hleast b hb hplace.symm)
    rw [eq_of_not_outranks hle (hbest w hmem rfl)] at hget
    exact ⟨w.found, hget, rfl⟩

end Sweep

/-! ### The marks of a tree -/

namespace Policy

/-- The loop over the nodes, and the auction. -/
theorem classifyTree_eq_auction (p : Policy) (t : SyntaxTree) :
    p.classifyTree t = p.auction t := by
  have hstart : Sweep.After {} [] 0 := by
    refine ⟨⟨fun place found h => ?_, fun b hb => absurd hb List.not_mem_nil⟩, rfl, rfl⟩
    simp at h
  obtain ⟨htable, hskipped, hvisited⟩ := hstart.foldl p t.sourceLength t.root.walk
  have hmarks := (Sweep.marks_ordered _).eq_of_mem_iff
    (List.pairwise_map.mpr (Bid.winners_ordered _)) htable.mem_marks_iff
  rw [classifyTree, auction, Classification.mk.injEq]
  refine ⟨hmarks, hskipped, hvisited.trans ?_⟩
  rw [Nat.zero_add, Node.walk_eq_preorder, Node.length_preorder, Node.count_eq_size]

theorem classifyTree_ordered (p : Policy) (t : SyntaxTree) :
    (p.classifyTree t).marks.Pairwise Mark.Before :=
  Sweep.marks_ordered _

/-- The highlights of a tree in given styles: its marks, each in the style of its kind. -/
def highlights (p : Policy) (style : Kind → Style) (t : SyntaxTree) : List Highlight :=
  (p.classifyTree t).marks.map fun m => m.styled (style m.kind)

end Policy

/-! ### Styles -/

/-- Marks styled by tables that change from call to call: each mark has a call of its own, in the
order of the marks, none before `n` and all before `n'`. -/
def Styled (tables : Nat → StyleTable) (n n' : Nat) (marks : List Mark) (hs : List Highlight) :
    Prop :=
  ∃ calls : List Nat, calls.Pairwise (· < ·) ∧ (∀ k ∈ calls, n ≤ k ∧ k < n') ∧
    calls.length = marks.length ∧
    hs = (marks.zip calls).map fun m => m.1.styled ((tables m.2).style m.1.kind)

namespace Styled

variable {tables : Nat → StyleTable} {n n' : Nat} {marks : List Mark} {hs : List Highlight}

theorem nil : Styled tables n n' [] [] := ⟨[], .nil, by simp, rfl, rfl⟩

/-- The first mark is styled, and then the others. -/
theorem cons {k : Nat} (hn : n ≤ k) (hk : k < n') (m : Mark)
    (h : Styled tables (k + 1) n' marks hs) :
    Styled tables n n' (m :: marks) (m.styled ((tables k).style m.kind) :: hs) := by
  obtain ⟨calls, hordered, hwithin, hlength, rfl⟩ := h
  refine ⟨k :: calls, List.pairwise_cons.mpr ⟨fun k' hk' => (hwithin k' hk').1, hordered⟩, ?_, ?_,
    rfl⟩
  · intro k' hk'
    rcases List.mem_cons.mp hk' with rfl | hk'
    · exact ⟨hn, hk⟩
    · have hlater := hwithin k' hk'
      omega
  · rw [List.length_cons, List.length_cons, hlength]

theorem mono {l l' : Nat} (h : Styled tables n n' marks hs) (hl : l ≤ n) (hl' : n' ≤ l') :
    Styled tables l l' marks hs := by
  obtain ⟨calls, hordered, hwithin, hlength, heq⟩ := h
  refine ⟨calls, hordered, fun k hk => ?_, hlength, heq⟩
  have hk := hwithin k hk
  omega

/-- Only the styles are up to the tables. -/
theorem marks_eq (h : Styled tables n n' marks hs) : hs.map (·.toMark) = marks := by
  obtain ⟨calls, -, -, hlength, rfl⟩ := h
  rw [List.map_map]
  exact List.map_fst_zip (Nat.le_of_eq hlength.symm)

theorem ordered (h : Styled tables n n' marks hs) (hmarks : marks.Pairwise Mark.Before) :
    Ordered hs := by
  rw [← h.marks_eq] at hmarks
  exact List.pairwise_map.mp hmarks

/-- If the table is always the same one, all marks have its styles. -/
theorem eq_of_steady {table : StyleTable} (h : Styled tables n n' marks hs)
    (hsteady : ∀ k, tables k = table) : hs = marks.map fun m => m.styled (table.style m.kind) := by
  obtain ⟨calls, -, -, hlength, rfl⟩ := h
  simp only [hsteady]
  calc _ = ((marks.zip calls).map Prod.fst).map fun m => m.styled (table.style m.kind) :=
        List.map_map.symm
    _ = _ := by rw [List.map_fst_zip (Nat.le_of_eq hlength.symm)]

end Styled

end Highlighting
