/-
Which marks a tree has.

A node is eligible if some rule fires on it, it has a span that is not empty and lies
within the source, and it was really written.  There is one mark for each span that
eligible nodes have, and its kind is the best one they have: that of the earliest rule,
and among kinds a rule gives to several of them the first.  This and the two counts say
all there is to say of a classification, and they speak of the nodes of the tree without
regard to where in it they stand.  So trees with the same nodes get the same marks.
-/
import Highlighting.Proofs.Precedence

namespace Highlighting

/-! ### The first rule that fires -/

namespace Policy

/-- The rule at this place of the order fires on a node and gives it this kind, and none before it
fires. -/
structure FiresFirst (p : Policy) (l : Label) (rank : Nat) (kind : Kind) : Prop where
  fires : ∃ r : Rule, p.order[rank]? = some r ∧ r.apply l = some kind
  first : ∀ i < rank, ∀ r : Rule, p.order[i]? = some r → r.apply l = none

variable {l : Label} {rank : Nat} {kind : Kind} {r : Rule} {rest : List Rule}

theorem firesFirst_cons_zero :
    FiresFirst ⟨r :: rest⟩ l 0 kind ↔ r.apply l = some kind := by
  constructor
  · rintro ⟨⟨_, ⟨⟩, h⟩, -⟩
    exact h
  · intro h
    exact ⟨⟨r, rfl, h⟩, fun i hi => absurd hi (Nat.not_lt_zero i)⟩

theorem firesFirst_cons_succ :
    FiresFirst ⟨r :: rest⟩ l (rank + 1) kind ↔
      r.apply l = none ∧ FiresFirst ⟨rest⟩ l rank kind := by
  constructor
  · rintro ⟨hfires, hfirst⟩
    exact ⟨hfirst 0 (Nat.succ_pos rank) r rfl, hfires,
      fun i hi => hfirst (i + 1) (Nat.succ_lt_succ hi)⟩
  · rintro ⟨hnone, hfires, hfirst⟩
    refine ⟨hfires, fun i hi => ?_⟩
    cases i with
    | zero =>
        rintro _ ⟨⟩
        exact hnone
    | succ i => exact hfirst i (Nat.lt_of_succ_lt_succ hi)

/-- The rules looked through one by one, the first of them being at place `n`. -/
theorem findSome?_zipIdx_iff (rules : List Rule) {m : Nat} :
    ∀ n, (rules.zipIdx n).findSome? (fun e => (e.1.apply l).map (e.2, ·)) = some (m, kind) ↔
      ∃ rank, m = n + rank ∧ FiresFirst ⟨rules⟩ l rank kind := by
  induction rules with
  | nil =>
      intro n
      simp only [List.zipIdx_nil, List.findSome?_nil, reduceCtorEq, false_iff]
      rintro ⟨rank, -, ⟨r, hr, -⟩, -⟩
      simp at hr
  | cons r rest ih =>
      intro n
      rw [List.zipIdx_cons, List.findSome?_cons]
      dsimp only
      cases hr : r.apply l with
      | some k =>
          simp only [Option.map_some, Option.some.injEq, Prod.mk.injEq]
          constructor
          · rintro ⟨rfl, rfl⟩
            exact ⟨0, rfl, firesFirst_cons_zero.mpr hr⟩
          · rintro ⟨rank, rfl, h⟩
            cases rank with
            | zero =>
                have hk := firesFirst_cons_zero.mp h
                rw [hr] at hk
                exact ⟨rfl, Option.some.inj hk⟩
            | succ rank =>
                have hnone := (firesFirst_cons_succ.mp h).1
                rw [hr] at hnone
                cases hnone
      | none =>
          simp only [Option.map_none]
          rw [ih (n + 1)]
          constructor
          · rintro ⟨rank, rfl, h⟩
            exact ⟨rank + 1, by omega, firesFirst_cons_succ.mpr ⟨hr, h⟩⟩
          · rintro ⟨rank, rfl, h⟩
            cases rank with
            | zero =>
                have hk := firesFirst_cons_zero.mp h
                rw [hr] at hk
                cases hk
            | succ rank => exact ⟨rank, by omega, (firesFirst_cons_succ.mp h).2⟩

/-- A policy gives a node the kind of the first rule that fires on it, with the rule's place. -/
theorem classify_eq_some_iff (p : Policy) :
    p.classify l = some (rank, kind) ↔ p.FiresFirst l rank kind := by
  refine Iff.trans (findSome?_zipIdx_iff p.order 0) ?_
  constructor
  · rintro ⟨rank, rfl, h⟩
    rwa [Nat.zero_add]
  · intro h
    exact ⟨rank, (Nat.zero_add rank).symm, h⟩

end Policy

/-! ### Eligible nodes -/

/-- A mark that covers a span to its very end. -/
structure Mark.Covers (m : Mark) (s : Span) : Prop where
  offset : m.offset = s.start
  sum : m.offset.toNat + m.length.toNat = s.stop.toNat
  stop : m.stop = s.stop

/-- A node that asks for a mark at a span: some rule fires on it, the span is its own, not empty,
and within the source if the length of that is known, and the node was really written. -/
structure Label.Eligible (l : Label) (sourceLength : Option UInt32) (s : Span) : Prop where
  fired : l.isFired = true
  span : l.span = some s
  nonempty : s.start < s.stop
  within : ∀ n, sourceLength = some n → s.stop ≤ n
  written : l.flags.synthetic = false

theorem Span.isWithin_iff (s : Span) (sourceLength : Option UInt32) :
    s.isWithin sourceLength = true ↔ ∀ n, sourceLength = some n → s.stop ≤ n := by
  cases sourceLength <;> simp [isWithin]

namespace Label

theorem eligible_iff {l : Label} {sourceLength : Option UInt32} {s : Span} :
    l.Eligible sourceLength s ↔
      l.isFired = true ∧ l.span = some s ∧ l.place? sourceLength = some (s.start, s.length) := by
  unfold place?
  constructor
  · intro h
    refine ⟨h.fired, h.span, ?_⟩
    rw [h.span]
    exact if_pos ⟨h.nonempty, (s.isWithin_iff _).mpr h.within, h.written⟩
  · rintro ⟨hfired, hspan, hplace⟩
    rw [hspan] at hplace
    obtain ⟨hlt, hwithin, hwritten⟩ := (Option.ite_none_right_eq_some.mp hplace).1
    exact ⟨hfired, hspan, hlt, (s.isWithin_iff _).mp hwithin, hwritten⟩

theorem exists_eligible_iff {l : Label} {sourceLength : Option UInt32} :
    (∃ s, l.Eligible sourceLength s) ↔
      l.isFired = true ∧ (l.place? sourceLength).isSome = true := by
  constructor
  · rintro ⟨s, hs⟩
    obtain ⟨hfired, -, hplace⟩ := eligible_iff.mp hs
    exact ⟨hfired, by rw [hplace]; rfl⟩
  · rintro ⟨hfired, hplace⟩
    obtain ⟨x, hx⟩ := Option.isSome_iff_exists.mp hplace
    cases hspan : l.span with
    | none => simp [place?, hspan] at hx
    | some s =>
        have hsame : x = (s.start, s.length) := by
          simp only [place?, hspan, Option.ite_none_right_eq_some] at hx
          exact (Option.some.inj hx.2).symm
        rw [hsame] at hx
        exact ⟨s, eligible_iff.mpr ⟨hfired, hspan, hx⟩⟩

instance (l : Label) (sourceLength : Option UInt32) :
    Decidable (∃ s, l.Eligible sourceLength s) :=
  decidable_of_iff _ exists_eligible_iff.symm

end Label

theorem Span.toNat_length {s : Span} (h : s.start < s.stop) :
    s.start.toNat + s.length.toNat = s.stop.toNat := by
  have hle : s.start ≤ s.stop := UInt32.le_of_lt h
  have hnat := UInt32.le_iff_toNat_le.mp hle
  rw [length, if_pos hle, UInt32.toNat_sub_of_le _ _ hle]
  omega

/-- A mark with the offset and the length of a span that is not empty covers it. -/
theorem Mark.covers_iff {m : Mark} {s : Span} (h : s.start < s.stop) :
    m.Covers s ↔ m.offset = s.start ∧ m.length = s.length := by
  have hsum := Span.toNat_length h
  constructor
  · intro hm
    have hoffset := congrArg UInt32.toNat hm.offset
    have hm' := hm.sum
    exact ⟨hm.offset, UInt32.toNat_inj.mp (by omega)⟩
  · rintro ⟨hoffset, hlength⟩
    have hlt := s.stop.toNat_lt
    refine ⟨hoffset, by rw [hoffset, hlength, hsum], UInt32.toNat_inj.mp ?_⟩
    rw [Mark.stop, toNat_addCapped, hoffset, hlength, hsum]
    show min s.stop.toNat (4294967296 - 1) = s.stop.toNat
    omega

/-! ### What nodes bid -/

namespace Label

variable {l : Label} {sourceLength : Option UInt32} {rank : Nat} {kind : Kind} {b : Bid}

theorem rank_bid? (h : l.bid? sourceLength rank kind = some b) : b.rank = rank := by
  obtain ⟨s, -, h⟩ := Option.bind_eq_some_iff.mp h
  obtain ⟨-, -, h⟩ := Option.bind_eq_some_iff.mp h
  obtain ⟨mark, -, h⟩ := Option.bind_eq_some_iff.mp h
  cases h
  rfl

/-- A bid is for the span of an eligible node. -/
theorem eligible_of_bid? (hfired : l.isFired = true) (h : l.bid? sourceLength rank kind = some b) :
    ∃ s, l.Eligible sourceLength s ∧ b.mark.Covers s := by
  have hplace := l.place_bid? sourceLength rank kind
  rw [h, Option.map_some] at hplace
  obtain ⟨s, hs⟩ := exists_eligible_iff.mpr ⟨hfired, by rw [← hplace]; rfl⟩
  refine ⟨s, hs, (Mark.covers_iff hs.nonempty).mpr ?_⟩
  rw [(eligible_iff.mp hs).2.2] at hplace
  exact Prod.mk.inj (Option.some.inj hplace)

/-- An eligible node bids for its span, with whatever kind. -/
theorem Eligible.exists_bid {s : Span} (h : l.Eligible sourceLength s) (rank : Nat) (kind : Kind) :
    ∃ b, l.bid? sourceLength rank kind = some b ∧ b.mark.Covers s := by
  have hplace := l.place_bid? sourceLength rank kind
  rw [(eligible_iff.mp h).2.2] at hplace
  obtain ⟨b, hb, hplace⟩ := Option.map_eq_some_iff.mp hplace
  exact ⟨b, hb, (Mark.covers_iff h.nonempty).mpr (Prod.mk.inj hplace)⟩

end Label

/-- The labels of the nodes of a tree. -/
def SyntaxTree.labels (t : SyntaxTree) : List Label := t.root.preorder.map Node.label

theorem Policy.mem_bids {p : Policy} {t : SyntaxTree} {b : Bid} :
    b ∈ (p.bids t).filterMap id ↔ ∃ l ∈ t.labels, ∃ rank kind,
      p.FiresFirst l rank kind ∧ l.bid? t.sourceLength rank kind = some b := by
  rw [bids, Node.walk_eq_preorder, SyntaxTree.labels, List.mem_filterMap]
  constructor
  · rintro ⟨_, hmem, rfl⟩
    obtain ⟨n, hn, hclass⟩ := List.mem_filterMap.mp hmem
    obtain ⟨⟨rank, kind⟩, hclass, hbid⟩ := Option.map_eq_some_iff.mp hclass
    exact ⟨n.label, List.mem_map_of_mem hn, rank, kind, (classify_eq_some_iff p).mp hclass, hbid⟩
  · rintro ⟨l, hl, rank, kind, hfires, hbid⟩
    obtain ⟨n, hn, rfl⟩ := List.mem_map.mp hl
    refine ⟨some b, List.mem_filterMap.mpr ⟨n, hn, ?_⟩, rfl⟩
    rw [bidOf, (classify_eq_some_iff p).mpr hfires]
    exact congrArg some hbid

namespace Bid

theorem rank_le_of_le {a b : Bid} (h : a.le b = true) (hplace : a.place = b.place) :
    a.rank < b.rank ∨ a.rank = b.rank ∧ a.mark.kind.index ≤ b.mark.kind.index := by
  obtain ⟨ho, hl⟩ := Prod.mk.inj hplace
  rw [le_iff, ho, hl] at h
  omega

end Bid

/-! ### The classification of a tree -/

namespace Policy

/-- What a classification of a tree is to be. -/
structure Classifies (p : Policy) (t : SyntaxTree) (c : Classification) : Prop where
  /-- Every node is visited. -/
  visited : c.visited = t.root.size
  /-- The nodes some rule fires on that are not eligible are skipped. -/
  skipped : c.skipped = t.labels.countP fun l =>
    l.isFired && !decide (∃ s, l.Eligible t.sourceLength s)
  /-- The marks are in strict order of position, so no two are at one span. -/
  ordered : c.marks.Pairwise Mark.Before
  /-- There is a mark at the span of every eligible node. -/
  complete : ∀ l ∈ t.labels, ∀ s, l.Eligible t.sourceLength s → ∃ m ∈ c.marks, m.Covers s
  /-- A mark covers the span of an eligible node and has its kind, and no other eligible node with
  that span has a kind from an earlier rule, nor an earlier kind from the same one. -/
  best : ∀ m ∈ c.marks, ∃ l ∈ t.labels, ∃ s rank, l.Eligible t.sourceLength s ∧ m.Covers s ∧
    p.FiresFirst l rank m.kind ∧
    ∀ l' ∈ t.labels, ∀ rank' kind', l'.Eligible t.sourceLength s → p.FiresFirst l' rank' kind' →
      rank < rank' ∨ rank = rank' ∧ m.kind.index ≤ kind'.index

theorem FiresFirst.isFired {p : Policy} {l : Label} {rank : Nat} {kind : Kind}
    (h : p.FiresFirst l rank kind) : l.isFired = true := by
  obtain ⟨r, -, hr⟩ := h.fires
  exact Label.isFired_of_apply hr

theorem exists_firesFirst (p : List Rule) {l : Label} (h : l.isFired = true) :
    ∃ rank kind, (ofOrder p).FiresFirst l rank kind := by
  rw [← isSome_classify_ofOrder p] at h
  obtain ⟨⟨rank, kind⟩, hclass⟩ := Option.isSome_iff_exists.mp h
  exact ⟨rank, kind, (classify_eq_some_iff _).mp hclass⟩

theorem skipped_classifyTree (p : List Rule) (t : SyntaxTree) :
    ((ofOrder p).classifyTree t).skipped = t.labels.countP fun l =>
      l.isFired && !decide (∃ s, l.Eligible t.sourceLength s) := by
  rw [skipped_classifyTree_ofOrder, SyntaxTree.places, SyntaxTree.labels, List.countP_filterMap, List.countP_map]
  refine List.countP_congr fun n _ => ?_
  cases hfired : n.label.isFired <;> simp [hfired, Label.exists_eligible_iff]

/-- There is a mark at the span of every eligible node. -/
theorem exists_mark_covers (p : List Rule) {t : SyntaxTree} {l : Label} (hl : l ∈ t.labels)
    {s : Span} (hs : l.Eligible t.sourceLength s) :
    ∃ m ∈ ((ofOrder p).classifyTree t).marks, m.Covers s := by
  obtain ⟨rank, kind, hfires⟩ := exists_firesFirst p hs.fired
  obtain ⟨b, hbid, hb⟩ := hs.exists_bid rank kind
  have hmem : b ∈ ((ofOrder p).bids t).filterMap id :=
    mem_bids.mpr ⟨l, hl, rank, kind, hfires, hbid⟩
  obtain ⟨w, hw, hplace⟩ := List.mem_map.mp
    ((Bid.mem_places_winners _ _).mpr (List.mem_map_of_mem hmem))
  rw [classifyTree_eq_auction]
  refine ⟨w.mark, List.mem_map_of_mem hw, (Mark.covers_iff hs.nonempty).mpr ?_⟩
  obtain ⟨ho, hlen⟩ := Prod.mk.inj hplace
  rw [ho, hlen]
  exact (Mark.covers_iff hs.nonempty).mp hb

/-- The kind of a mark is the best one of those that the eligible nodes with its span have. -/
theorem best_of_mem_marks {p : Policy} {t : SyntaxTree} {m : Mark}
    (h : m ∈ (p.classifyTree t).marks) :
    ∃ l ∈ t.labels, ∃ s rank, l.Eligible t.sourceLength s ∧ m.Covers s ∧
      p.FiresFirst l rank m.kind ∧
      ∀ l' ∈ t.labels, ∀ rank' kind', l'.Eligible t.sourceLength s → p.FiresFirst l' rank' kind' →
        rank < rank' ∨ rank = rank' ∧ m.kind.index ≤ kind'.index := by
  rw [classifyTree_eq_auction] at h
  obtain ⟨w, hw, rfl⟩ := List.mem_map.mp h
  obtain ⟨l, hl, rank, kind, hfires, hbid⟩ := mem_bids.mp (Bid.mem_of_mem_winners hw)
  obtain ⟨s, hs, hcovers⟩ := Label.eligible_of_bid? hfires.isFired hbid
  obtain rfl := Label.rank_bid? hbid
  obtain rfl := Label.kind_bid? hbid
  refine ⟨l, hl, s, w.rank, hs, hcovers, hfires, ?_⟩
  intro l' hl' rank' kind' hs' hfires'
  obtain ⟨b, hbid', hcovers'⟩ := hs'.exists_bid rank' kind'
  obtain rfl := Label.rank_bid? hbid'
  obtain rfl := Label.kind_bid? hbid'
  have hmem : b ∈ (p.bids t).filterMap id := mem_bids.mpr ⟨l', hl', _, _, hfires', hbid'⟩
  have hplace : w.place = b.place := by
    obtain ⟨ho, hlen⟩ := (Mark.covers_iff hs.nonempty).mp hcovers
    obtain ⟨ho', hlen'⟩ := (Mark.covers_iff hs.nonempty).mp hcovers'
    rw [Bid.place, Bid.place, ho, hlen, ho', hlen']
  exact Bid.rank_le_of_le (Bid.le_of_mem_winners hw hmem hplace) hplace

theorem classifies_classifyTree (p : List Rule) (t : SyntaxTree) :
    (ofOrder p).Classifies t ((ofOrder p).classifyTree t) where
  visited := visited_classifyTree _ t
  skipped := skipped_classifyTree p t
  ordered := classifyTree_ordered _ t
  complete := fun _ hl _ hs => exists_mark_covers p hl hs
  best := fun _ hm => best_of_mem_marks hm

end Policy

/-! ### Nothing is left open -/

theorem Mark.Covers.span_unique {m : Mark} {s s' : Span} (h : m.Covers s) (h' : m.Covers s') :
    s = s' := by
  obtain ⟨start, stop⟩ := s
  obtain ⟨start', stop'⟩ := s'
  rw [Span.mk.injEq]
  exact ⟨h.offset.symm.trans h'.offset, h.stop.symm.trans h'.stop⟩

theorem Mark.Covers.mark_unique {m m' : Mark} {s : Span} (h : m.Covers s) (h' : m'.Covers s)
    (hs : s.start < s.stop) (hkind : m.kind = m'.kind) : m = m' := by
  obtain ⟨ho, hl⟩ := (Mark.covers_iff hs).mp h
  obtain ⟨ho', hl'⟩ := (Mark.covers_iff hs).mp h'
  cases m
  cases m'
  rw [Mark.mk.injEq]
  exact ⟨ho.trans ho'.symm, hl.trans hl'.symm, hkind⟩

namespace Policy.Classifies

variable {p : Policy} {t t' : SyntaxTree} {c c' : Classification}

/-- Where one classification has a mark the other has the same: each kind is at least as good as the
other. -/
theorem mem_marks (h : p.Classifies t c) (h' : p.Classifies t c') {m : Mark} (hm : m ∈ c.marks) :
    m ∈ c'.marks := by
  obtain ⟨l, hl, s, rank, hs, hcovers, hfires, hbest⟩ := h.best m hm
  obtain ⟨m', hm', hcovers'⟩ := h'.complete l hl s hs
  obtain ⟨l', hl', s', rank', hs', hcovers'', hfires', hbest'⟩ := h'.best m' hm'
  obtain rfl := hcovers'.span_unique hcovers''
  have hle := hbest l' hl' rank' m'.kind hs' hfires'
  have hle' := hbest' l hl rank m.kind hs hfires
  have hkind : m.kind = m'.kind := Kind.index_injective (by omega)
  rw [hcovers.mark_unique hcovers' hs.nonempty hkind]
  exact hm'

/-- A tree has one classification. -/
theorem unique (h : p.Classifies t c) (h' : p.Classifies t c') : c = c' := by
  have hmarks : c.marks = c'.marks :=
    h.ordered.eq_of_mem_iff h'.ordered fun _ => ⟨h.mem_marks h', h'.mem_marks h⟩
  have hskipped := h.skipped.trans h'.skipped.symm
  have hvisited := h.visited.trans h'.visited.symm
  cases c
  cases c'
  rw [Classification.mk.injEq]
  exact ⟨hmarks, hskipped, hvisited⟩

/-- The classification of a tree is one of any tree with the same nodes. -/
theorem of_perm (h : p.Classifies t c) (hsource : t'.sourceLength = t.sourceLength)
    (hperm : t'.labels.Perm t.labels) : p.Classifies t' c where
  visited := by
    have hsize : ∀ t : SyntaxTree, t.labels.length = t.root.size := fun t => by
      rw [SyntaxTree.labels, List.length_map, Node.length_preorder]
    rw [h.visited, ← hsize, ← hsize, hperm.length_eq]
  skipped := by
    rw [h.skipped, hsource, hperm.countP_eq]
  ordered := h.ordered
  complete := fun l hl s hs => h.complete l (hperm.mem_iff.mp hl) s (hsource ▸ hs)
  best := by
    intro m hm
    obtain ⟨l, hl, s, rank, hs, hcovers, hfires, hbest⟩ := h.best m hm
    refine ⟨l, hperm.mem_iff.mpr hl, s, rank, hsource ▸ hs, hcovers, hfires, ?_⟩
    intro l' hl' rank' kind' hs' hfires'
    exact hbest l' (hperm.mem_iff.mp hl') rank' kind' (hsource ▸ hs') hfires'

end Policy.Classifies

namespace Policy

/-- **What the marks of a tree are.**  The classification of a tree under any order of precedence is
the one with a mark for each span that eligible nodes have, in strict order of position, each with
the best kind for its span, and with the right counts; so it depends on which nodes there are, and
not on how the tree nests or orders them. -/
theorem eq_classifyTree_iff_classifies (p : List Rule) (t : SyntaxTree) :
    (∀ c, c = (ofOrder p).classifyTree t ↔ (ofOrder p).Classifies t c) ∧
    ∀ t' : SyntaxTree, t'.sourceLength = t.sourceLength → t'.labels.Perm t.labels →
      (ofOrder p).classifyTree t' = (ofOrder p).classifyTree t := by
  constructor
  · intro c
    constructor
    · rintro rfl
      exact classifies_classifyTree p t
    · intro h
      exact h.unique (classifies_classifyTree p t)
  · intro t' hsource hperm
    have hsame := (classifies_classifyTree p t).of_perm hsource hperm
    exact (classifies_classifyTree p t').unique hsame

/-- A key and a call at one span, and a key that reaches beyond the source: either of the first two
may stand within the other, and the key comes before the call. -/
theorem classifyTree_renested :
    let key : Label := ⟨.mapKey, some ⟨4, 7⟩, {}⟩
    let call : Label := ⟨.call .static, some ⟨4, 7⟩, {}⟩
    let late : Label := ⟨.mapKey, some ⟨8, 12⟩, {}⟩
    let unit : Label := ⟨.unit, none, {}⟩
    let t : SyntaxTree :=
      { root := .mk unit [.mk key [.leaf call], .leaf late], sourceLength := some 9 }
    let t' : SyntaxTree :=
      { root := .mk unit [.leaf late, .mk call [.leaf key]], sourceLength := some 9 }
    t'.labels.Perm t.labels ∧ (ofOrder []).classifyTree t' = (ofOrder []).classifyTree t ∧
    (ofOrder []).Classifies t ⟨[⟨4, 3, .mapKey, by decide⟩], 1, 4⟩ := by
  intro key call late unit t t'
  have hperm : t'.labels.Perm t.labels := by decide
  have hmarks : (ofOrder []).classifyTree t = ⟨[⟨4, 3, .mapKey, by decide⟩], 1, 4⟩ := by
    rw [classifyTree_eq_auction]
    cbv
  obtain ⟨hspec, hsame⟩ := eq_classifyTree_iff_classifies [] t
  exact ⟨hperm, hsame t' rfl hperm, (hspec _).mp hmarks.symm⟩

end Policy

end Highlighting
