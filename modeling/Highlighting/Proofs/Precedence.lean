/-
Precedence decides kinds, never spans.

Which nodes bid for their spans does not depend on the order of the rules: every
policy holds every rule, so a node some rule fires on gets a kind under any of them,
and whether it may bid then is a matter of its span and flags.  The spans that are
won are those that are bid for, in order of position, so they are the same as well.

The kind is another matter, but only where the order has something to decide.
Deprecation apart, no two rules fire on one node.
-/
import Highlighting.Proofs.Classification
import Highlighting.Proofs.Walk
import Mathlib

namespace Highlighting

/-! ### Rules that fire -/

/-- The kind of a node by its own nature, deprecation apart. -/
def NodeKind.plain? : NodeKind → Option Kind
  | .unit | .classBody | .block | .other => none
  | .mapKey => some .mapKey
  | .tagMember => some .tagKey
  | .literal value => Rule.ofLiteral (.literal value)
  | .varDecl .unresolved | .varRef .unresolved | .call .unresolved => some .undefinedRef
  | .varDecl (.field isStatic isFinal) | .varRef (.field isStatic isFinal) =>
    Rule.ofField (.varRef (.field isStatic isFinal))
  | .varDecl binding | .varRef binding => Rule.ofVariable (.varRef binding)
  | .methodDecl isCtor isStatic => Rule.ofMethodDecl (.methodDecl isCtor isStatic)
  | .call callee => Rule.ofCall (.call callee)

/-- A rule other than that of deprecation gives a node the kind of its own nature. -/
theorem Rule.plain?_of_apply {r : Rule} (hr : r ≠ .deprecated) {l : Label} {k : Kind}
    (h : r.apply l = some k) : l.kind.plain? = some k := by
  obtain ⟨kind, span, flags⟩ := l
  cases r with
  | deprecated => exact absurd rfl hr
  | unresolved =>
      simp only [apply, ofUnresolved] at h
      split at h <;> simp_all [NodeKind.plain?]
  | literal =>
      simp only [apply, ofLiteral] at h
      split at h <;> simp_all [NodeKind.plain?, ofLiteral]
  | mapKey | tagKey =>
      simp only [apply] at h
      split at h <;> simp_all [NodeKind.plain?]
  | localName =>
      simp only [apply, ofVariable] at h
      split at h <;> simp_all [NodeKind.plain?, ofVariable]
  | field =>
      simp only [apply, ofField] at h
      split at h <;> simp_all [NodeKind.plain?, ofField]
  | methodDecl =>
      simp only [apply, ofMethodDecl] at h
      split at h <;> simp_all [NodeKind.plain?, ofMethodDecl]
  | call =>
      simp only [apply, ofCall] at h
      split at h <;> simp_all [NodeKind.plain?, ofCall]

/-- Deprecation apart, all rules that fire on a node give it the same kind. -/
theorem Rule.apply_unique {r r' : Rule} {l : Label} {k k' : Kind}
    (hplain : ¬(l.flags.deprecated = true ∧ l.kind.isNamed = true))
    (h : r.apply l = some k) (h' : r'.apply l = some k') : k = k' := by
  have hne : ∀ {r : Rule} {k : Kind}, r.apply l = some k → r ≠ .deprecated := by
    intro r k h hr
    rw [hr, apply, if_neg (by simpa using hplain)] at h
    simp at h
  have hk := Rule.plain?_of_apply (hne h) h
  have hk' := Rule.plain?_of_apply (hne h') h'
  rw [hk] at hk'
  exact Option.some.inj hk'

/-- Whether some rule fires on a node. -/
def Label.isFired (l : Label) : Bool := Rule.all.any fun r => (r.apply l).isSome

theorem Label.isFired_of_apply {l : Label} {r : Rule} {k : Kind} (h : r.apply l = some k) :
    l.isFired = true :=
  List.any_eq_true.mpr ⟨r, Rule.mem_all r, by rw [h]; rfl⟩

namespace Policy

theorem mem_order_ofOrder (p : List Rule) (r : Rule) : r ∈ (ofOrder p).order :=
  List.mem_eraseDups.mpr (List.mem_append_right p (Rule.mem_all r))

theorem apply_of_classify {p : Policy} {l : Label} {rank : Nat} {k : Kind}
    (h : p.classify l = some (rank, k)) : ∃ r : Rule, r.apply l = some k := by
  obtain ⟨⟨r, n⟩, -, hr⟩ := List.exists_of_findSome?_eq_some h
  obtain ⟨k', hk', heq⟩ := Option.map_eq_some_iff.mp hr
  cases heq
  exact ⟨r, hk'⟩

/-- A policy gives a kind to the nodes some rule fires on, whatever its order. -/
theorem isSome_classify_ofOrder (p : List Rule) (l : Label) :
    ((ofOrder p).classify l).isSome = l.isFired := by
  cases hfired : l.isFired with
  | true =>
      obtain ⟨r, -, hr⟩ := List.any_eq_true.mp hfired
      obtain ⟨k, hk⟩ := Option.isSome_iff_exists.mp hr
      obtain ⟨n, hn⟩ := List.mem_iff_getElem?.mp (mem_order_ofOrder p r)
      have hmem : (r, n) ∈ (ofOrder p).order.zipIdx := List.mk_mem_zipIdx_iff_getElem?.mpr hn
      refine List.findSome?_isSome_iff.mpr ⟨(r, n), hmem, ?_⟩
      simp [hk]
  | false =>
      cases hclass : (ofOrder p).classify l with
      | none => rfl
      | some found =>
          obtain ⟨r, hr⟩ := apply_of_classify hclass
          rw [Label.isFired_of_apply hr] at hfired
          exact Bool.noConfusion hfired

end Policy

/-! ### Nodes that bid -/

namespace Label

/-- The offset and the length a node may bid for once a rule fires on it: those of its span, if that
is there, is not empty and lies within the source, and the node was really written. -/
def place? (l : Label) (sourceLength : Option UInt32) : Option (UInt32 × UInt32) :=
  match l.span with
  | none => none
  | some s =>
    if s.start < s.stop ∧ s.isWithin sourceLength = true ∧ l.flags.synthetic = false then
      some (s.start, s.length)
    else none

/-- Whether a node bids for this offset and length. -/
def bidsFor (l : Label) (sourceLength : Option UInt32) (place : UInt32 × UInt32) : Bool :=
  l.isFired && l.place? sourceLength == some place

end Label

/-- What a node bids for does not depend on its kind, nor on the rule behind it. -/
theorem Label.place_bid? (l : Label) (sourceLength : Option UInt32) (rank : Nat) (kind : Kind) :
    (l.bid? sourceLength rank kind).map Bid.place = l.place? sourceLength := by
  unfold bid? place? Mark.make
  cases l.span with
  | none => rfl
  | some s =>
      by_cases hlt : s.start < s.stop
      · have hpos : 0 < s.length := (Span.length_pos_iff s).mpr hlt
        cases hwithin : s.isWithin sourceLength <;> cases l.flags.synthetic <;>
          simp [hpos, hlt, hwithin, Bid.place, Except.toOption, guard, failure]
      · have hpos : ¬0 < s.length := mt (Span.length_pos_iff s).mp hlt
        cases hwithin : s.isWithin sourceLength <;> cases l.flags.synthetic <;>
          simp [hpos, hlt, hwithin, Except.toOption, guard, failure]

theorem Label.kind_bid? {l : Label} {sourceLength : Option UInt32} {rank : Nat} {kind : Kind}
    {b : Bid} (h : l.bid? sourceLength rank kind = some b) : b.mark.kind = kind := by
  obtain ⟨s, -, h⟩ := Option.bind_eq_some_iff.mp h
  obtain ⟨-, -, h⟩ := Option.bind_eq_some_iff.mp h
  obtain ⟨mark, hmark, h⟩ := Option.bind_eq_some_iff.mp h
  cases h
  exact (Mark.toOption_make_eq_some_iff.mp hmark).2.2

/-- What the nodes some rule fires on may bid for, in preorder. -/
def SyntaxTree.places (t : SyntaxTree) : List (Option (UInt32 × UInt32)) :=
  t.root.preorder.filterMap fun n =>
    if n.label.isFired then some (n.label.place? t.sourceLength) else none

namespace Policy

theorem places_bids (p : List Rule) (t : SyntaxTree) :
    ((ofOrder p).bids t).map (·.map Bid.place) = t.places := by
  rw [bids, SyntaxTree.places, List.map_filterMap, Node.walk_eq_preorder]
  congr 1
  funext n
  rw [bidOf]
  have hsome := isSome_classify_ofOrder p n.label
  cases hclass : (ofOrder p).classify n.label with
  | none =>
      rw [hclass] at hsome
      simp [← hsome]
  | some found =>
      rw [hclass] at hsome
      simp [← hsome, Label.place_bid?]

/-- The places that are bid for are those of the nodes that bid, whatever the order of the rules. -/
theorem mem_places_bids (p : List Rule) (t : SyntaxTree) (x : UInt32 × UInt32) :
    x ∈ (((ofOrder p).bids t).filterMap id).map Bid.place ↔
      ∃ n ∈ t.root.preorder, n.label.bidsFor t.sourceLength x = true := by
  have hplaces : (((ofOrder p).bids t).filterMap id).map Bid.place = t.places.filterMap id := by
    rw [← places_bids p, List.map_filterMap, List.filterMap_map]
    rfl
  rw [hplaces, SyntaxTree.places]
  simp [List.mem_filterMap, Label.bidsFor]

/-- A mark of a tree comes from a node that bids for its place and has its kind from some rule. -/
theorem exists_node_of_mem_marks {p : Policy} {t : SyntaxTree} {m : Mark}
    (h : m ∈ (p.classifyTree t).marks) :
    ∃ n ∈ t.root.preorder, n.label.bidsFor t.sourceLength (m.offset, m.length) = true ∧
      ∃ r : Rule, r.apply n.label = some m.kind := by
  rw [classifyTree_eq_auction] at h
  obtain ⟨b, hb, rfl⟩ := List.mem_map.mp h
  obtain ⟨_, hmem, rfl⟩ := List.mem_filterMap.mp (Bid.mem_of_mem_winners hb)
  obtain ⟨n, hn, hclass⟩ := List.mem_filterMap.mp hmem
  obtain ⟨⟨rank, kind⟩, hclass, hbid⟩ := Option.map_eq_some_iff.mp hclass
  change n.label.bid? t.sourceLength rank kind = some b at hbid
  obtain ⟨r, hr⟩ := apply_of_classify hclass
  rw [Node.walk_eq_preorder] at hn
  refine ⟨n, hn, ?_, r, ?_⟩
  · have hplace := n.label.place_bid? t.sourceLength rank kind
    rw [hbid] at hplace
    simp [Label.bidsFor, Label.isFired_of_apply hr, ← hplace, Bid.place]
  · rw [Label.kind_bid? hbid]
    exact hr

end Policy

/-! ### Spans that are won -/

namespace Bid

/-- The places that are won are determined by those that are bid for: they are the same, each once,
in order of position. -/
theorem places_winners_congr {bids bids' : List Bid}
    (h : ∀ x, x ∈ bids.map place ↔ x ∈ bids'.map place) :
    (winners bids).map place = (winners bids').map place := by
  let before (a b : UInt32 × UInt32) : Prop := a.1 < b.1 ∨ a.1 = b.1 ∧ a.2 < b.2
  have hsorted : ∀ bids, ((winners bids).map place).Pairwise before := fun bids =>
    List.pairwise_map.mpr (winners_ordered bids)
  have hirrefl : ∀ a, ¬before a a := by
    intro a ha
    simp [before] at ha
  have hnodup : ∀ bids, ((winners bids).map place).Nodup := by
    intro bids
    refine (hsorted bids).imp ?_
    intro a b hab heq
    exact hirrefl a (by rwa [← heq] at hab)
  have hperm : ((winners bids).map place).Perm ((winners bids').map place) := by
    refine (List.perm_ext_iff_of_nodup (hnodup bids) (hnodup bids')).mpr fun x => ?_
    rw [mem_places_winners, mem_places_winners]
    exact h x
  refine hperm.eq_of_pairwise ?_ (hsorted bids) (hsorted bids')
  intro a b _ _ hab hba
  simp only [before, UInt32.lt_iff_toNat_lt, ← UInt32.toNat_inj] at hab hba
  omega

end Bid

/-! ### Two orders of precedence -/

namespace Policy

theorem places_marks (p : Policy) (t : SyntaxTree) :
    (p.classifyTree t).marks.map (fun m => (m.offset, m.length)) =
      (Bid.winners ((p.bids t).filterMap id)).map Bid.place := by
  rw [classifyTree_eq_auction, auction, List.map_map]
  rfl

theorem visited_classifyTree (p : Policy) (t : SyntaxTree) :
    (p.classifyTree t).visited = t.root.size := by
  rw [classifyTree_eq_auction, auction, Node.count_eq_size]

theorem skipped_classifyTree_ofOrder (p : List Rule) (t : SyntaxTree) :
    ((ofOrder p).classifyTree t).skipped = t.places.countP Option.isNone := by
  -- whether a bid is missing can be seen from its place
  rw [← places_bids p, List.countP_map, classifyTree_eq_auction]
  simp [auction, Function.comp_def]

/-- **Precedence never changes what is highlighted.**  Under any two orders of precedence a tree has
as many nodes visited and as many skipped, and the same stretches of text are marked, namely those
some node bids for.  Where just one node bids for a stretch, its kind can differ only if the node is
deprecated and has a name. -/
theorem classifyTree_ofOrder (p q : List Rule) (t : SyntaxTree) :
    let a := (ofOrder p).classifyTree t
    let b := (ofOrder q).classifyTree t
    a.visited = b.visited ∧ a.skipped = b.skipped ∧
    a.marks.map (fun m => (m.offset, m.length)) = b.marks.map (fun m => (m.offset, m.length)) ∧
    (∀ x, x ∈ a.marks.map (fun m => (m.offset, m.length)) ↔
      ∃ n ∈ t.root.preorder, n.label.bidsFor t.sourceLength x = true) ∧
    ∀ m ∈ a.marks, ∀ m' ∈ b.marks, m.offset = m'.offset → m.length = m'.length →
      ∀ n, t.root.preorder.filter (fun n =>
          n.label.bidsFor t.sourceLength (m.offset, m.length)) = [n] →
        m.kind ≠ m'.kind → n.label.flags.deprecated = true ∧ n.label.kind.isNamed = true := by
  intro a b
  refine ⟨?_, ?_, ?_, ?_, ?_⟩
  · rw [visited_classifyTree, visited_classifyTree]
  · rw [skipped_classifyTree_ofOrder, skipped_classifyTree_ofOrder]
  · rw [places_marks, places_marks]
    refine Bid.places_winners_congr fun x => ?_
    rw [mem_places_bids, mem_places_bids]
  · intro x
    rw [places_marks, Bid.mem_places_winners, mem_places_bids]
  · intro m hm m' hm' hoffset hlength n hone hkind
    obtain ⟨n₁, hn₁, hbids₁, r₁, hr₁⟩ := exists_node_of_mem_marks hm
    obtain ⟨n₂, hn₂, hbids₂, r₂, hr₂⟩ := exists_node_of_mem_marks hm'
    -- both kinds come from the one node that bids here
    have honly : ∀ n' ∈ t.root.preorder,
        n'.label.bidsFor t.sourceLength (m.offset, m.length) = true → n' = n := by
      intro n' hn' hbids
      rw [← List.mem_singleton, ← hone]
      exact List.mem_filter.mpr ⟨hn', hbids⟩
    rw [← hoffset, ← hlength] at hbids₂
    rw [honly n₁ hn₁ hbids₁] at hr₁
    rw [honly n₂ hn₂ hbids₂] at hr₂
    by_contra hplain
    exact hkind (Rule.apply_unique hplain hr₁ hr₂)

/-- A call of something deprecated: the first of the two rules that fire on it decides. -/
theorem classifyTree_ofOrder_deprecated_call :
    let n : Node := .leaf ⟨.call .static, some ⟨4, 7⟩, { deprecated := true }⟩
    let t : SyntaxTree := { root := .mk ⟨.block, some ⟨0, 9⟩, {}⟩ [n], sourceLength := some 9 }
    ((ofOrder []).classifyTree t).marks = [⟨4, 3, .deprecatedRef, by decide⟩] ∧
    ((ofOrder [.call]).classifyTree t).marks = [⟨4, 3, .staticCall, by decide⟩] ∧
    t.root.preorder.filter (fun n => n.label.bidsFor t.sourceLength (4, 3)) = [n] ∧
    n.label.flags.deprecated = true ∧ n.label.kind.isNamed = true := by
  intro n t
  have hfirst : ((ofOrder []).classifyTree t).marks = [⟨4, 3, .deprecatedRef, by decide⟩] := by
    rw [classifyTree_eq_auction]
    cbv
  have hsecond : ((ofOrder [.call]).classifyTree t).marks = [⟨4, 3, .staticCall, by decide⟩] := by
    rw [classifyTree_eq_auction]
    cbv
  have hone : t.root.preorder.filter (fun n => n.label.bidsFor t.sourceLength (4, 3)) = [n] := by
    cbv
  have hmem : ⟨4, 3, .deprecatedRef, by decide⟩ ∈ ((ofOrder []).classifyTree t).marks := by
    simp [hfirst]
  have hmem' : ⟨4, 3, .staticCall, by decide⟩ ∈ ((ofOrder [.call]).classifyTree t).marks := by
    simp [hsecond]
  exact ⟨hfirst, hsecond, hone,
    (classifyTree_ofOrder [] [.call] t).2.2.2.2 _ hmem _ hmem' rfl rfl n hone (by decide)⟩

end Policy

end Highlighting
