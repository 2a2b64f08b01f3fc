/-
What a builder makes of any sequence of steps.

Steps may fail, and then the builder goes on as if they had not been tried, so all
that counts are the steps it accepted.  Of those three things are enough to know the
builder: how many nodes are open, what was added and at which depth, and the length
that was given last.

The tree is in pieces while it is built.  Each open node holds the children that are
complete, and a node that is closed moves into the children of the one around it.
Read from the outermost open node inwards, though, the pieces are an outline at any
time: a step that adds a node adds one line at its end, and closing a node moves
lines from one piece to another without changing the whole.  Giving a length changes
the span in the first line, which is that of the root, however many nodes are open.
-/
import Highlighting.Proofs.Walk
import Highlighting.Tree.Builder
import Highlighting.Tree.Outline
import Mathlib

namespace Highlighting

/-! ### Outlines and walks -/

namespace Node

theorem outlineAllFrom_append (d : Nat) (ms ns : List Node) :
    outlineAllFrom d (ms ++ ns) = outlineAllFrom d ms ++ outlineAllFrom d ns := by
  induction ms with
  | nil => rw [List.nil_append, outlineAllFrom, List.nil_append]
  | cons m ms ih => rw [List.cons_append, outlineAllFrom, outlineAllFrom, ih, List.append_assoc]

mutual

theorem labels_outlineFrom (d : Nat) : ∀ n : Node,
    (n.outlineFrom d).map Prod.snd = n.preorder.map label
  | mk l cs => by
    rw [outlineFrom, preorder, List.map_cons, List.map_cons, labels_outlineAllFrom (d + 1) cs, label]

theorem labels_outlineAllFrom (d : Nat) : ∀ ns : List Node,
    (outlineAllFrom d ns).map Prod.snd = (preorderAll ns).map label
  | [] => by rw [outlineAllFrom, preorderAll, List.map_nil, List.map_nil]
  | n :: rest => by
    rw [outlineAllFrom, preorderAll, List.map_append, List.map_append, labels_outlineFrom d n,
      labels_outlineAllFrom d rest]

end

/-- The outline lists the labels in the order of the walk. -/
theorem labels_walk (n : Node) : n.walk.map label = n.outline.map Prod.snd := by
  rw [walk_eq_preorder, outline, labels_outlineFrom]

end Node

/-- The span of a label if it ends before it starts. -/
def Label.inverted? (l : Label) : Option Span := l.span.filter fun s => s.stop < s.start

namespace Builder

/-! ### Steps and what they ask for -/

namespace Step

/-- The label of the node a step adds. -/
def label? : Step → Option Label
  | openNode l | leaf l => some l
  | close | setLength _ => none

/-- The length a step gives. -/
def length? : Step → Option UInt32
  | setLength n => some n
  | openNode _ | leaf _ | close => none

def isOpen : Step → Bool
  | openNode _ => true
  | leaf _ | close | setLength _ => false

end Step

/-- How many of some steps open a node. -/
def opens (steps : List Step) : Nat := steps.countP Step.isOpen

/-- How many of some steps close a node. -/
def closes (steps : List Step) : Nat := steps.count .close

/-- The length that some steps give last. -/
def lastLength? (steps : List Step) : Option UInt32 := (steps.filterMap Step.length?).getLast?

/-- What is wrong with a step, by the accepted steps before it. -/
def fault (earlier : List Step) : Step → Option BuildError
  | .openNode l | .leaf l => l.inverted?.map .inverted
  | .close => if opens earlier = closes earlier then some .nothingOpen else none
  | .setLength _ => none

/-- The steps that went well by a log of them. -/
def accepted (steps : List Step) (log : List (Option BuildError)) : List Step :=
  ((steps.zip log).filter fun e => e.2.isNone).map Prod.fst

/-- The nodes that accepted steps add, in order, each with its depth: it is one more than the number
of nodes that were open at the time, the root not counted. -/
def added (steps : List Step) : List (Nat × Label) :=
  steps.zipIdx.filterMap fun e =>
    e.1.label?.map (1 + (opens (steps.take e.2) - closes (steps.take e.2)), ·)

section Concat

variable (steps : List Step) (s : Step)

theorem opens_concat : opens (steps ++ [s]) = opens steps + s.isOpen.toNat := by
  rw [opens, List.countP_append, List.countP_singleton, opens]
  cases s.isOpen <;> rfl

theorem closes_concat : closes (steps ++ [s]) = closes steps + if s = .close then 1 else 0 := by
  rw [closes, List.count_append, List.count_singleton, closes]
  simp

theorem lastLength?_concat : lastLength? (steps ++ [s]) = s.length?.or (lastLength? steps) := by
  rw [lastLength?, List.filterMap_append, List.getLast?_append, lastLength?]
  cases s <;> rfl

theorem added_concat : added (steps ++ [s]) =
    added steps ++ (s.label?.map (1 + (opens steps - closes steps), ·)).toList := by
  rw [added, List.zipIdx_append, List.filterMap_append, added]
  congr 1
  · -- the steps before an earlier one are the same
    refine List.filterMap_congr fun e he => ?_
    have hlt : e.2 < steps.length := by
      have := List.snd_lt_add_of_mem_zipIdx he
      omega
    rw [List.take_append_of_le_length (Nat.le_of_lt hlt)]
  · have htake : (steps ++ [s]).take steps.length = steps := List.take_left
    cases hl : s.label? <;> simp [htake, hl]

theorem accepted_concat {log : List (Option BuildError)} (hlog : log.length = steps.length)
    (e : Option BuildError) :
    accepted (steps ++ [s]) (log ++ [e]) =
      accepted steps log ++ if e = none then [s] else [] := by
  rw [accepted, List.zip_append hlog.symm, List.filter_append, List.map_append, accepted]
  cases e <;> rfl

end Concat

/-! ### One step -/

theorem checkLabel_eq (l : Label) : checkLabel l =
    match l.inverted? with
    | some s => .error (.inverted s)
    | none => .ok l := by
  unfold checkLabel Label.inverted? Span.isInverted
  cases l.span with
  | none => rfl
  | some s => by_cases h : s.stop < s.start <;> simp [h, Option.filter]

section Step

variable {b b' : Builder} {s : Step}

/-- What a step that succeeds does. -/
theorem step_cases (h : b.step s = .ok b') :
    (∃ l, s = .openNode l ∧ l.inverted? = none ∧
      b' = { b with current := { label := l }, enclosing := b.current :: b.enclosing }) ∨
    (∃ l, s = .leaf l ∧ l.inverted? = none ∧ b' = { b with current := b.current.add (.leaf l) }) ∨
    (∃ parent outer, s = .close ∧ b.enclosing = parent :: outer ∧
      b' = { b with current := parent.add b.current.close, enclosing := outer }) ∨
    ∃ n, s = .setLength n ∧ b' = b.setLength n := by
  cases s with
  | openNode l =>
      rw [step, openNode, checkLabel_eq] at h
      cases hspan : l.inverted? with
      | some s => rw [hspan] at h; cases h
      | none =>
          rw [hspan] at h
          cases h
          exact Or.inl ⟨l, rfl, hspan, rfl⟩
  | leaf l =>
      rw [step, leaf, checkLabel_eq] at h
      cases hspan : l.inverted? with
      | some s => rw [hspan] at h; cases h
      | none =>
          rw [hspan] at h
          cases h
          exact Or.inr (Or.inl ⟨l, rfl, hspan, rfl⟩)
  | close =>
      rw [step, close] at h
      cases henclosing : b.enclosing with
      | nil => rw [henclosing] at h; cases h
      | cons parent outer =>
          rw [henclosing] at h
          cases h
          exact Or.inr (Or.inr (Or.inl ⟨parent, outer, rfl, rfl, rfl⟩))
  | setLength n =>
      cases h
      exact Or.inr (Or.inr (Or.inr ⟨n, rfl, rfl⟩))

/-- How a step goes. -/
def verdict (b : Builder) (s : Step) : Option BuildError :=
  match b.step s with
  | .ok _ => none
  | .error e => some e

theorem verdict_eq_none_iff : b.verdict s = none ↔ b.step s = .ok (b.stepOrStay s) := by
  unfold verdict stepOrStay
  cases b.step s <;> simp

theorem stepOrStay_of_verdict {e : BuildError} (h : b.verdict s = some e) : b.stepOrStay s = b := by
  unfold verdict at h
  unfold stepOrStay
  cases hs : b.step s with
  | ok b' => rw [hs] at h; cases h
  | error e => rfl

theorem sourceLength_stepOrStay (b : Builder) (s : Step) :
    (b.stepOrStay s).sourceLength = s.length?.or b.sourceLength := by
  cases hv : b.verdict s with
  | none =>
      rcases step_cases (verdict_eq_none_iff.mp hv) with
        ⟨l, rfl, -, hb⟩ | ⟨l, rfl, -, hb⟩ | ⟨parent, outer, rfl, -, hb⟩ | ⟨n, rfl, hb⟩
      all_goals rw [hb]; rfl
  | some e =>
      rw [stepOrStay_of_verdict hv]
      cases s with
      | openNode l | leaf l | close => rfl
      | setLength n => cases hv

end Step

/-! ### The outline of a tree that is being built -/

/-- The outline of the open nodes, the innermost of them first. -/
def outlineOf : List OpenNode → List (Nat × Label)
  | [] => []
  | o :: outer => outlineOf outer ++ (outer.length, o.label) ::
      Node.outlineAllFrom (outer.length + 1) o.children.reverse

/-- The outline of the tree as far as it is built. -/
def outline (b : Builder) : List (Nat × Label) := outlineOf (b.current :: b.enclosing)

theorem outline_leaf (b : Builder) (l : Label) :
    outline { b with current := b.current.add (.leaf l) } =
      b.outline ++ [(b.enclosing.length + 1, l)] := by
  simp [outline, outlineOf, OpenNode.add, Node.leaf, Node.outlineAllFrom_append,
    Node.outlineAllFrom, Node.outlineFrom]

/-- Closing a node moves its lines into those of the node around it. -/
theorem outline_close {b : Builder} {parent : OpenNode} {outer : List OpenNode}
    (h : b.enclosing = parent :: outer) :
    outline { b with current := parent.add b.current.close, enclosing := outer } = b.outline := by
  simp [outline, outlineOf, h, OpenNode.add, OpenNode.close, Node.outlineAllFrom_append,
    Node.outlineAllFrom, Node.outlineFrom]

theorem length_spanOutermost (s : Span) (o : OpenNode) (outer : List OpenNode) :
    (o.spanOutermost s outer).2.length = outer.length := by
  induction outer generalizing o with
  | nil => rfl
  | cons parent outer ih =>
      show ((parent.spanOutermost s outer).2.length + 1) = _
      rw [ih, List.length_cons]

/-- The outermost open node is the first line, and nothing but its span changes. -/
theorem outlineOf_spanOutermost (s : Span) (o : OpenNode) (outer : List OpenNode) {l : Label}
    {lines : List (Nat × Label)} (h : outlineOf (o :: outer) = (0, l) :: lines) :
    outlineOf ((o.spanOutermost s outer).1 :: (o.spanOutermost s outer).2) =
      (0, { l with span := some s }) :: lines := by
  induction outer generalizing o lines with
  | nil =>
      simp only [outlineOf, List.nil_append, List.cons.injEq, Prod.mk.injEq] at h
      obtain ⟨⟨-, rfl⟩, rfl⟩ := h
      rfl
  | cons parent outer ih =>
      rw [outlineOf, List.append_eq_cons_iff] at h
      rcases h with ⟨hnil, -⟩ | ⟨more, hmore, rfl⟩
      · simp [outlineOf] at hnil
      · show outlineOf (o :: (parent.spanOutermost s outer).1 :: (parent.spanOutermost s outer).2) = _
        rw [outlineOf, ih parent hmore, List.length_cons, length_spanOutermost]
        rfl

theorem length_enclosing_setLength (b : Builder) (n : UInt32) :
    (b.setLength n).enclosing.length = b.enclosing.length :=
  length_spanOutermost ⟨0, n⟩ b.current b.enclosing

theorem outline_setLength {b : Builder} {l : Label} {lines : List (Nat × Label)}
    (h : b.outline = (0, l) :: lines) (n : UInt32) :
    (b.setLength n).outline = (0, { l with span := some ⟨0, n⟩ }) :: lines :=
  outlineOf_spanOutermost ⟨0, n⟩ b.current b.enclosing h

/-- The label of the root if the source is this long. -/
def rootLabel (sourceLength : Option UInt32) : Label :=
  ⟨.unit, sourceLength.map fun n => ⟨0, n⟩, .none⟩

/-- A builder is what some accepted steps made.  The root spans the source at any time, also while
other nodes are open. -/
structure Made (b : Builder) (good : List Step) : Prop where
  opened : opens good = closes good + b.enclosing.length
  outline : b.outline = (0, rootLabel b.sourceLength) :: added good

theorem made_new : Made new [] := ⟨rfl, rfl⟩

section Made

variable {b b' : Builder} {good : List Step} {s : Step}

/-- A step fails for what is wrong with it and for nothing else. -/
theorem Made.verdict_eq (h : Made b good) (s : Step) : b.verdict s = fault good s := by
  have hopened := h.opened
  cases s with
  | openNode l =>
      rw [verdict, step, openNode, checkLabel_eq, fault]
      cases l.inverted? <;> rfl
  | leaf l =>
      rw [verdict, step, leaf, checkLabel_eq, fault]
      cases l.inverted? <;> rfl
  | close =>
      rw [verdict, step, close, fault]
      cases henclosing : b.enclosing with
      | nil =>
          rw [henclosing, List.length_nil] at hopened
          rw [if_pos (by omega)]
      | cons parent outer =>
          rw [henclosing, List.length_cons] at hopened
          rw [if_neg (by omega)]
  | setLength n => rfl

theorem Made.step (h : Made b good) (hs : b.step s = .ok b') : Made b' (good ++ [s]) := by
  have hopened := h.opened
  have hdepth : 1 + (opens good - closes good) = b.enclosing.length + 1 := by omega
  refine ⟨?_, ?_⟩
  · rw [opens_concat, closes_concat, hopened]
    rcases step_cases hs with
      ⟨l, rfl, -, rfl⟩ | ⟨l, rfl, -, rfl⟩ | ⟨parent, outer, rfl, hb, rfl⟩ | ⟨n, rfl, rfl⟩
    · simp [Step.isOpen, Nat.add_assoc]
    · simp [Step.isOpen]
    · simp [Step.isOpen, hb]
      omega
    · simp [Step.isOpen, length_enclosing_setLength]
  · rw [added_concat, hdepth]
    rcases step_cases hs with
      ⟨l, rfl, -, rfl⟩ | ⟨l, rfl, -, rfl⟩ | ⟨parent, outer, rfl, hb, rfl⟩ | ⟨n, rfl, rfl⟩
    · rw [← List.cons_append, ← h.outline]
      rfl
    · rw [← List.cons_append, ← h.outline]
      exact outline_leaf b l
    · rw [outline_close hb, h.outline]
      simp [Step.label?]
    · rw [outline_setLength h.outline]
      simp [Step.label?, rootLabel, setLength]

end Made

/-! ### All steps -/

theorem run_append (b : Builder) (steps more : List Step) :
    b.run (steps ++ more) =
      ((b.run steps).1 ++ ((b.run steps).2.run more).1, ((b.run steps).2.run more).2) := by
  induction steps generalizing b with
  | nil => rfl
  | cons s rest ih =>
      show (b.verdict s :: ((b.stepOrStay s).run (rest ++ more)).1,
        ((b.stepOrStay s).run (rest ++ more)).2) = _
      rw [ih]
      rfl

theorem run_concat (b : Builder) (steps : List Step) (s : Step) :
    b.run (steps ++ [s]) =
      ((b.run steps).1 ++ [(b.run steps).2.verdict s], (b.run steps).2.stepOrStay s) :=
  run_append b steps [s]

theorem length_run (b : Builder) (steps : List Step) : (b.run steps).1.length = steps.length := by
  induction steps using List.reverseRecOn with
  | nil => rfl
  | append_singleton steps s ih => rw [run_concat, List.length_append, List.length_append, ih]; rfl

theorem sourceLength_run (steps : List Step) :
    (new.run steps).2.sourceLength = lastLength? steps := by
  induction steps using List.reverseRecOn with
  | nil => rfl
  | append_singleton steps s ih => rw [run_concat, sourceLength_stepOrStay, ih, lastLength?_concat]

/-- The steps of some that a new builder accepts. -/
def kept (steps : List Step) : List Step := accepted steps (new.run steps).1

theorem kept_concat (steps : List Step) (s : Step) : kept (steps ++ [s]) =
    kept steps ++ if (new.run steps).2.verdict s = none then [s] else [] := by
  rw [kept, run_concat, accepted_concat _ _ (length_run _ _), kept]

/-- At any time the builder is what the steps it accepted made. -/
theorem made_run (steps : List Step) : Made (new.run steps).2 (kept steps) := by
  induction steps using List.reverseRecOn with
  | nil => exact made_new
  | append_singleton steps s ih =>
      rw [run_concat, kept_concat]
      cases hv : (new.run steps).2.verdict s with
      | none => exact ih.step (verdict_eq_none_iff.mp hv)
      | some e =>
          rw [if_neg (by simp), List.append_nil, stepOrStay_of_verdict hv]
          exact ih

/-- The failed steps might as well not have been tried. -/
theorem run_kept (steps : List Step) : (new.run (kept steps)).2 = (new.run steps).2 := by
  induction steps using List.reverseRecOn with
  | nil => rfl
  | append_singleton steps s ih =>
      rw [run_concat, kept_concat]
      cases hv : (new.run steps).2.verdict s with
      | none => rw [if_pos rfl, run_concat, ih]
      | some e => rw [if_neg (by simp), List.append_nil, ih, stepOrStay_of_verdict hv]

theorem take_run (b : Builder) (steps : List Step) (i : Nat) :
    (b.run steps).1.take i = (b.run (steps.take i)).1 := by
  induction steps generalizing b i with
  | nil => simp [run]
  | cons s rest ih =>
      cases i with
      | zero => rfl
      | succ i =>
          show b.verdict s :: ((b.stepOrStay s).run rest).1.take i = _
          rw [ih]
          rfl

theorem getElem?_run (b : Builder) (steps : List Step) (i : Nat) :
    (b.run steps).1[i]? = steps[i]?.map (b.run (steps.take i)).2.verdict := by
  induction steps generalizing b i with
  | nil => simp [run]
  | cons s rest ih =>
      cases i with
      | zero => rfl
      | succ i => exact ih (b.stepOrStay s) i

/-! ### The finished tree -/

theorem Made.finish_error {b : Builder} {good : List Step} (h : Made b good)
    (hopen : opens good ≠ closes good) :
    b.finish = .error (.unbalanced (opens good - closes good)) := by
  have hopened := h.opened
  unfold finish
  cases henclosing : b.enclosing with
  | nil => rw [henclosing, List.length_nil] at hopened; omega
  | cons parent outer =>
      rw [henclosing] at hopened
      rw [hopened, Nat.add_sub_cancel_left]

theorem Made.finish_ok {b : Builder} {good : List Step} (h : Made b good)
    (hclosed : opens good = closes good) :
    ∃ t, b.finish = .ok t ∧ t.sourceLength = b.sourceLength ∧
      t.root.outline = (0, rootLabel b.sourceLength) :: added good := by
  have hopened := h.opened
  have houtline := h.outline
  unfold finish
  cases henclosing : b.enclosing with
  | cons parent outer => rw [henclosing, List.length_cons] at hopened; omega
  | nil =>
      refine ⟨_, rfl, rfl, ?_⟩
      -- the root is the only open node, so its lines are all there are
      rw [Builder.outline, henclosing, outlineOf, outlineOf, List.nil_append, List.cons.injEq] at houtline
      obtain ⟨hroot, hchildren⟩ := houtline
      rw [Node.outline, OpenNode.close, Node.outlineFrom, ← hchildren]
      exact congrArg (· :: _) hroot

theorem labels_added (steps : List Step) :
    (added steps).map Prod.snd = steps.filterMap Step.label? := by
  induction steps using List.reverseRecOn with
  | nil => rfl
  | append_singleton steps s ih =>
      rw [added_concat, List.map_append, ih, List.filterMap_append]
      cases hl : s.label? <;> simp [hl]

/-- **A builder makes the tree of the steps it accepts.**  Whatever the steps are, each of them fails
exactly for what is wrong with it: opening a node or adding a leaf when the span is inverted, closing
a node when as many nodes were closed as were opened.  The steps that fail do not matter for the
result.  It is an error if nodes are still open, and then tells their number.  Otherwise it is a tree
whose root is a unit, and then come the nodes that were added, in the order of the steps, each one
deeper than there were nodes open; the last length that was given is that of the source, and the root
spans it. -/
theorem run_builds_accepted (steps : List Step) :
    let log := (new.run steps).1
    let result := (new.run steps).2.finish
    let good := accepted steps log
    let root : Label := ⟨.unit, (lastLength? steps).map fun n => ⟨0, n⟩, .none⟩
    log.length = steps.length ∧
    (∀ i, log[i]? = steps[i]?.map (fault (accepted (steps.take i) (log.take i)))) ∧
    (new.run good).2.finish = result ∧
    closes good ≤ opens good ∧
    (∀ e, result = .error e ↔
      opens good - closes good ≠ 0 ∧ e = .unbalanced (opens good - closes good)) ∧
    (opens good - closes good = 0 → ∃ t, result = .ok t ∧
      t.root.outline = (0, root) :: added good ∧
      t.root.walk.map Node.label = root :: good.filterMap Step.label? ∧
      t.sourceLength = lastLength? steps) := by
  intro log result good root
  have hmade : Made (new.run steps).2 good := made_run steps
  have hle : closes good ≤ opens good := by
    have := hmade.opened
    omega
  have hok : opens good - closes good = 0 → ∃ t, result = .ok t ∧
      t.root.outline = (0, root) :: added good ∧ t.sourceLength = lastLength? steps := by
    intro hclosed
    obtain ⟨t, ht, hlength, houtline⟩ := hmade.finish_ok (by omega)
    rw [sourceLength_run] at hlength houtline
    exact ⟨t, ht, houtline, hlength⟩
  refine ⟨length_run _ _, fun i => ?_, congrArg finish (run_kept steps), hle, fun e => ?_, ?_⟩
  · show (new.run steps).1[i]? = _
    rw [take_run, getElem?_run]
    congr 1
    funext s
    exact (made_run (steps.take i)).verdict_eq s
  · constructor
    · intro he
      by_cases hopen : opens good - closes good = 0
      · obtain ⟨t, ht, -⟩ := hok hopen
        rw [ht] at he
        cases he
      · have hfinish : result = _ := hmade.finish_error (by omega)
        rw [hfinish] at he
        exact ⟨hopen, (Except.error.inj he).symm⟩
    · rintro ⟨hopen, rfl⟩
      exact hmade.finish_error (by omega)
  · intro hclosed
    obtain ⟨t, ht, houtline, hlength⟩ := hok hclosed
    refine ⟨t, ht, houtline, ?_, hlength⟩
    rw [Node.labels_walk, houtline, List.map_cons, labels_added]

/-- Two of the closing steps come too early or too late, a leaf has an inverted span, and the length
is given while a node is open. -/
theorem run_builds_accepted_mixed :
    let block : Label := { kind := .block, span := some ⟨2, 9⟩ }
    let number : Label := { kind := .literal .number, span := some ⟨3, 4⟩ }
    let old : Label := { kind := .call .method, flags := { deprecated := true } }
    let steps : List Step := [.close, .openNode block, .leaf { kind := .mapKey, span := some ⟨5, 2⟩ },
      .setLength 12, .leaf number, .close, .close, .leaf old]
    (new.run steps).1 = [some .nothingOpen, none, some (.inverted ⟨5, 2⟩), none, none, none,
      some .nothingOpen, none] ∧
    ∃ t, (new.run steps).2.finish = .ok t ∧
      t.root.outline =
        [(0, { kind := .unit, span := some ⟨0, 12⟩ }), (1, block), (2, number), (1, old)] ∧
      t.sourceLength = some 12 := by
  intro block number old steps
  obtain ⟨t, ht, houtline, -, hlength⟩ := (run_builds_accepted steps).2.2.2.2.2 (by decide)
  exact ⟨by decide, t, ht, houtline, hlength⟩

end Builder

end Highlighting
