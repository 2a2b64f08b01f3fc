/-
Writing trees down as steps, and building them again.

A node is written as a step that opens it, the steps of its children and a step that
closes it; a node without children may also be written as a leaf.  So a list of trees
has many writings, and each of them builds it: at any place in a tree, the steps add
the trees to the open node and leave all else as it was.

Nothing else builds it.  When steps have all succeeded, they consist of a writing for
each open node, of the children that are complete, and of the steps that opened these
nodes.  Closing a node turns its writing and the two steps around it into the writing
of one more child.
-/
import Highlighting.Proofs.Building

namespace Highlighting

namespace Builder

/-- Some steps write some trees down. -/
inductive Writes : List Step → List Node → Prop where
  | nil : Writes [] []
  | leaf (l : Label) {steps : List Step} {ns : List Node} :
      Writes steps ns → Writes (.leaf l :: steps) (.leaf l :: ns)
  | node (l : Label) {inner steps : List Step} {children ns : List Node} :
      Writes inner children → Writes steps ns →
        Writes (.openNode l :: inner ++ .close :: steps) (.mk l children :: ns)

theorem Writes.append {steps more : List Step} {ms ns : List Node} (h : Writes steps ms)
    (hmore : Writes more ns) : Writes (steps ++ more) (ms ++ ns) := by
  induction h with
  | nil => exact hmore
  | leaf l _ ih => exact .leaf l ih
  | @node l inner steps children ms hinner _ _ ih =>
      rw [List.append_assoc]
      exact .node l hinner ih

mutual

/-- The writing of a tree without any leaves. -/
def written : Node → List Step
  | .mk l children => .openNode l :: writtenAll children ++ [.close]

def writtenAll : List Node → List Step
  | [] => []
  | n :: rest => written n ++ writtenAll rest

end

mutual

theorem writes_written : ∀ n : Node, Writes (written n) [n]
  | .mk l children => by
    rw [written]
    exact .node l (writes_writtenAll children) .nil

theorem writes_writtenAll : ∀ ns : List Node, Writes (writtenAll ns) ns
  | [] => by
    rw [writtenAll]
    exact .nil
  | n :: rest => by
    rw [writtenAll]
    exact (writes_written n).append (writes_writtenAll rest)

end

/-! ### Trees without inverted spans -/

/-- No span in the trees ends before it starts. -/
def Upright (ns : List Node) : Prop :=
  ∀ n ∈ Node.preorderAll ns, ∀ s, n.label.span = some s → ¬s.stop < s.start

theorem inverted?_eq_none_iff {l : Label} :
    l.inverted? = none ↔ ∀ s, l.span = some s → ¬s.stop < s.start := by
  rw [Label.inverted?, Option.filter_eq_none_iff]
  simp

theorem upright_nil : Upright [] := by
  intro n hn
  rw [Node.preorderAll] at hn
  exact absurd hn List.not_mem_nil

theorem upright_append {ms ns : List Node} : Upright (ms ++ ns) ↔ Upright ms ∧ Upright ns := by
  unfold Upright
  rw [Node.preorderAll_append]
  exact List.forall_mem_append

theorem upright_cons {l : Label} {children ns : List Node} :
    Upright (.mk l children :: ns) ↔ l.inverted? = none ∧ Upright children ∧ Upright ns := by
  unfold Upright
  rw [Node.preorderAll, Node.preorder, List.cons_append, List.forall_mem_cons,
    List.forall_mem_append, inverted?_eq_none_iff, Node.label]

/-! ### A writing builds its trees -/

/-- All steps succeed and lead from one builder to another. -/
def Passes (b : Builder) (steps : List Step) (b' : Builder) : Prop :=
  b.run steps = (List.replicate steps.length none, b')

theorem Passes.cons {b b' b'' : Builder} {s : Step} {steps : List Step} (hs : b.step s = .ok b')
    (h : Passes b' steps b'') : Passes b (s :: steps) b'' := by
  have hstay : b.stepOrStay s = b' := by rw [stepOrStay, hs]
  have hverdict : b.verdict s = none := by rw [verdict, hs]
  show (b.verdict s :: ((b.stepOrStay s).run steps).1, ((b.stepOrStay s).run steps).2) = _
  rw [hstay, hverdict, h]
  rfl

theorem Passes.append {b b' b'' : Builder} {steps more : List Step} (h : Passes b steps b')
    (hmore : Passes b' more b'') : Passes b (steps ++ more) b'' := by
  rw [Passes, run_append, h, hmore, List.length_append, List.replicate_append_replicate]

/-- The builder with some trees added to the open node. -/
def adding (b : Builder) (ns : List Node) : Builder :=
  { b with current := { b.current with children := ns.reverse ++ b.current.children } }

theorem adding_cons (b : Builder) (n : Node) (ns : List Node) :
    { b with current := b.current.add n }.adding ns = b.adding (n :: ns) := by
  simp [adding, OpenNode.add]

theorem Writes.passes {steps : List Step} {ns : List Node} (h : Writes steps ns)
    (hup : Upright ns) (b : Builder) : Passes b steps (b.adding ns) := by
  induction h generalizing b with
  | nil => rfl
  | leaf l _ ih =>
      obtain ⟨hl, -, hrest⟩ := upright_cons.mp hup
      have hstep : b.step (.leaf l) = .ok { b with current := b.current.add (.leaf l) } := by
        rw [step, Builder.leaf, checkLabel_eq, hl]
        rfl
      have hlater := ih hrest { b with current := b.current.add (.leaf l) }
      rw [adding_cons] at hlater
      exact hlater.cons hstep
  | @node l inner steps children ns _ _ ihinner ih =>
      obtain ⟨hl, hchildren, hrest⟩ := upright_cons.mp hup
      let opened : Builder :=
        { b with current := { label := l }, enclosing := b.current :: b.enclosing }
      have hopen : b.step (.openNode l) = .ok opened := by
        rw [step, openNode, checkLabel_eq, hl]
        rfl
      have hclose : (opened.adding children).step .close =
          .ok { b with current := b.current.add (.mk l children) } := by
        simp [step, close, adding, opened, OpenNode.close]
      have hlater := ih hrest { b with current := b.current.add (.mk l children) }
      rw [adding_cons] at hlater
      exact ((ihinner hchildren opened).append (hlater.cons hclose)).cons hopen

/-! ### Nothing else builds them -/

/-- Some steps write some trees, none of which has an inverted span. -/
def Spells (steps : List Step) (ns : List Node) : Prop := Writes steps ns ∧ Upright ns

theorem Spells.append {steps more : List Step} {ms ns : List Node} (h : Spells steps ms)
    (hmore : Spells more ns) : Spells (steps ++ more) (ms ++ ns) :=
  ⟨h.1.append hmore.1, upright_append.mpr ⟨h.2, hmore.2⟩⟩

theorem spells_leaf {l : Label} (h : l.inverted? = none) : Spells [.leaf l] [.leaf l] :=
  ⟨.leaf l .nil, upright_cons.mpr ⟨h, upright_nil, upright_nil⟩⟩

theorem Spells.node {l : Label} {steps : List Step} {children : List Node} (hl : l.inverted? = none)
    (h : Spells steps children) : Spells (.openNode l :: steps ++ [.close]) [.mk l children] :=
  ⟨.node l h.1 .nil, upright_cons.mpr ⟨hl, h.2, upright_nil⟩⟩

/-- What steps lead to some open nodes, the innermost first: they opened them one after the other and
wrote the children of each in between. -/
inductive LeadsTo : List Step → List OpenNode → Prop where
  | root {o : OpenNode} {steps : List Step} :
      Spells steps o.children.reverse → LeadsTo steps [o]
  | inside {o : OpenNode} {outer : List OpenNode} {before steps : List Step} :
      o.label.inverted? = none → LeadsTo before outer → Spells steps o.children.reverse →
        LeadsTo (before ++ .openNode o.label :: steps) (o :: outer)

theorem LeadsTo.spells {steps : List Step} {o : OpenNode} (h : LeadsTo steps [o]) :
    Spells steps o.children.reverse := by
  cases h with
  | root hsteps => exact hsteps
  | inside _ hbefore _ => nomatch hbefore

/-- Trees that are written further on become children of the innermost node. -/
theorem LeadsTo.add {steps more : List Step} {o : OpenNode} {outer : List OpenNode} {n : Node}
    (h : LeadsTo steps (o :: outer)) (hmore : Spells more [n]) :
    LeadsTo (steps ++ more) (o.add n :: outer) := by
  have hreverse : (o.add n).children.reverse = o.children.reverse ++ [n] := List.reverse_cons
  cases h with
  | root hsteps =>
      refine .root ?_
      rw [hreverse]
      exact hsteps.append hmore
  | @inside _ _ before inner hl hbefore hinner =>
      rw [List.append_assoc, List.cons_append]
      refine .inside (o := o.add n) hl hbefore ?_
      rw [hreverse]
      exact hinner.append hmore

theorem LeadsTo.step {b b' : Builder} {steps : List Step} {s : Step}
    (h : LeadsTo steps (b.current :: b.enclosing)) (hs : b.step s = .ok b')
    (hlength : s.length? = none) : LeadsTo (steps ++ [s]) (b'.current :: b'.enclosing) := by
  rcases step_cases hs with
    ⟨l, rfl, hl, rfl⟩ | ⟨l, rfl, hl, rfl⟩ | ⟨parent, outer, rfl, hb, rfl⟩ | ⟨n, rfl, rfl⟩
  · exact .inside (o := { label := l }) hl h ⟨.nil, upright_nil⟩
  · exact h.add (spells_leaf hl)
  · -- the node that is closed was opened at some step, and all since then wrote its children
    rw [hb] at h
    cases h with
    | @inside _ _ before inner hl hbefore hinner =>
        rw [List.append_assoc]
        exact hbefore.add (hinner.node hl)
  · cases hlength

/-- Steps that all succeed, without giving a length, lead to the nodes that are then open. -/
theorem leadsTo_of_passes {steps : List Step} {b : Builder} (h : Passes new steps b)
    (hlength : ∀ s ∈ steps, s.length? = none) : LeadsTo steps (b.current :: b.enclosing) := by
  induction steps using List.reverseRecOn generalizing b with
  | nil =>
      cases h
      exact .root ⟨.nil, upright_nil⟩
  | append_singleton steps s ih =>
      rw [Passes, run_concat, List.length_append, ← List.replicate_append_replicate,
        Prod.mk.injEq] at h
      obtain ⟨hlog, rfl⟩ := h
      obtain ⟨hsteps, hs⟩ := List.append_inj hlog (by rw [length_run, List.length_replicate])
      have hpasses : Passes new steps (new.run steps).2 := by
        rw [Passes, ← hsteps]
      have hverdict : (new.run steps).2.verdict s = none := (List.cons.inj hs).1
      exact (ih hpasses fun t ht => hlength t (by simp [ht])).step
        (verdict_eq_none_iff.mp hverdict) (hlength s (by simp))

/-! ### What is built -/

theorem finish_eq_ok {b : Builder} {ns : List Node}
    (h : b.finish = .ok { root := .mk { kind := .unit } ns, sourceLength := none }) :
    b.sourceLength = none ∧ b.enclosing = [] ∧ b.current.children.reverse = ns := by
  unfold finish at h
  cases henclosing : b.enclosing with
  | cons parent outer => rw [henclosing] at h; cases h
  | nil =>
      rw [henclosing] at h
      injection h with h
      injection h with hroot hlength
      injection hroot with _ hchildren
      exact ⟨hlength, rfl, hchildren⟩

/-- **The writings of some trees are the steps that build them.**  Some trees can always be written
down.  If no span in them is inverted, then each step of a writing succeeds, whichever nodes without
children it has as leaves, and the result is a unit without a span and without flags that has exactly
these trees as its children.  And steps that all succeed with such a result are a writing of the
trees. -/
theorem writes_iff_builds (ns : List Node) :
    (∃ steps, Writes steps ns) ∧
    ∀ steps, Writes steps ns ∧ Upright ns ↔
      (new.run steps).1 = List.replicate steps.length none ∧
      (new.run steps).2.finish =
        .ok { root := .mk ⟨.unit, none, .none⟩ ns, sourceLength := none } := by
  refine ⟨⟨_, writes_writtenAll ns⟩, fun steps => ⟨?_, ?_⟩⟩
  · rintro ⟨hwrites, hup⟩
    have hpasses := hwrites.passes hup new
    rw [Passes] at hpasses
    rw [hpasses]
    refine ⟨rfl, ?_⟩
    simp [finish, new, adding, OpenNode.close]
  · rintro ⟨hlog, hfinish⟩
    obtain ⟨hlength, henclosing, hchildren⟩ := finish_eq_ok hfinish
    rw [sourceLength_run, lastLength?, List.getLast?_eq_none_iff, List.filterMap_eq_nil_iff]
      at hlength
    have hleads := leadsTo_of_passes (b := (new.run steps).2) (by rw [Passes, ← hlog]) hlength
    rw [henclosing] at hleads
    rw [← hchildren]
    exact hleads.spells

end Builder

end Highlighting
