/-
Doing the same in two related editors.

Two actions are in step if, begun in related editors, they end in related editors and
in the same way: with values that fit, or broken off for the same reason.  What is
new on the way is linked.  Whether fuel runs out is not compared, since the editor
with more documents may need more of it.

When a surface or a resolver of the document is asked, a pass runs over it, or one of
its changes is delivered, the actions are in step along their text, provided that the
scripts are.
-/
import Highlighting.Proofs.Documents.Changes

namespace Highlighting

open Act EditorM

/-! ### Actions in step -/

/-- Two values that fit, or the same failure. -/
inductive Matches {ε α : Type} (V : α → α → Prop) : Except ε α → Except ε α → Prop where
  | ok {a b : α} (h : V a b) : Matches V (.ok a) (.ok b)
  | error (h : ε) : Matches V (.error h) (.error h)

namespace Matches

variable {ε α : Type} {V W : α → α → Prop} {r r' : Except ε α}

theorem imp (h : Matches V r r') (hV : ∀ a b, V a b → W a b) : Matches W r r' := by
  cases h with
  | ok hab => exact .ok (hV _ _ hab)
  | error h => exact .error h

theorem flip (h : Matches V r r') : Matches (fun a b => V b a) r' r := by
  cases h with
  | ok hab => exact .ok hab
  | error h => exact .error h

end Matches

section

variable (o : Ownership) (d : DocumentId) (ρ : Link) {α : Type} (V : α → α → Prop)

/-- Unless fuel ran out, the editors are related in the end, and the results match. -/
def Agree (c c' : Course Editor Halt α) : Prop :=
  c.result ≠ .error .outOfFuel → c'.result ≠ .error .outOfFuel →
    ∃ ρ', ρ ≤ ρ' ∧ Related o d ρ' c.last c'.last ∧ Matches V c.result c'.result

/-- Begun in related editors, with these links or more, two actions agree. -/
def InStep (x x' : EditorM α) : Prop :=
  ∀ ρ' e f, ρ ≤ ρ' → Related o d ρ' e f → Agree o d ρ' V (x e) (x' f)

end

variable {o : Ownership} {d : DocumentId} {ρ ρ' : Link} {e f : Editor} {α β : Type}
  {V : α → α → Prop} {W : β → β → Prop}

theorem InStep.mono {x x' : EditorM α} (h : InStep o d ρ V x x') (hle : ρ ≤ ρ') :
    InStep o d ρ' V x x' :=
  fun _ _ _ hle' hrel => h _ _ _ (hle.trans hle') hrel

theorem Agree.mono {c c' : Course Editor Halt α} (h : Agree o d ρ' V c c') (hle : ρ ≤ ρ') :
    Agree o d ρ V c c' := by
  intro hfuel hfuel'
  obtain ⟨ρ'', hle', hrel, hmatch⟩ := h hfuel hfuel'
  exact ⟨ρ'', hle.trans hle', hrel, hmatch⟩

theorem inStep_pure {a b : α} (h : V a b) : InStep o d ρ V (pure a) (pure b) :=
  fun ρ' _ _ _ hrel _ _ => ⟨ρ', le_rfl, hrel, .ok h⟩

theorem inStep_halt (h : Halt) : InStep o d ρ V (halt h) (halt h) :=
  fun ρ' _ _ _ hrel _ _ => ⟨ρ', le_rfl, hrel, .error h⟩

theorem inStep_look : InStep o d ρ Eq look look :=
  fun ρ' _ _ _ hrel _ _ => ⟨ρ', le_rfl, hrel, .ok rfl⟩

/-- A change in both after which the editors are still related, maybe with more links. -/
theorem inStep_modify {g g' : Editor → Editor}
    (h : ∀ ρ' e f, ρ ≤ ρ' → Related o d ρ' e f → ∃ ρ'', ρ' ≤ ρ'' ∧ Related o d ρ'' (g e) (g' f)) :
    InStep o d ρ Eq (modify g) (modify g') := by
  intro ρ' e f hle hrel _ _
  obtain ⟨ρ'', hle', hrel'⟩ := h ρ' e f hle hrel
  exact ⟨ρ'', hle', hrel', .ok rfl⟩

theorem inStep_modify_same {g g' : Editor → Editor}
    (h : ∀ ρ' e f, ρ ≤ ρ' → Related o d ρ' e f → Related o d ρ' (g e) (g' f)) :
    InStep o d ρ Eq (modify g) (modify g') :=
  inStep_modify fun ρ' e f hle hrel => ⟨ρ', le_rfl, h ρ' e f hle hrel⟩

theorem inStep_modifyGet {g g' : Editor → α × Editor}
    (h : ∀ ρ' e f, ρ ≤ ρ' → Related o d ρ' e f →
      Related o d ρ' (g e).2 (g' f).2 ∧ (g' f).1 = (g e).1) :
    InStep o d ρ Eq (modifyGet g) (modifyGet g') := by
  intro ρ' e f hle hrel _ _
  obtain ⟨hrel', heq⟩ := h ρ' e f hle hrel
  exact ⟨ρ', le_rfl, hrel', .ok heq.symm⟩

/-- Actions that begin by reading the state. -/
theorem inStep_get_bind {k k' : Editor → EditorM α}
    (h : ∀ ρ' e f, ρ ≤ ρ' → Related o d ρ' e f → InStep o d ρ' V (k e) (k' f)) :
    InStep o d ρ V (get >>= k) (get >>= k') := by
  intro ρ' e f hle hrel
  rw [get_bind_apply, get_bind_apply]
  exact h ρ' e f hle hrel ρ' e f le_rfl hrel

/-- What follows an action that ran out of fuel does not happen. -/
theorem ne_outOfFuel_of_bind {x : EditorM α} {k : α → EditorM β}
    (h : ((x >>= k) e).result ≠ .error .outOfFuel) : (x e).result ≠ .error .outOfFuel := by
  intro hx
  rcases hxe : x e with ⟨seen, r, e'⟩
  rw [hxe] at hx
  rw [bind_of_error (hxe.trans (by rw [show r = _ from hx]))] at h
  exact h rfl

/-- One action after another, the second knowing how the first one ended. -/
theorem Agree.bind {x x' : EditorM α} {k k' : α → EditorM β} (hx : Agree o d ρ V (x e) (x' f))
    (hk : ∀ ρ' seen a b e' f', ρ ≤ ρ' → x e = ⟨seen, .ok a, e'⟩ → V a b → Related o d ρ' e' f' →
      Agree o d ρ' W (k a e') (k' b f')) :
    Agree o d ρ W ((x >>= k) e) ((x' >>= k') f) := by
  intro hfuel hfuel'
  obtain ⟨ρ', hle, hrel, hmatch⟩ := hx (ne_outOfFuel_of_bind hfuel) (ne_outOfFuel_of_bind hfuel')
  rcases hxe : x e with ⟨seen, r, e'⟩
  rcases hxf : x' f with ⟨seen', r', f'⟩
  rw [hxe, hxf] at hrel hmatch
  cases hmatch with
  | error h =>
      rw [bind_of_error hxe, bind_of_error hxf]
      exact ⟨ρ', hle, hrel, .error h⟩
  | ok hab =>
      rw [bind_of_ok hxe] at hfuel ⊢
      rw [bind_of_ok hxf] at hfuel' ⊢
      exact (hk ρ' seen _ _ e' f' hle hxe hab hrel).mono hle hfuel hfuel'

theorem InStep.bind {x x' : EditorM α} {k k' : α → EditorM β} (hx : InStep o d ρ V x x')
    (hk : ∀ a b, V a b → InStep o d ρ W (k a) (k' b)) :
    InStep o d ρ W (x >>= k) (x' >>= k') := by
  intro ρ' e f hle hrel
  refine (hx ρ' e f hle hrel).bind fun ρ'' _ a b e' f' hle' _ hab hrel' => ?_
  exact hk a b hab ρ'' e' f' (hle.trans hle') hrel'

/-- Actions that are tried.  What follows must not go on when fuel ran out. -/
theorem Agree.attempt_bind {x x' : EditorM α} {k k' : Except Halt α → EditorM β}
    (hx : Agree o d ρ V (x e) (x' f))
    (hk : ∀ r r', Matches V r r' → InStep o d ρ W (k r) (k' r'))
    (hstop : ∀ e, (k (.error .outOfFuel) e).result = .error .outOfFuel)
    (hstop' : ∀ e, (k' (.error .outOfFuel) e).result = .error .outOfFuel) :
    Agree o d ρ W ((attempt x >>= k) e) ((attempt x' >>= k') f) := by
  have hbind : ∀ (x : EditorM α) (k : Except Halt α → EditorM β) (e : Editor),
      (attempt x >>= k) e =
        { k (x e).result (x e).last with seen := (x e).seen ++ (k (x e).result (x e).last).seen } :=
    fun x k e => bind_of_ok rfl k
  rw [hbind, hbind]
  intro hfuel hfuel'
  have hne : (x e).result ≠ .error .outOfFuel := by
    intro hr
    rw [hr] at hfuel
    exact hfuel (hstop _)
  have hne' : (x' f).result ≠ .error .outOfFuel := by
    intro hr
    rw [hr] at hfuel'
    exact hfuel' (hstop' _)
  obtain ⟨ρ', hle, hrel, hmatch⟩ := hx hne hne'
  exact (hk _ _ hmatch ρ' _ _ hle hrel).mono hle hfuel hfuel'

theorem InStep.attempt_bind {x x' : EditorM α} {k k' : Except Halt α → EditorM β}
    (hx : InStep o d ρ V x x') (hk : ∀ r r', Matches V r r' → InStep o d ρ W (k r) (k' r'))
    (hstop : ∀ e, (k (.error .outOfFuel) e).result = .error .outOfFuel)
    (hstop' : ∀ e, (k' (.error .outOfFuel) e).result = .error .outOfFuel) :
    InStep o d ρ W (attempt x >>= k) (attempt x' >>= k') := fun ρ' e f hle hrel =>
  (hx ρ' e f hle hrel).attempt_bind (fun r r' hmatch => (hk r r' hmatch).mono hle) hstop hstop'

theorem Agree.ensuring {x x' : EditorM α} {g g' : Editor → Editor}
    (hx : Agree o d ρ V (x e) (x' f))
    (hg : ∀ ρ' e f, ρ ≤ ρ' → Related o d ρ' e f → Related o d ρ' (g e) (g' f)) :
    Agree o d ρ V (ensuring x g e) (ensuring x' g' f) := by
  intro hfuel hfuel'
  obtain ⟨ρ', hle, hrel, hmatch⟩ := hx hfuel hfuel'
  exact ⟨ρ', hle, hg ρ' _ _ hle hrel, hmatch⟩

theorem InStep.ensuring {x x' : EditorM α} {g g' : Editor → Editor} (hx : InStep o d ρ V x x')
    (hg : ∀ ρ' e f, ρ ≤ ρ' → Related o d ρ' e f → Related o d ρ' (g e) (g' f)) :
    InStep o d ρ V (ensuring x g) (ensuring x' g') := fun ρ' e f hle hrel =>
  (hx ρ' e f hle hrel).ensuring fun ρ'' e f hle' hrel => hg ρ'' e f (hle.trans hle') hrel

theorem Agree.catching {x x' : EditorM α} (hx : Agree o d ρ V (x e) (x' f)) :
    Agree o d ρ (Matches V) (EditorM.catching x e) (EditorM.catching x' f) := by
  refine hx.attempt_bind (fun r r' hmatch => ?_) (fun _ => rfl) fun _ => rfl
  cases hmatch with
  | ok h => exact inStep_pure (.ok h)
  | error h =>
      cases h with
      | panic p => exact inStep_pure (.error p)
      | emptyMark | outOfFuel => exact inStep_halt _

theorem InStep.catching {x x' : EditorM α} (hx : InStep o d ρ V x x') :
    InStep o d ρ (Matches V) (EditorM.catching x) (EditorM.catching x') := fun ρ' e f hle hrel =>
  (hx ρ' e f hle hrel).catching

theorem InStep.forM {k k' : α → EditorM Unit} {xs : List α}
    (h : ∀ a ∈ xs, InStep o d ρ Eq (k a) (k' a)) : InStep o d ρ Eq (xs.forM k) (xs.forM k') := by
  induction xs with
  | nil => exact inStep_pure rfl
  | cons a rest ih =>
      rw [List.forall_mem_cons] at h
      change InStep o d ρ Eq (k a >>= fun _ => rest.forM k) (k' a >>= fun _ => rest.forM k')
      exact h.1.bind fun _ _ _ => ih h.2

theorem InStep.mapM {k k' : α → EditorM β} (h : ∀ a, InStep o d ρ Eq (k a) (k' a))
    (xs : List α) : InStep o d ρ Eq (xs.mapM k) (xs.mapM k') := by
  induction xs with
  | nil =>
      rw [List.mapM_nil, List.mapM_nil]
      exact inStep_pure rfl
  | cons a rest ih =>
      rw [List.mapM_cons, List.mapM_cons]
      refine (h a).bind fun b b' hb => ih.bind fun bs bs' hbs => inStep_pure ?_
      rw [hb, hbs]

theorem inStep_log {event event' : Event} (h : event'.deed? d = event.deed? d) :
    InStep o d ρ Eq (EditorM.log event) (EditorM.log event') :=
  inStep_modify_same fun _ _ _ _ hrel => hrel.log h

theorem inStep_work (t t' : Token) (units : UInt32) :
    InStep o d ρ Eq (EditorM.work t units) (EditorM.work t' units) :=
  inStep_modify_same fun _ _ _ _ hrel => hrel.worked t t' units

/-! ### Calls of the surroundings -/

/-- Two ways to carry out scripts are in step on those of the document. -/
def Companions (o : Ownership) (d : DocumentId) (run run' : Script → EditorM Unit) : Prop :=
  ∀ script ρ, scriptActsOn o d script = true → InStep o d ρ Eq (run script) (run' script)

variable {run run' : Script → EditorM Unit}

theorem askSurface_inStep (hrun : Companions o d run run') {i j : Nat} (hij : ρ .surface i j) :
    InStep o d ρ Eq (askSurface run i d) (askSurface run' j d) := by
  refine inStep_get_bind fun ρ' e f hle hrel => ?_
  obtain ⟨heq, hacts⟩ := hrel.parts .surface i j (hle _ _ _ hij)
  rw [heq]
  cases hs : e.surfaces[i]? with
  | none => exact inStep_pure rfl
  | some s =>
      dsimp only
      split
      · exact inStep_pure rfl
      · have hscript := hrun _ ρ' (scriptActsOn_headD (hacts s hs).1)
        refine (inStep_log rfl).bind fun _ _ _ => ?_
        refine (inStep_modify_same fun ρ'' e f hle' hrel =>
          hrel.modifySurface (hle' _ _ _ (hle _ _ _ hij)) fun _ h => h.nextLive).bind
            fun _ _ _ => ?_
        refine hscript.bind fun _ _ _ => inStep_get_bind fun ρ'' e f hle' hrel => ?_
        rw [(hrel.parts .surface i j (hle' _ _ _ (hle _ _ _ hij))).1]
        exact inStep_pure rfl

theorem isLive_inStep (hrun : Companions o d run run') {t u : Target} (htu : t.Like d ρ u) :
    InStep o d ρ Eq (isLive run t) (isLive run' u) := by
  refine inStep_get_bind fun ρ' e f hle hrel => ?_
  rw [hrel.isTornDown (htu.mono hle), htu.doc, htu.doc']
  split
  · exact inStep_pure rfl
  · exact (askSurface_inStep hrun htu.surface).mono hle

theorem applyJob_inStep (hrun : Companions o d run run') {j k : Job} (hjk : j.Like d ρ k) :
    InStep o d ρ Eq (applyJob run j) (applyJob run' k) := by
  refine inStep_get_bind fun ρ' e f hle hrel => ?_
  have hij := hle _ _ _ hjk.target.surface
  obtain ⟨heq, hacts⟩ := hrel.parts .surface _ _ hij
  rw [heq]
  cases hs : e.surfaces[j.target.surface]? with
  | none => exact inStep_pure rfl
  | some s =>
      have hdeed : (Event.applied s.name k).deed? d = (Event.applied s.name j).deed? d := by
        simp [Event.deed?, hjk.target.doc, hjk.target.doc', hjk.delta]
      refine (inStep_log hdeed).bind fun _ _ _ => ?_
      refine (inStep_modify_same fun ρ'' e f hle' hrel =>
        hrel.modifySurface (hle' _ _ _ hij) fun _ h => h.nextApply).bind fun _ _ _ => ?_
      exact hrun _ ρ' (scriptActsOn_headD (hacts s hs).2)

theorem resolveStyle_inStep (hrun : Companions o d run run') {i j : Nat} (hij : ρ .resolver i j)
    (kind : Kind) : InStep o d ρ Eq (resolveStyle run i kind) (resolveStyle run' j kind) := by
  refine inStep_get_bind fun ρ' e f hle hrel => ?_
  obtain ⟨heq, hacts⟩ := hrel.parts .resolver i j (hle _ _ _ hij)
  rw [heq]
  cases hr : e.resolvers[i]? with
  | none => exact inStep_pure rfl
  | some r =>
      have hnext : ∀ r : Resolver, r.actsOn o d → r.next.actsOn o d :=
        fun _ h => scriptsActOn_tail h
      have hcall : InStep o d ρ' Eq (Act.modify (·.modifyResolver i Resolver.next))
          (Act.modify (·.modifyResolver j Resolver.next)) :=
        inStep_modify_same fun ρ'' e f hle' hrel =>
          hrel.modifyResolver (hle' _ _ _ (hle _ _ _ hij)) hnext
      dsimp only
      split
      · refine (inStep_log rfl).bind fun _ _ _ => hcall.bind fun _ _ _ => ?_
        exact (hrun _ ρ' (scriptActsOn_headD (hacts r hr))).bind fun _ _ _ => inStep_pure rfl
      · exact hcall.bind fun _ _ _ => inStep_pure rfl

/-! ### Passes -/

theorem wantedHighlights_inStep (hrun : Companions o d run run') {i j : Nat}
    (hij : ρ .resolver i j) (tree : SyntaxTree) :
    InStep o d ρ Eq (wantedHighlights run i tree) (wantedHighlights run' j tree) := by
  refine inStep_get_bind fun ρ' e f hle hrel => ?_
  rw [hrel.policy]
  refine InStep.mapM (fun m => ?_) _
  refine ((resolveStyle_inStep hrun hij m.kind).mono hle).bind fun style style' hstyle => ?_
  exact inStep_pure (by rw [hstyle])

theorem Related.isInterrupted (h : Related o d ρ e f) {token token' : Token}
    (htoken : token.Like ρ token') {t u : Target} (htu : t.Like d ρ u) :
    f.isInterrupted token' u = e.isInterrupted token t := by
  rw [Editor.isInterrupted, Editor.isInterrupted, h.isCancelled htoken, h.isTornDown htu]

theorem Related.gateValue (h : Related o d ρ e f) {i j : Nat} (hij : ρ .slot i j) :
    f.gateValue j = e.gateValue i := by
  have hslots : Option.Rel (Slot.Like d ρ) e.slots[i]? f.slots[j]? := h.parts .slot i j hij
  unfold Editor.gateValue
  generalize e.slots[i]? = s at hslots ⊢
  generalize f.slots[j]? = t at hslots ⊢
  cases hslots with
  | none => rfl
  | some hst => exact congrArg Gate.value hst.gate

theorem Related.publish (h : Related o d ρ e f) {i j : Nat} (hij : ρ .slot i j) {t u : Target}
    (htu : t.Like d ρ u) (wanted : List Highlight) (delta : Delta) (next : List Highlight) :
    Related o d ρ (e.publish i t wanted delta next).2 (f.publish j u wanted delta next).2 ∧
      (f.publish j u wanted delta next).1 = (e.publish i t wanted delta next).1 := by
  have hset : Related o d ρ
      (e.modifySlot i fun s => { s with gate := s.gate.set next, snapshot := next })
      (f.modifySlot j fun s => { s with gate := s.gate.set next, snapshot := next }) :=
    h.modifySlot hij fun s t hst =>
      ⟨hst.target, hst.resolver, congrArg (Gate.set · next) hst.gate, rfl⟩
  have hsettled := hset.log
    (show (Event.settled j wanted).deed? d = (Event.settled i wanted).deed? d from rfl)
  unfold Editor.publish
  split
  · exact ⟨hsettled, rfl⟩
  · exact ⟨hsettled.dispatch ⟨htu, rfl⟩, rfl⟩

/-- Stopping a pass that was interrupted is in step if going on is. -/
theorem inStep_unlessInterrupted {token token' : Token} (htoken : token.Like ρ token')
    {t u : Target} (htu : t.Like d ρ u) {outcome : Outcome} {x x' : EditorM Outcome}
    (h : InStep o d ρ Eq x x') :
    InStep o d ρ Eq (do if (← Act.get).isInterrupted token t then return outcome else x)
      (do if (← Act.get).isInterrupted token' u then return outcome else x') := by
  refine inStep_get_bind fun ρ' e f hle hrel => ?_
  rw [hrel.isInterrupted (htoken.mono hle) (htu.mono hle)]
  split
  · exact inStep_pure rfl
  · exact h.mono hle

theorem reconcileWith_inStep (hrun : Companions o d run run') {i j : Nat} (hij : ρ .slot i j)
    {t u : Target} (htu : t.Like d ρ u) {token token' : Token} (htoken : token.Like ρ token')
    (wanted : List Highlight) :
    InStep o d ρ Eq (reconcileWith run i t token wanted)
      (reconcileWith run' j u token' wanted) := by
  unfold reconcileWith
  refine (inStep_work _ _ _).bind fun _ _ _ => ?_
  refine inStep_unlessInterrupted htoken htu ?_
  refine inStep_get_bind fun ρ' e f hle hrel => ?_
  replace hij := hle _ _ _ hij
  replace htu := htu.mono hle
  replace htoken := htoken.mono hle
  rw [hrel.gateValue hij]
  refine (inStep_work _ _ _).bind fun _ _ _ => ?_
  refine inStep_unlessInterrupted htoken htu ?_
  refine (inStep_work _ _ _).bind fun _ _ _ => ?_
  refine inStep_unlessInterrupted htoken htu ?_
  refine (isLive_inStep hrun htu).bind fun live live' hlive => ?_
  subst hlive
  split
  · exact inStep_pure rfl
  refine inStep_unlessInterrupted htoken htu ?_
  refine (inStep_modifyGet fun ρ'' e f hle' hrel =>
    hrel.publish (hle' _ _ _ hij) (htu.mono hle') _ _ _).bind fun outcome outcome' houtcome => ?_
  exact (inStep_work _ _ _).bind fun _ _ _ => inStep_pure houtcome

theorem passInside_inStep (hrun : Companions o d run run') {i j : Nat} (hij : ρ .slot i j)
    {s t : Slot} (hst : s.Like d ρ t) {r r' : Request} (htree : r'.tree = r.tree)
    (htoken : r.token.Like ρ r'.token) :
    InStep o d ρ Eq (passInside run i s r) (passInside run' j t r') := by
  unfold passInside
  rw [htree]
  refine (inStep_work _ _ _).bind fun _ _ _ => ?_
  refine (wantedHighlights_inStep hrun hst.resolver r.tree).catching.bind fun x x' hmatch => ?_
  cases hmatch with
  | error p => exact inStep_pure rfl
  | ok hwanted =>
      rw [hwanted]
      exact reconcileWith_inStep hrun hij hst.target htoken _

theorem Related.enterGate (h : Related o d ρ e f) {i j : Nat} (hij : ρ .slot i j)
    (inside : Gate (List Highlight)) :
    Related o d ρ (e.enterGate i inside) (f.enterGate j inside) := by
  have hset : Related o d ρ (e.modifySlot i fun s => { s with gate := inside })
      (f.modifySlot j fun s => { s with gate := inside }) :=
    h.modifySlot hij fun s t hst => ⟨hst.target, hst.resolver, rfl, hst.snapshot⟩
  exact hset.log rfl

theorem Related.leaveGate (h : Related o d ρ e f) {i j : Nat} (hij : ρ .slot i j) :
    Related o d ρ (e.leaveGate i) (f.leaveGate j) :=
  h.modifySlot hij fun _ _ hst =>
    ⟨hst.target, hst.resolver, congrArg Gate.leave hst.gate, hst.snapshot⟩

/-- A pass over the document is in step. -/
theorem reconcile_inStep (hrun : Companions o d run run') {r r' : Request} (hdoc : r.doc = d)
    (hdoc' : r'.doc = d) (htree : r'.tree = r.tree) (htoken : r.token.Like ρ r'.token) :
    InStep o d ρ Eq (reconcile run r) (reconcile run' r') := by
  unfold reconcile
  rw [hdoc, hdoc']
  refine inStep_get_bind fun ρ' e f hle hrel => ?_
  have hslot := hrel.slot?
  generalize e.slot? d = x at hslot ⊢
  generalize f.slot? d = y at hslot ⊢
  have hrecord : ∀ slot slot' outcome, InStep o d ρ' Eq
      (do Act.modify (·.recordPass slot r outcome); return outcome : EditorM Outcome)
      (do Act.modify (·.recordPass slot' r' outcome); return outcome) := fun slot slot' outcome =>
    (inStep_modify_same fun _ _ _ _ hrel => hrel.recordPass slot slot' hdoc hdoc' outcome).bind
      fun _ _ _ => inStep_pure rfl
  cases hslot with
  | none => exact hrecord _ _ _
  | @some a b hab =>
      obtain ⟨i, s⟩ := a
      obtain ⟨j, t⟩ := b
      obtain ⟨hij, hst⟩ := hab
      dsimp only at hij hst ⊢
      rw [hst.gate]
      split
      · exact hrecord _ _ _
      · rename_i inside _
        have hpass := (passInside_inStep hrun hij hst htree (htoken.mono hle)).ensuring
          fun ρ'' e f hle' hrel => hrel.leaveGate (hle' _ _ _ hij)
        refine (inStep_modify_same fun ρ'' e f hle' hrel =>
          hrel.enterGate (hle' _ _ _ hij) inside).bind fun _ _ _ => ?_
        refine hpass.attempt_bind (fun result result' hmatch => ?_) (fun _ => rfl) fun _ => rfl
        cases hmatch with
        | ok houtcome =>
            subst houtcome
            exact hrecord _ _ _
        | error h =>
            cases h with
            | panic p =>
                have hdeed : (Event.unwound j r').deed? d = (Event.unwound i r).deed? d := by
                  simp [Event.deed?, hdoc, hdoc']
                exact (inStep_log hdeed).bind fun _ _ _ => inStep_halt _
            | emptyMark | outOfFuel => exact inStep_halt _

/-! ### Changes -/

/-- Delivering a change of the document is in step. -/
theorem deliver_inStep (hrun : Companions o d run run') {j k : Job} (hjk : j.Like d ρ k) :
    InStep o d ρ Eq (deliver run j) (deliver run' k) := by
  have hdiscarded : InStep o d ρ Eq (EditorM.log (.discarded j)) (EditorM.log (.discarded k)) :=
    inStep_log rfl
  have hlost : InStep o d ρ Eq (EditorM.log (.lost j)) (EditorM.log (.lost k)) := inStep_log rfl
  refine (isLive_inStep hrun hjk.target).attempt_bind (fun result result' hmatch => ?_)
    (fun _ => rfl) fun _ => rfl
  cases hmatch with
  | @ok live live' hlive =>
      subst hlive
      cases live with
      | true => exact (applyJob_inStep hrun hjk).catching.bind fun _ _ _ => inStep_pure rfl
      | false => exact hdiscarded.bind fun _ _ _ => inStep_pure rfl
  | error h => exact hlost.bind fun _ _ _ => inStep_halt h

end Highlighting
