/-
Fuel always suffices.

Scripts run inside commands that run inside scripts, and a queue may grow while it
is drained, so the definitions carry fuel.  What is needed of it is bounded by what
is left to do: the commands in the scripts of the surroundings, each of which is
carried out at most once, and the jobs in the queue.  A command is used up when it
is carried out; all it can leave behind is the commands of its own scripts, if it
declares a surface or installs a document, and at most one job.  A callback takes
its script off the surface or resolver before it runs it.  So the load never grows
beyond what the commands at hand weigh, every level down has used up at least one
command, and every turn of the queue uses up a job.
-/
import Highlighting.Proofs.Editor.Pass
import Highlighting.Editor.Session
import Mathlib

namespace Highlighting

open Act EditorM

/-! ### What is left to do -/

def Surface.load (s : Surface) : Nat := weightOfScripts s.onLive + weightOfScripts s.onApply

def Resolver.load (r : Resolver) : Nat := weightOfScripts r.onResolve

/-- What is left to do: the commands of the surroundings' scripts, and the jobs in the queue. -/
def Editor.load (e : Editor) : Nat :=
  (e.surfaces.map Surface.load).sum + (e.resolvers.map Resolver.load).sum + e.queue.jobs.length

theorem Command.weight_pos (c : Command) : 0 < c.weight := by
  cases c <;> simp only [Command.weight] <;> omega

theorem weightOfScript_eq_sum (script : Script) :
    weightOfScript script = (script.map Command.weight).sum := by
  induction script with
  | nil => rfl
  | cons c rest ih => rw [weightOfScript, ih, List.map_cons, List.sum_cons]

theorem weight_headD_tail (scripts : List Script) :
    weightOfScript (scripts.headD []) + weightOfScripts scripts.tail = weightOfScripts scripts := by
  cases scripts with
  | nil => simp [weightOfScript, weightOfScripts]
  | cons s rest => simp [weightOfScripts]

/-- Changing one entry changes a sum by what that entry is worth. -/
theorem sum_map_modify {α : Type} (g : α → Nat) {f : α → α} {l : List α} {i : Nat} {a : α}
    (h : l[i]? = some a) : ((l.modify i f).map g).sum + g a = (l.map g).sum + g (f a) := by
  induction l generalizing i with
  | nil => simp at h
  | cons b l ih =>
      cases i with
      | zero =>
          cases h
          simp only [List.modify_zero_cons, List.map_cons, List.sum_cons]
          omega
      | succ i =>
          have := ih (i := i) h
          simp only [List.modify_succ_cons, List.map_cons, List.sum_cons]
          omega

namespace Editor

@[simp] theorem load_log (e : Editor) (event : Event) : (e.log event).load = e.load := rfl

@[simp] theorem load_worked (e : Editor) (t : Token) (units : UInt32) :
    (e.worked t units).load = e.load := rfl

@[simp] theorem load_leaveGate (e : Editor) (id : Nat) : (e.leaveGate id).load = e.load := rfl

@[simp] theorem load_enterGate (e : Editor) (id : Nat) (inside : Gate (List Highlight)) :
    (e.enterGate id inside).load = e.load := rfl

@[simp] theorem load_recordPass (e : Editor) (slot : Option Nat) (r : Request) (o : Outcome) :
    (e.recordPass slot r o).load = e.load := rfl

@[simp] theorem load_keep (e : Editor) (k : Keeper) : (e.keep k).load = e.load := rfl

theorem load_dispatch_le (e : Editor) (j : Job) : (e.dispatch j).load ≤ e.load + 1 := by
  unfold dispatch
  by_cases h : e.queue.isClosed = true
  · rw [if_pos h]
    omega
  · rw [if_neg h]
    simp only [load, RenderQueue.push, log, List.length_append, List.length_singleton]
    omega

theorem load_publish_le (e : Editor) (id : Nat) (t : Target) (wanted : List Highlight) (d : Delta)
    (next : List Highlight) : (e.publish id t wanted d next).2.load ≤ e.load + 1 := by
  unfold publish
  by_cases h : d.isEmpty = true
  · rw [if_pos h]
    exact Nat.le_succ e.load
  · rw [if_neg h]
    exact load_dispatch_le _ _

theorem load_tearDown (e : Editor) (id : Nat) : (e.tearDown id).load = e.load := by
  unfold tearDown
  split <;> rfl

theorem load_install (e : Editor) (doc : DocumentId) (surface : Nat) (r : Resolver) :
    (e.install doc surface r).load = e.load + r.load := by
  have hadd : (e.addSlot doc surface r).load = e.load + r.load := by
    simp only [load, addSlot, List.map_append, List.sum_append, List.map_cons, List.map_nil,
      List.sum_cons, List.sum_nil]
    omega
  unfold install
  split
  · rw [load_tearDown, hadd]
  · exact hadd

theorem load_uninstall (e : Editor) (doc : DocumentId) : (e.uninstall doc).2.load = e.load := by
  unfold uninstall
  split
  · rw [load_tearDown]
    rfl
  · rfl

theorem load_declareSurface (e : Editor) (name : String) (s : Surface) :
    (e.declareSurface name s).load = e.load + s.load := by
  simp only [load, declareSurface, List.map_append, List.sum_append, List.map_cons, List.map_nil,
    List.sum_cons, List.sum_nil]
  omega

theorem load_modifySurface (e : Editor) {id : Nat} {f : Surface → Surface} {s : Surface}
    (h : e.surfaces[id]? = some s) :
    (e.modifySurface id f).load + s.load = e.load + (f s).load := by
  have hsum := sum_map_modify Surface.load (f := f) h
  simp only [load, modifySurface]
  omega

theorem load_modifyResolver (e : Editor) {id : Nat} {f : Resolver → Resolver} {r : Resolver}
    (h : e.resolvers[id]? = some r) :
    (e.modifyResolver id f).load + r.load = e.load + (f r).load := by
  have hsum := sum_map_modify Resolver.load (f := f) h
  simp only [load, modifyResolver]
  omega

theorem load_setDisposed (e : Editor) (id : Nat) (b : Bool) :
    (e.setDisposed id b).load = e.load := by
  cases h : e.surfaces[id]? with
  | none =>
      have hsame : e.surfaces.modify id (fun s => { s with disposed := b }) = e.surfaces :=
        List.modify_eq_self (List.getElem?_eq_none_iff.mp h)
      rw [setDisposed, modifySurface, hsame]
  | some s =>
      have hload := e.load_modifySurface (f := fun s => { s with disposed := b }) h
      exact Nat.add_right_cancel hload

theorem load_take (e : Editor) {j : Job} {rest : List Job} (h : e.queue.jobs = j :: rest) :
    (e.take j rest).load + 1 = e.load := by
  simp only [load, take, log, h, List.length_cons]
  omega

end Editor

/-! ### Actions within a bound -/

/-- Begun in `e`, the action does not run out of fuel, and leaves no more than `n` to do. -/
def Spends {α : Type} (x : EditorM α) (e : Editor) (n : Nat) : Prop :=
  Ensures x e (fun _ => True) fun r e' => r ≠ .error .outOfFuel ∧ e'.load ≤ n

section Spends

variable {α β : Type} {x : EditorM α} {e : Editor} {k n : Nat}

theorem Spends.mono (h : Spends x e k) (hle : k ≤ n) : Spends x e n :=
  Ensures.mono h (fun _ hm => hm) fun _ _ hr => ⟨hr.1, Nat.le_trans hr.2 hle⟩

theorem spends_pure {a : α} (h : e.load ≤ n) : Spends (pure a : EditorM α) e n := by
  rw [Spends, ensures_pure]
  exact ⟨by simp, h⟩

theorem spends_halt {h : Halt} (hh : h ≠ .outOfFuel) (hn : e.load ≤ n) :
    Spends (Act.halt h : EditorM α) e n := by
  rw [Spends, ensures_halt]
  exact ⟨by simpa using hh, hn⟩

theorem Spends.bind {f : α → EditorM β} (hx : Spends x e k) (hk : k ≤ n)
    (hf : ∀ a e', e'.load ≤ k → Spends (f a) e' n) : Spends (x >>= f) e n := by
  rw [Spends, ensures_bind]
  refine Ensures.mono hx (fun _ hm => hm) fun r e' hr => ?_
  cases r with
  | error h => exact ⟨by simpa using hr.1, Nat.le_trans hr.2 hk⟩
  | ok a => exact hf a e' hr.2

theorem Spends.get_bind {f : Editor → EditorM α} (h : Spends (f e) e n) :
    Spends (Act.get >>= f) e n := by
  rw [Spends, ensures_bind, ensures_get, next_ok]
  exact h

theorem Spends.modify_bind {g : Editor → Editor} {f : Unit → EditorM α}
    (h : Spends (f ()) (g e) n) : Spends (Act.modify g >>= f) e n := by
  rw [Spends, ensures_bind, ensures_modify, next_ok]
  exact h

theorem Spends.catching (h : Spends x e n) : Spends (catching x) e n := by
  rw [Spends, ensures_catching]
  refine Ensures.mono h (fun _ hm => hm) fun r e' hr => ?_
  match r with
  | .ok _ | .error (.panic _) => exact ⟨by simp, hr.2⟩
  | .error (.emptyMark _) => exact ⟨by simp, hr.2⟩
  | .error .outOfFuel => exact absurd rfl hr.1

theorem Spends.mapM {f : α → EditorM β} (hf : ∀ a e, e.load ≤ n → Spends (f a) e n)
    (xs : List α) : ∀ e : Editor, e.load ≤ n → Spends (xs.mapM f) e n := by
  induction xs with
  | nil =>
      intro e he
      rw [List.mapM_nil]
      exact spends_pure he
  | cons a rest ih =>
      intro e he
      rw [List.mapM_cons]
      refine (hf a e he).bind (Nat.le_refl n) fun b e' he' => ?_
      exact (ih e' he').bind (Nat.le_refl n) fun bs e'' he'' => spends_pure he''

/-- One action after the other, each with a weight of its own. -/
theorem Spends.forM {f : α → EditorM Unit} {w : α → Nat}
    (hf : ∀ a e, e.load + w a ≤ n → Spends (f a) e (e.load + w a)) (xs : List α) :
    ∀ e : Editor, e.load + (xs.map w).sum ≤ n →
      Spends (xs.forM f) e (e.load + (xs.map w).sum) := by
  induction xs with
  | nil => exact fun e _ => spends_pure (Nat.le_refl _)
  | cons a rest ih =>
      intro e he
      simp only [List.map_cons, List.sum_cons] at he ⊢
      change Spends (f a >>= fun _ => rest.forM f) e _
      refine (hf a e (by omega)).bind (by omega) fun _ e' he' => ?_
      exact (ih e' (by omega)).mono (by omega)

end Spends

/-! ### Callbacks -/

/-- Scripts do not run out of fuel where there is no more than `fuel` to do. -/
def Fueled (fuel : Nat) (run : Script → EditorM Unit) : Prop :=
  ∀ script e, e.load + weightOfScript script ≤ fuel →
    Spends (run script) e (e.load + weightOfScript script)

section Callbacks

variable {run : Script → EditorM Unit} {fuel : Nat} {e : Editor}

/-- A surface or a resolver is called: its next script was taken off it, and runs. -/
theorem Fueled.call {α : Type} (hrun : Fueled fuel run) {called : Editor} {script : Script}
    {n : Nat} {k : Unit → EditorM α} (hscript : called.load + weightOfScript script ≤ n) (hn : n ≤ fuel)
    (hk : ∀ e', e'.load ≤ n → Spends (k ()) e' n) : Spends (run script >>= k) called n :=
  (hrun script called (Nat.le_trans hscript hn)).bind hscript fun _ e' he' =>
    hk e' (Nat.le_trans he' hscript)

theorem askSurface_spends (hrun : Fueled fuel run) (he : e.load ≤ fuel) (id : Nat)
    (doc : DocumentId) : Spends (askSurface run id doc) e e.load := by
  refine Spends.get_bind ?_
  cases hs : e.surfaces[id]? with
  | none => exact spends_pure (Nat.le_refl _)
  | some s =>
      by_cases halways : s.alwaysLive = true
      · simp only [halways, if_true]
        exact spends_pure (Nat.le_refl _)
      · simp only [halways]
        refine Spends.modify_bind (Spends.modify_bind (hrun.call ?_ he fun e' he' => ?_))
        · have hload := (e.log (.asked s.name doc)).load_modifySurface (f := Surface.nextLive) hs
          have hscripts := weight_headD_tail s.onLive
          simp only [Surface.load, Surface.nextLive, Editor.load_log] at hload ⊢
          omega
        · exact Spends.get_bind (spends_pure he')

theorem isLive_spends (hrun : Fueled fuel run) (he : e.load ≤ fuel) (t : Target) :
    Spends (isLive run t) e e.load := by
  refine Spends.get_bind ?_
  by_cases htorn : e.isTornDown t = true
  · simp only [htorn, if_true]
    exact spends_pure (Nat.le_refl _)
  · simp only [htorn]
    exact askSurface_spends hrun he t.surface t.doc

theorem applyJob_spends (hrun : Fueled fuel run) (he : e.load ≤ fuel) (j : Job) :
    Spends (applyJob run j) e e.load := by
  refine Spends.get_bind ?_
  cases hs : e.surfaces[j.target.surface]? with
  | none => exact spends_pure (Nat.le_refl _)
  | some s =>
      refine Spends.modify_bind (Spends.modify_bind ?_)
      have hload := (e.log (.applied s.name j)).load_modifySurface (f := Surface.nextApply) hs
      have hscripts := weight_headD_tail s.onApply
      simp only [Surface.load, Surface.nextApply, Editor.load_log] at hload
      refine (hrun _ _ ?_).mono ?_
      · exact Nat.le_trans (by omega) he
      · omega

theorem resolveStyle_spends (hrun : Fueled fuel run) (he : e.load ≤ fuel) (id : Nat)
    (kind : Kind) : Spends (resolveStyle run id kind) e e.load := by
  refine Spends.get_bind ?_
  cases hr : e.resolvers[id]? with
  | none => exact spends_pure (Nat.le_refl _)
  | some r =>
      have hload := e.load_modifyResolver (f := Resolver.next) hr
      have hscripts := weight_headD_tail r.onResolve
      simp only [Resolver.load, Resolver.next] at hload
      by_cases hscripted : r.scripted = true
      · simp only [hscripted, if_true]
        refine Spends.modify_bind (Spends.modify_bind (hrun.call ?_ he fun e' he' => ?_))
        · change (e.modifyResolver id Resolver.next).load + _ ≤ _
          omega
        · exact spends_pure he'
      · simp only [hscripted]
        exact Spends.modify_bind (spends_pure (by omega))

end Callbacks

/-! ### Passes and turns -/

section Passes

variable {run : Script → EditorM Unit} {fuel : Nat} {e : Editor}

theorem wantedHighlights_spends (hrun : Fueled fuel run) (he : e.load ≤ fuel) (id : Nat)
    (tree : SyntaxTree) : Spends (wantedHighlights run id tree) e e.load := by
  refine Spends.get_bind (Spends.mapM (fun m e' he' => ?_) _ e (Nat.le_refl _))
  refine ((resolveStyle_spends hrun (Nat.le_trans he' he) id m.kind).mono he').bind
    (Nat.le_refl _) fun _ e'' he'' => spends_pure he''

theorem reconcileWith_spends (hrun : Fueled fuel run) (he : e.load ≤ fuel) (id : Nat) (t : Target)
    (token : Token) (wanted : List Highlight) :
    Spends (reconcileWith run id t token wanted) e (e.load + 1) := by
  have hstop : ∀ (o : Outcome) (e' : Editor), e'.load ≤ e.load →
      Spends (pure o : EditorM Outcome) e' (e.load + 1) := fun o e' he' => spends_pure (by omega)
  unfold reconcileWith EditorM.work
  refine Spends.modify_bind (Spends.get_bind ?_)
  split
  · exact hstop _ _ (Nat.le_refl _)
  refine Spends.get_bind (Spends.modify_bind (Spends.get_bind ?_))
  split
  · exact hstop _ _ (Nat.le_refl _)
  refine Spends.modify_bind (Spends.get_bind ?_)
  split
  · exact hstop _ _ (Nat.le_refl _)
  let compared := ((e.worked token unitsClassify).worked token unitsSnapshot).worked token unitsDiff
  have hasked : Spends (isLive run t) compared e.load := isLive_spends (e := compared) hrun he t
  refine hasked.bind (Nat.le_succ _) fun live e' he' => ?_
  split
  · exact hstop _ _ he'
  refine Spends.get_bind ?_
  split
  · exact hstop _ _ he'
  -- at most one job is new
  have hpublish := fun d next => e'.load_publish_le id t wanted d next
  rw [Spends, ensures_bind, ensures_modifyGet, next_ok, ensures_bind, ensures_modify, next_ok,
    ensures_pure]
  refine ⟨by simp, ?_⟩
  rw [Editor.load_worked]
  exact Nat.le_trans (hpublish _ _) (Nat.succ_le_succ he')

theorem passInside_spends (hrun : Fueled fuel run) (he : e.load ≤ fuel) (id : Nat) (s : Slot)
    (r : Request) : Spends (passInside run id s r) e (e.load + 1) := by
  unfold passInside EditorM.work
  refine Spends.modify_bind ?_
  refine (wantedHighlights_spends hrun (by exact he) s.resolver r.tree).catching.bind
    (Nat.le_succ _) fun result e' he' => ?_
  cases result with
  | error p => exact spends_pure (Nat.le_succ_of_le he')
  | ok wanted =>
      exact (reconcileWith_spends hrun (Nat.le_trans he' he) id s.target r.token wanted).mono
        (Nat.succ_le_succ he')

/-- Leaving the gate and recording how a pass ended leaves nothing more to do. -/
theorem closePass_spends {id : Nat} {r : Request} {inside : Course Editor Halt Outcome} {n : Nat}
    (hresult : inside.result ≠ .error .outOfFuel) (hload : inside.last.load ≤ n) :
    (closePass id r inside).result ≠ .error .outOfFuel ∧ (closePass id r inside).last.load ≤ n := by
  match inside with
  | ⟨_, .ok _, _⟩ | ⟨_, .error (.panic _), _⟩ | ⟨_, .error (.emptyMark _), _⟩ =>
    exact ⟨by simp [closePass], hload⟩
  | ⟨_, .error .outOfFuel, _⟩ => exact absurd rfl hresult

theorem reconcile_spends (hrun : Fueled fuel run) (he : e.load ≤ fuel) (r : Request) :
    Spends (reconcile run r) e (e.load + 1) := by
  refine ⟨fun _ _ => trivial, ?_⟩
  rcases hslot : e.slot? r.doc with _ | ⟨id, s⟩
  · rw [reconcile_of_none hslot]
    exact ⟨by simp, Nat.le_succ _⟩
  · cases hgate : s.gate.busy with
    | true =>
        rw [reconcile_of_busy hslot hgate]
        exact ⟨by simp, Nat.le_succ _⟩
    | false =>
        rw [reconcile_of_free hslot hgate]
        have hinside := passInside_spends (e := e.enterGate id s.entered.gate) hrun he id s r
        exact closePass_spends hinside.2.1 hinside.2.2

theorem deliver_spends (hrun : Fueled fuel run) (he : e.load ≤ fuel) (j : Job) :
    Spends (deliver run j) e e.load := by
  unfold deliver
  rw [Spends, ensures_bind, ensures_attempt]
  refine Ensures.mono (isLive_spends hrun he j.target) (fun _ hm => hm) fun result e' hasked => ?_
  obtain ⟨hresult, hload⟩ := hasked
  rw [next_ok]
  match result with
  | .ok true =>
    exact ((applyJob_spends hrun (Nat.le_trans hload he) j).catching.mono hload).bind
      (Nat.le_refl _) fun _ e'' he'' => spends_pure he''
  | .ok false => exact Spends.modify_bind (spends_pure hload)
  | .error halted =>
    exact Spends.modify_bind (spends_halt (by simpa using hresult) hload)

/-- Every turn uses up a job, so there are no more turns than there is to do. -/
theorem renderAll_spends (hrun : Fueled fuel run) (turns : Nat) :
    ∀ {e : Editor} (report : RenderReport), e.load ≤ turns → e.load ≤ fuel →
      Spends (renderAll run turns report) e e.load := by
  induction turns with
  | zero =>
      intro e report hturns _
      unfold renderAll
      refine Spends.get_bind ?_
      cases hq : e.queue.jobs with
      | nil => exact spends_pure (Nat.le_refl _)
      | cons j rest =>
          have := e.load_take hq
          omega
  | succ turns ih =>
      intro e report hturns he
      unfold renderAll
      refine Spends.get_bind ?_
      cases hq : e.queue.jobs with
      | nil => exact spends_pure (Nat.le_refl _)
      | cons j rest =>
          have htake := e.load_take hq
          refine Spends.modify_bind ?_
          refine (deliver_spends hrun (by omega) j).bind (by omega) fun r e' he' => ?_
          exact (ih _ (by omega) (by omega)).mono (by omega)

theorem renderAnswer_spends {x : EditorM RenderReport} {n : Nat} (h : Spends x e n) :
    Spends (renderAnswer x) e n := by
  refine h.catching.bind (Nat.le_refl n) fun result e' he' => ?_
  cases result <;> exact spends_pure he'

theorem drainQueue_spends (hrun : Fueled fuel run) (he : e.load ≤ fuel) :
    Spends (drainQueue run fuel) e e.load := by
  refine Spends.get_bind ?_
  split
  · refine Spends.modify_bind (renderAnswer_spends ?_)
    rw [Spends, ensures_ensuring]
    exact renderAll_spends (e := e.keep .draining) hrun fuel {} he he
  · exact spends_pure (Nat.le_refl _)

theorem finishQueue_spends (hrun : Fueled fuel run) (he : e.load ≤ fuel) :
    Spends (finishQueue run fuel) e e.load := by
  have hrender : Spends (renderAnswer (ensuring (renderAll run fuel {}) fun e =>
      { e with queue := .dropped })) ({ e with coordinating := false }.keep .draining) e.load := by
    have hall : Spends (renderAll run fuel {})
        ({ e with coordinating := false }.keep .draining) e.load :=
      renderAll_spends hrun fuel {} he he
    refine renderAnswer_spends ?_
    rw [Spends, ensures_ensuring]
    refine Ensures.mono hall (fun _ hm => hm) fun r e' hr => ⟨hr.1, Nat.le_trans ?_ hr.2⟩
    simp [Editor.load, RenderQueue.dropped]
  refine Spends.modify_bind (Spends.get_bind ?_)
  split
  · exact Spends.modify_bind hrender
  · exact Spends.modify_bind hrender
  · exact spends_pure (Nat.le_refl _)

end Passes

/-! ### Commands and scripts -/

section Commands

variable {run : Script → EditorM Unit} {fuel : Nat} {e : Editor}

theorem alter_spends {f : Editor → Editor} {n : Nat} (h : (f e).load ≤ n) :
    Spends (alter f) e n := Spends.modify_bind (spends_pure h)

theorem named_spends {α : Type} {find : Editor → Option α} {name : String}
    {k : α → EditorM Answer} {n : Nat} (he : e.load ≤ n)
    (hk : ∀ a, find e = some a → Spends (k a) e n) : Spends (named find name k) e n := by
  refine Spends.get_bind ?_
  cases hfind : find e with
  | none => exact spends_pure he
  | some a => exact hk a hfind

theorem coordinated_spends {x : EditorM Answer} {n : Nat} (he : e.load ≤ n) (hx : Spends x e n) :
    Spends (coordinated x) e n := by
  refine Spends.get_bind ?_
  split
  · exact hx
  · exact spends_pure he

theorem dispatching_spends {x : EditorM Answer} {n : Nat} (he : e.load ≤ n) (hx : Spends x e n) :
    Spends (dispatching x) e n := by
  refine Spends.get_bind ?_
  split
  · exact hx
  · exact spends_pure he

theorem reconcileAnswer_spends (hrun : Fueled fuel run) (he : e.load ≤ fuel) (doc : DocumentId)
    (tree : SyntaxTree) (token : Token) :
    Spends (reconcileAnswer run doc tree token) e (e.load + 1) := by
  refine (reconcile_spends hrun he _).catching.bind (Nat.le_refl _) fun result e' he' => ?_
  refine Spends.get_bind ?_
  cases result <;> exact spends_pure he'

/-- **A command uses itself up.**  What it leaves to do is at most what it weighed more than
that. -/
theorem performWith_spends (hrun : Fueled fuel run) (c : Command)
    (he : e.load + c.weight ≤ fuel + 1) :
    Spends (performWith run fuel c) e (e.load + c.weight) := by
  have hpos := c.weight_pos
  have hle : e.load ≤ e.load + c.weight := Nat.le_add_right _ _
  have hfuel : e.load ≤ fuel := by omega
  have hanswer : ∀ f : Editor → Answer,
      Spends (do return f (← Act.get) : EditorM Answer) e (e.load + c.weight) :=
    fun f => Spends.get_bind (spends_pure hle)
  cases c with
  | surface name onLive onApply alwaysLive =>
      refine alter_spends (Nat.le_of_lt_succ ?_)
      rw [Editor.load_declareSurface]
      simp only [Surface.load, Command.weight]
      omega
  | dispose | revive =>
      refine named_spends hle fun id _ => alter_spends ?_
      rw [Editor.load_setDisposed]
      exact hle
  | token name parent =>
      cases parent with
      | none => exact alter_spends hle
      | some parent => exact named_spends hle fun t _ => alter_spends hle
  | cancel => exact named_spends hle fun t _ => alter_spends hle
  | worked =>
      exact named_spends hle fun t _ => Spends.modify_bind (Spends.get_bind (spends_pure hle))
  | install doc surface styles scripted onResolve =>
      refine coordinated_spends hle (named_spends hle fun id _ => alter_spends ?_)
      rw [Editor.load_install]
      simp only [Resolver.load, Command.weight]
      omega
  | uninstall doc =>
      refine coordinated_spends hle ?_
      rw [Spends, ensures_bind, ensures_modifyGet, next_ok, ensures_pure, Editor.load_uninstall]
      exact ⟨by simp, hle⟩
  | isInstalled | published | state | metrics | debug => exact coordinated_spends hle (hanswer _)
  | reconcile doc tree token =>
      cases token with
      | some name =>
          exact coordinated_spends hle (named_spends hle fun t _ =>
            (reconcileAnswer_spends hrun hfuel doc tree t))
      | none =>
          refine coordinated_spends hle ?_
          rw [Spends, ensures_bind, ensures_modifyGet, next_ok]
          exact reconcileAnswer_spends (e := { e with tokens := e.tokens.new.2 }) hrun hfuel
            doc tree _
  | target => exact named_spends hle fun id _ => alter_spends hle
  | cancelTarget => exact named_spends hle fun t _ => alter_spends hle
  | targetInfo =>
      refine named_spends hle fun t _ => Spends.get_bind ?_
      refine (isLive_spends hrun hfuel t).bind hle fun live e' he' => ?_
      exact Spends.get_bind (spends_pure (Nat.le_trans he' hle))
  | dispatch name delta =>
      cases delta with
      | error m => exact spends_halt (by simp) hle
      | ok delta =>
          refine named_spends hle fun t _ => dispatching_spends hle (Spends.get_bind ?_)
          exact Spends.modify_bind (spends_pure (e.load_dispatch_le _))
  | isClosed => exact dispatching_spends hle (hanswer _)
  | drain => exact (drainQueue_spends hrun hfuel).mono hle
  | dropQueue =>
      refine Spends.get_bind ?_
      split
      · refine Spends.modify_bind (spends_pure (Nat.le_trans ?_ hle))
        simp [Editor.load, RenderQueue.dropped]
      · exact spends_pure hle
  | finish => exact (finishQueue_spends hrun hfuel).mono hle
  | panic => exact spends_halt (by simp) hle

/-- Scripts do not run out of fuel, at any depth: each level down has used up a command. -/
theorem execute_fueled (fuel : Nat) : Fueled fuel (execute fuel) := by
  induction fuel with
  | zero =>
      intro script e he
      cases script with
      | nil =>
          rw [execute, Spends, ensures_bind, ensures_look, next_ok]
          exact ⟨trivial, spends_pure (Nat.le_add_right _ _)⟩
      | cons c rest =>
          have := c.weight_pos
          simp only [weightOfScript] at he
          omega
  | succ fuel ih =>
      intro script e he
      rw [weightOfScript_eq_sum] at he ⊢
      rw [execute, Spends, ensures_bind, ensures_look, next_ok]
      refine ⟨trivial, Spends.forM (fun c e he => ?_) script e he⟩
      refine (performWith_spends ih c he).bind (Nat.le_refl _) fun answer e' he' => ?_
      refine Spends.modify_bind ?_
      rw [Spends, ensures_look]
      exact ⟨trivial, by simp, he'⟩

theorem perform_spends (fuel : Nat) (c : Command) (he : e.load + c.weight ≤ fuel + 1) :
    Spends (perform fuel c) e (e.load + c.weight) :=
  performWith_spends (execute_fueled fuel) c he

end Commands

/-! ### Sessions -/

theorem Editor.converse_ne_outOfFuel (fuel : Nat) (script : Script) :
    ∀ e : Editor, e.load + weightOfScript script ≤ fuel + 1 →
      (e.converse fuel script).1 ≠ .error .outOfFuel := by
  induction script with
  | nil => simp [Editor.converse]
  | cons c rest ih =>
      intro e he
      simp only [weightOfScript] at he
      obtain ⟨-, hresult, hload⟩ := perform_spends (e := e) fuel c (by omega)
      rw [Editor.converse]
      rcases hrun : perform fuel c e with ⟨seen, halted | answer, e'⟩
      · rw [hrun] at hresult
        simpa using hresult
      · rw [hrun] at hload
        have hrest := ih e' (by simp only at hload; omega)
        cases hlog : (e'.converse fuel rest).1 with
        | error h =>
            rw [hlog] at hrest
            simpa [hlog, Except.map] using hrest
        | ok log => simp [hlog, Except.map]

/-- **A session never runs out of fuel.** -/
theorem session_ne_outOfFuel (policy : Policy) (table : StyleTable) (thread : Bool)
    (script : Script) : session policy table thread script ≠ .error .outOfFuel := by
  have hnew : (Editor.new policy table thread).load = 0 := rfl
  have hlog := Editor.converse_ne_outOfFuel (weightOfScript script) script
    (Editor.new policy table thread) (by omega)
  rw [session]
  cases h : ((Editor.new policy table thread).converse (weightOfScript script) script).1 with
  | error halted =>
      rw [h] at hlog
      simpa [h, Except.map] using hlog
  | ok log => simp [h, Except.map]

end Highlighting
