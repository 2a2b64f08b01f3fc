/-
Whole sessions.

Every command keeps `Runs`, given that the scripts it may run do; scripts do, by
induction on the depth.  So nothing but steps happens in a session, and what holds
of a new editor and is kept by steps holds at every moment of every session: between
commands, and whenever a script looks, however deep inside others it runs.
-/
import Highlighting.Proofs.Editor.Pass
import Highlighting.Proofs.Editor.Render

namespace Highlighting

open Act EditorM

/-! ### Commands that concern no slot and no job -/

section Outside

variable (e : Editor)

theorem outside_declareSurface (name : String) (s : Surface) :
    Outside e (e.declareSurface name s) where
  surfaces := by
    show _ <+: (e.surfaces ++ [s]).map (·.name)
    rw [List.map_append]
    exact List.prefix_append _ _

/-- Naming a token whose scopes are named or new. -/
theorem outside_nameToken (name : String) {made : Token × Tokens}
    (hscopes : e.tokens.scopes ≤ made.2.scopes) (hcancelled : made.2.cancelled = e.tokens.cancelled)
    (hnamed : ∀ n ∈ made.1.lineage.scopes,
      e.Named n ∨ e.tokens.scopes ≤ n ∧ n < made.2.scopes) :
    Outside e (e.nameToken name made) where
  scopes := hscopes
  named := by
    rintro n (⟨name', t, hget, hn⟩ | htarget)
    · rw [show (e.nameToken name made).tokenNames = e.tokenNames.set name made.1 from rfl,
        Registry.get?_set] at hget
      split at hget
      · cases hget
        exact hnamed n hn
      · exact Or.inl (Or.inl ⟨name', t, hget, hn⟩)
    · exact Or.inl (Or.inr htarget)
  stays := by
    intro n hn
    show n ∈ made.2.cancelled
    rw [hcancelled]
    exact hn
  cancelled := by
    intro n hn
    left
    rw [← hcancelled]
    exact hn

theorem outside_nameTarget (name : String) (doc : DocumentId) (surface : Nat) :
    Outside e (e.nameTarget name doc surface) where
  scopes := Nat.le_succ _
  named := by
    rintro n (htoken | ⟨name', t, hget, hn⟩)
    · exact Or.inl (Or.inl htoken)
    · rw [show (e.nameTarget name doc surface).targetNames =
          e.targetNames.set name ⟨doc, surface, ⟨e.tokens.scopes, []⟩⟩ from rfl,
        Registry.get?_set] at hget
      split at hget
      · cases hget
        exact Or.inr ⟨Nat.le_of_eq hn.symm, Nat.lt_succ_of_le (Nat.le_of_eq hn)⟩
      · exact Or.inl (Or.inr ⟨name', t, hget, hn⟩)

theorem outside_cancel {l : Lineage} (h : e.Named l.own) :
    Outside e { e with tokens := e.tokens.cancel l } where
  stays := fun _ hn => List.mem_cons_of_mem _ hn
  cancelled := by
    intro n hn
    rcases List.mem_cons.mp hn with rfl | hn
    · exact Or.inr h
    · exact Or.inl hn

/-- A fresh token for a pass that was given none. -/
theorem outside_newToken : Outside e { e with tokens := e.tokens.new.2 } where
  scopes := Nat.le_succ _

end Outside

/-! ### Every command -/

variable {run : Script → EditorM Unit}

section Generic

variable {R : Editor → Editor → Prop} [IsPreorder Editor R]

theorem keeps_alter {f : Editor → Editor} (h : ∀ e, R e (f e)) : Keeps R (alter f) :=
  (Keeps.modify h).bind fun _ => .pure _

theorem keeps_named {α : Type} {find : Editor → Option α} {name : String} {k : α → EditorM Answer}
    (h : ∀ e a, find e = some a → Ensures (k a) e (R e) fun _ e' => R e e') :
    Keeps R (named find name k) := .get_bind fun e => by
  cases hfind : find e with
  | none =>
      dsimp only
      rw [ensures_pure]
      exact refl e
  | some a => exact h e a hfind

omit [IsPreorder Editor R] in
theorem ensures_alter {f : Editor → Editor} {e : Editor} (h : R e (f e)) :
    Ensures (alter f) e (R e) fun _ e' => R e e' := by
  unfold alter
  rw [ensures_bind, ensures_modify, next_ok, ensures_pure]
  exact h

theorem keeps_coordinated {x : EditorM Answer} (h : Keeps R x) : Keeps R (coordinated x) :=
  .get_bind fun e => by
    split
    · exact h e
    · rw [ensures_pure]
      exact refl e

theorem keeps_dispatching {x : EditorM Answer} (h : Keeps R x) : Keeps R (dispatching x) :=
  .get_bind fun e => by
    split
    · exact h e
    · rw [ensures_pure]
      exact refl e

/-- Answering from what there is. -/
theorem keeps_answer (f : Editor → Answer) :
    Keeps R (do return f (← Act.get) : EditorM Answer) := .get_bind fun e => by
  rw [ensures_pure]
  exact refl e

end Generic

theorem reconcileAnswer_keeps (hrun : Commanding run) (doc : DocumentId) (tree : SyntaxTree)
    (token : Token) : Keeps Runs (reconcileAnswer run doc tree token) :=
  (keeps_catching (reconcile_keeps hrun _)).bind fun result => .get_bind fun e => by
    cases result <;> exact Keeps.pure _ e

theorem last_reconcileAnswer (run : Script → EditorM Unit) (doc : DocumentId) (tree : SyntaxTree)
    (token : Token) (e : Editor) :
    (reconcileAnswer run doc tree token e).last = (reconcile run ⟨doc, tree, token⟩ e).last := by
  suffices h : Ensures (reconcileAnswer run doc tree token) e (fun _ => True) fun _ e' =>
      e' = (reconcile run ⟨doc, tree, token⟩ e).last from h.2
  unfold reconcileAnswer
  rw [ensures_bind, ensures_catching]
  refine ⟨fun _ _ => trivial, ?_⟩
  dsimp only
  split
  · rw [next_ok, ensures_bind, ensures_get, next_ok, ensures_pure]
  · rw [next_ok, ensures_bind, ensures_get, next_ok, ensures_pure]
  · rfl

theorem targetAnswer_keeps (hrun : Commanding run) (t : Target) : Keeps Runs (targetAnswer run t) :=
  .get_bind fun e => ((isLive_keeps hrun t).bind fun _ => keeps_answer _) e

theorem drainQueue_keeps (hrun : Commanding run) (fuel : Nat) : Keeps Runs (drainQueue run fuel) :=
  keeps_runs fun _ hfit => (drainQueue_spec hrun hfit fuel).mono (fun _ hm => hm) fun _ _ h => h.1

theorem finishQueue_keeps (hrun : Commanding run) (fuel : Nat) :
    Keeps Runs (finishQueue run fuel) :=
  keeps_runs fun _ hfit => (finishQueue_spec hrun hfit fuel).mono (fun _ hm => hm) fun _ _ h => h.1

theorem runs_dropQueue {e : Editor} (h : e.queue.keeper = .idle) :
    Runs e { e with queue := .dropped } := by
  have hdraining : e.queue.keeper ≠ .draining := by simp [h]
  refine ⟨fun hfit => ?_, fun _ hdrain => absurd hdrain hdraining⟩
  exact (Step.dropQueue (hfit.turn hdraining)).evolves
    (fun _ => grows_queue .dropped [] List.nil_suffix (by simp)) hfit

/-- **Every command is made of steps and leaves to others what is theirs.** -/
theorem performWith_keeps (hrun : Commanding run) (fuel : Nat) (c : Command) :
    Keeps Runs (performWith run fuel c) := by
  cases c with
  | surface => exact keeps_alter fun e => (outside_declareSurface e _ _).runs
  | dispose | revive =>
      exact keeps_named fun e id _ =>
        ensures_alter (Outside.runs (outside_modifySurface e id fun _ => rfl))
  | token name parent =>
      cases parent with
      | none =>
          refine keeps_alter fun e => (outside_nameToken e name (Nat.le_succ _) rfl ?_).runs
          intro n hn
          rw [List.mem_singleton.mp hn]
          exact Or.inr ⟨Nat.le_refl _, Nat.lt_succ_self _⟩
      | some parent =>
          refine keeps_named fun e t ht => ensures_alter
            (outside_nameToken e name (Nat.le_succ _) rfl ?_).runs
          intro n hn
          rcases List.mem_cons.mp hn with rfl | hn
          · exact Or.inr ⟨Nat.le_refl _, Nat.lt_succ_self _⟩
          · exact Or.inl (Or.inl ⟨parent, t, ht, hn⟩)
  | cancel name =>
      exact keeps_named fun e t ht => ensures_alter
        (outside_cancel e (Or.inl ⟨name, t, ht, List.mem_cons_self⟩)).runs
  | worked name units =>
      refine keeps_named fun e t _ =>
        Keeps.bind (Keeps.modify fun e => ?_) (fun _ => keeps_answer _) e
      exact (outside_worked e t units).runs.trans (outside_log _ rfl).runs
  | install =>
      exact keeps_coordinated <| keeps_named fun e id _ => ensures_alter (runs_install e _ _ _)
  | uninstall =>
      exact keeps_coordinated <| (Keeps.modifyGet fun e => runs_uninstall e _).bind fun _ => .pure _
  | isInstalled | published | state | metrics | debug => exact keeps_coordinated (keeps_answer _)
  | reconcile doc tree token =>
      cases token with
      | some name =>
          exact keeps_coordinated <| keeps_named fun e t _ =>
            reconcileAnswer_keeps hrun doc tree t e
      | none =>
          exact keeps_coordinated <| (Keeps.modifyGet fun e => (outside_newToken e).runs).bind
            fun t => reconcileAnswer_keeps hrun doc tree t
  | target => exact keeps_named fun e id _ => ensures_alter (outside_nameTarget e _ _ _).runs
  | cancelTarget name =>
      exact keeps_named fun e t ht => ensures_alter
        (outside_cancel e (Or.inr ⟨name, t, ht, rfl⟩)).runs
  | targetInfo => exact keeps_named fun e t _ => targetAnswer_keeps hrun t e
  | dispatch name delta =>
      cases delta with
      | error => exact .halt _
      | ok delta =>
          refine keeps_named fun e t ht => ?_
          unfold dispatching
          rw [ensures_bind, ensures_get, next_ok]
          split
          · rw [ensures_bind, ensures_get, next_ok, ensures_bind, ensures_modify, next_ok,
              ensures_pure]
            exact runs_dispatch (Or.inr ⟨name, t, ht, rfl⟩)
          · rw [ensures_pure]
            exact refl e
  | isClosed => exact keeps_dispatching (keeps_answer _)
  | drain => exact drainQueue_keeps hrun fuel
  | dropQueue =>
      refine .get_bind fun e => ?_
      split
      · rename_i hidle
        rw [ensures_bind, ensures_modify, next_ok, ensures_pure]
        exact runs_dropQueue hidle
      · rw [ensures_pure]
        exact refl e
  | finish => exact finishQueue_keeps hrun fuel
  | panic => exact .halt _

/-- Scripts are made of commands, at every depth. -/
theorem execute_commanding (fuel : Nat) : Commanding (execute fuel) := by
  induction fuel with
  | zero =>
      intro script
      refine Keeps.look.bind fun _ => ?_
      split
      · exact .pure _
      · exact .halt _
  | succ fuel ih =>
      intro script
      refine Keeps.look.bind fun _ => Keeps.forM fun c _ => ?_
      refine (performWith_keeps ih fuel c).bind fun answer => ?_
      exact (Keeps.modify fun e => (outside_log e rfl).runs).bind fun _ => .look

theorem perform_keeps (fuel : Nat) (c : Command) : Keeps Runs (perform fuel c) :=
  performWith_keeps (execute_commanding fuel) fuel c

/-! ### Moments of a session -/

/-- An editor at some moment of a session: new, or seen by a script while a command was carried out
from such a moment, or left behind by one, be it done or broken off. -/
inductive Editor.Reachable : Editor → Prop where
  | new (policy : Policy) (table : StyleTable) (thread : Bool) :
      Reachable (.new policy table thread)
  | seen {e m : Editor} (h : e.Reachable) (fuel : Nat) (c : Command)
      (hm : m ∈ (perform fuel c e).seen) : Reachable m
  | last {e : Editor} (h : e.Reachable) (fuel : Nat) (c : Command) :
      Reachable (perform fuel c e).last

theorem Editor.Reachable.converse {e : Editor} (h : e.Reachable) (fuel : Nat) (script : Script) :
    (e.converse fuel script).2.Reachable := by
  induction script generalizing e with
  | nil => exact h
  | cons c rest ih =>
      have hlast := h.last fuel c
      rw [Editor.converse]
      rcases hrun : perform fuel c e with ⟨seen, halted | answer, e'⟩
      · rw [hrun] at hlast
        exact hlast
      · rw [hrun] at hlast
        exact ih hlast

theorem Editor.converse_runs (e : Editor) (fuel : Nat) (script : Script) :
    Runs e (e.converse fuel script).2 := by
  induction script generalizing e with
  | nil => exact refl e
  | cons c rest ih =>
      have hlast : Runs e (perform fuel c e).last := (perform_keeps fuel c e).2
      rw [Editor.converse]
      rcases hrun : perform fuel c e with ⟨seen, halted | answer, e'⟩
      · rw [hrun] at hlast
        exact hlast
      · rw [hrun] at hlast
        exact hlast.trans (ih e')

/-- **What holds of a new editor and is kept by every step holds at every moment.** -/
theorem Editor.Reachable.invariant {I : Editor → Prop}
    (hnew : ∀ policy table thread, I (.new policy table thread))
    (hstep : ∀ e e', Fit e → I e → Step e e' → I e') {e : Editor} (h : e.Reachable) :
    Fit e ∧ I e := by
  have hsteps : ∀ {e m : Editor}, Runs e m → Fit e ∧ I e → Fit m ∧ I m := by
    intro e m hrun h
    have hchain : Steps e m := (hrun.1 h.1).2.1
    clear hrun
    induction hchain with
    | refl => exact h
    | tail _ hlast ih => exact ⟨hlast.fit ih.1, hstep _ _ ih.1 ih.2 hlast⟩
  induction h with
  | new policy table thread => exact ⟨fit_new policy table thread, hnew policy table thread⟩
  | seen _ fuel c hm ih => exact hsteps ((perform_keeps fuel c _).1 _ hm) ih
  | last _ fuel c ih => exact hsteps (perform_keeps fuel c _).2 ih

theorem Editor.Reachable.fit {e : Editor} (h : e.Reachable) : Fit e :=
  (h.invariant (I := fun _ => True) (fun _ _ _ => trivial) fun _ _ _ _ _ => trivial).1

end Highlighting
