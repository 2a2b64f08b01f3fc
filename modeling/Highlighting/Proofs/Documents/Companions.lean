/-
Commands of the document in two related editors.

A command of the document is in step with itself, whatever it makes, and so are the
scripts it holds, at every depth.
-/
import Highlighting.Proofs.Documents.Parallel

namespace Highlighting

open Act EditorM

variable {o : Ownership} {d : DocumentId} {ρ : Link} {α : Type}
  {run run' : Script → EditorM Unit}

/-! ### Commands -/

/-- Any two answers. -/
def Any (_ _ : Answer) : Prop := True

theorem inStep_named {find : Editor → Option α} {R : Link → α → α → Prop} {name : String}
    {k k' : α → EditorM Answer}
    (hfind : ∀ ρ' e f, Related o d ρ' e f → Option.Rel (R ρ') (find e) (find f))
    (hk : ∀ ρ' a b, ρ ≤ ρ' → R ρ' a b → InStep o d ρ' Any (k a) (k' b)) :
    InStep o d ρ Any (named find name k) (named find name k') := by
  refine inStep_get_bind fun ρ' e f hle hrel => ?_
  have hfound := hfind ρ' e f hrel
  generalize find e = x at hfound ⊢
  generalize find f = y at hfound ⊢
  cases hfound with
  | none => exact inStep_pure trivial
  | some hab => exact hk ρ' _ _ hle hab

theorem inStep_alter {g g' : Editor → Editor}
    (h : ∀ ρ' e f, ρ ≤ ρ' → Related o d ρ' e f → ∃ ρ'', ρ' ≤ ρ'' ∧ Related o d ρ'' (g e) (g' f)) :
    InStep o d ρ Any (alter g) (alter g') :=
  (inStep_modify h).bind fun _ _ _ => inStep_pure trivial

theorem inStep_alter_same {g g' : Editor → Editor}
    (h : ∀ ρ' e f, ρ ≤ ρ' → Related o d ρ' e f → Related o d ρ' (g e) (g' f)) :
    InStep o d ρ Any (alter g) (alter g') :=
  inStep_alter fun ρ' e f hle hrel => ⟨ρ', le_rfl, h ρ' e f hle hrel⟩

theorem inStep_answer (g g' : Editor → Answer) :
    InStep o d ρ Any (do return g (← Act.get)) (do return g' (← Act.get)) :=
  inStep_get_bind fun _ _ _ _ _ => inStep_pure trivial

theorem inStep_coordinated {x x' : EditorM Answer} (h : InStep o d ρ Any x x') :
    InStep o d ρ Any (coordinated x) (coordinated x') := by
  refine inStep_get_bind fun ρ' e f hle hrel => ?_
  rw [hrel.coordinating]
  split
  · exact h.mono hle
  · exact inStep_pure trivial

theorem inStep_dispatching {x x' : EditorM Answer} (h : InStep o d ρ Any x x') :
    InStep o d ρ Any (dispatching x) (dispatching x') := by
  refine inStep_get_bind fun ρ' e f hle hrel => ?_
  rw [hrel.coordinating]
  split
  · exact h.mono hle
  · exact inStep_pure trivial

theorem reconcileAnswer_inStep (hrun : Companions o d run run') (tree : SyntaxTree)
    {token token' : Token} (htoken : token.Like ρ token') :
    InStep o d ρ Any (reconcileAnswer run d tree token) (reconcileAnswer run' d tree token') := by
  have hpass : InStep o d ρ Eq (reconcile run ⟨d, tree, token⟩)
      (reconcile run' ⟨d, tree, token'⟩) :=
    reconcile_inStep hrun rfl rfl rfl htoken
  refine hpass.catching.bind fun result result' hmatch => ?_
  refine inStep_get_bind fun ρ' e f hle hrel => ?_
  cases hmatch <;> exact inStep_pure trivial

theorem targetAnswer_inStep (hrun : Companions o d run run') {t u : Target} (htu : t.Like d ρ u) :
    InStep o d ρ Any (targetAnswer run t) (targetAnswer run' u) := by
  refine inStep_get_bind fun ρ' e f hle hrel => ?_
  exact ((isLive_inStep hrun htu).mono hle).bind fun _ _ _ => inStep_answer _ _

/-- **A command of the document is in step.** -/
theorem performWith_inStep (hrun : Companions o d run run') (fuel fuel' : Nat) {c : Command}
    (hc : c.actsOn o d = true) :
    InStep o d ρ Any (performWith run fuel c) (performWith run' fuel' c) := by
  have hsurface : ∀ name, o.surface name = d → ∀ ρ' e f, Related o d ρ' e f →
      Option.Rel (ρ' .surface) (e.surfaceNames.get? name) (f.surfaceNames.get? name) :=
    fun name hname _ _ _ hrel => hrel.surfaceNames name hname
  have htoken : ∀ name, o.token name = d → ∀ ρ' e f, Related o d ρ' e f →
      Option.Rel (Token.Like ρ') (e.tokenNames.get? name) (f.tokenNames.get? name) :=
    fun name hname _ _ _ hrel => hrel.tokenNames name hname
  have htarget : ∀ name, o.target name = d → ∀ ρ' e f, Related o d ρ' e f →
      Option.Rel (Target.Like d ρ') (e.targetNames.get? name) (f.targetNames.get? name) :=
    fun name hname _ _ _ hrel => hrel.targetNames name hname
  cases c with
  | surface name onLive onApply alwaysLive =>
      simp only [Command.actsOn, Bool.and_eq_true, decide_eq_true_eq] at hc
      exact inStep_alter fun ρ' e f _ hrel => hrel.declareSurface hc.1.1 ⟨hc.1.2, hc.2⟩
  | dispose name | revive name =>
      simp only [Command.actsOn, decide_eq_true_eq] at hc
      exact inStep_named (hsurface name hc) fun ρ' i j _ hij => inStep_alter_same
        fun ρ'' e f hle hrel => hrel.modifySurface (hle _ _ _ hij) fun _ h => h
  | token name parent =>
      cases parent with
      | none =>
          simp only [Command.actsOn, Option.all_none, Bool.and_true, decide_eq_true_eq] at hc
          exact inStep_alter fun ρ' e f _ hrel =>
            hrel.nameToken hc e.tokens.new f.tokens.new rfl rfl rfl rfl rfl rfl .nil
      | some parent =>
          simp only [Command.actsOn, Option.all_some, Bool.and_eq_true, decide_eq_true_eq] at hc
          exact inStep_named (htoken parent hc.2) fun ρ' t u _ htu => inStep_alter
            fun ρ'' e f hle hrel => hrel.nameToken hc.1 (e.tokens.child t) (f.tokens.child u)
              rfl rfl rfl rfl rfl rfl (htu.mono hle)
  | cancel name =>
      simp only [Command.actsOn, decide_eq_true_eq] at hc
      exact inStep_named (htoken name hc) fun ρ' t u _ htu => inStep_alter_same
        fun ρ'' e f hle hrel => hrel.cancel (htu.mono hle)
  | worked name units =>
      simp only [Command.actsOn, decide_eq_true_eq] at hc
      refine inStep_named (htoken name hc) fun ρ' t u _ _ => ?_
      refine (inStep_modify_same fun ρ'' e f _ hrel => ?_).bind fun _ _ _ => inStep_answer _ _
      exact (hrel.worked t u units).log rfl
  | install doc surface styles scripted onResolve =>
      simp only [Command.actsOn, Bool.and_eq_true, decide_eq_true_eq] at hc
      obtain ⟨⟨rfl, hname⟩, hacts⟩ := hc
      refine inStep_coordinated <| inStep_named (hsurface surface hname) fun ρ' i j _ hij =>
        inStep_alter fun ρ'' e f hle hrel => ?_
      have htables : f.tablesFor styles = e.tablesFor styles := by
        cases styles with
        | constant | swapped => rfl
        | table => simp only [Editor.tablesFor, hrel.baseTable]
      rw [htables]
      exact hrel.install (hle _ _ _ hij) hacts
  | uninstall doc =>
      simp only [Command.actsOn, decide_eq_true_eq] at hc
      subst hc
      exact inStep_coordinated <| (inStep_modifyGet fun ρ' e f _ hrel => hrel.uninstall).bind
        fun _ _ _ => inStep_pure trivial
  | isInstalled | published | state | metrics | debug =>
      exact inStep_coordinated (inStep_answer _ _)
  | reconcile doc tree token =>
      cases token with
      | some name =>
          simp only [Command.actsOn, Option.all_some, Bool.and_eq_true, decide_eq_true_eq] at hc
          obtain ⟨rfl, hname⟩ := hc
          exact inStep_coordinated <| inStep_named (htoken name hname) fun ρ' t u _ htu =>
            reconcileAnswer_inStep hrun tree htu
      | none =>
          simp only [Command.actsOn, Option.all_none, Bool.and_true, decide_eq_true_eq] at hc
          subst hc
          refine inStep_coordinated fun ρ' e f hle hrel => ?_
          have hnew := hrel.addScope e.tokens.new.2 f.tokens.new.2 rfl rfl rfl rfl
          have hlike : e.tokens.new.1.Like (ρ'.join .scope e.tokens.scopes f.tokens.scopes)
              f.tokens.new.1 := .cons Link.join_self .nil
          exact (reconcileAnswer_inStep hrun tree hlike _ _ _ le_rfl hnew).mono Link.le_join
  | target name doc surface =>
      simp only [Command.actsOn, Bool.and_eq_true, decide_eq_true_eq] at hc
      obtain ⟨⟨hname, rfl⟩, hsurf⟩ := hc
      exact inStep_named (hsurface surface hsurf) fun ρ' i j _ hij => inStep_alter
        fun ρ'' e f hle hrel => hrel.nameTarget hname (hle _ _ _ hij)
  | cancelTarget name =>
      simp only [Command.actsOn, decide_eq_true_eq] at hc
      exact inStep_named (htarget name hc) fun ρ' t u _ htu => inStep_alter_same
        fun ρ'' e f hle hrel => hrel.cancel (htu.mono hle).lifetime
  | targetInfo name =>
      simp only [Command.actsOn, decide_eq_true_eq] at hc
      exact inStep_named (htarget name hc) fun ρ' t u _ htu => targetAnswer_inStep hrun htu
  | dispatch name delta =>
      simp only [Command.actsOn, decide_eq_true_eq] at hc
      cases delta with
      | error => exact inStep_halt _
      | ok delta =>
          refine inStep_named (htarget name hc) fun ρ' t u _ htu => inStep_dispatching ?_
          refine inStep_get_bind fun ρ'' e f hle hrel => ?_
          have hpush : InStep o d ρ'' Eq (Act.modify (·.dispatch ⟨t, delta⟩))
              (Act.modify (·.dispatch ⟨u, delta⟩)) :=
            inStep_modify_same fun ρ₃ e f hle' hrel =>
              hrel.dispatch ⟨htu.mono (hle.trans hle'), rfl⟩
          exact hpush.bind fun _ _ _ => inStep_pure trivial
  | isClosed => exact inStep_dispatching (inStep_answer _ _)
  | drain | dropQueue | finish => exact absurd hc (by simp [Command.actsOn])
  | panic => exact inStep_halt _

/-- Scripts of the document are in step, at every depth. -/
theorem execute_companions (fuel fuel' : Nat) : Companions o d (execute fuel) (execute fuel') := by
  induction fuel generalizing fuel' with
  | zero =>
      intro script ρ hscript
      cases script with
      | nil => cases fuel' <;> exact inStep_look.bind fun _ _ _ => inStep_pure rfl
      | cons c rest => exact fun _ _ _ _ _ hfuel _ => absurd rfl hfuel
  | succ fuel ih =>
      intro script ρ hscript
      cases fuel' with
      | zero =>
          cases script with
          | nil => exact inStep_look.bind fun _ _ _ => inStep_pure rfl
          | cons c rest => exact fun _ _ _ _ _ _ hfuel' => absurd rfl hfuel'
      | succ fuel' =>
          rw [scriptActsOn_iff] at hscript
          refine inStep_look.bind fun _ _ _ => InStep.forM fun c hc => ?_
          refine (performWith_inStep (ih fuel') fuel fuel' (hscript c hc)).bind fun a b _ => ?_
          have hanswered : InStep o d ρ Eq (EditorM.log (.answered c.name a))
              (EditorM.log (.answered c.name b)) := inStep_log rfl
          exact hanswered.bind fun _ _ _ => inStep_look

end Highlighting
