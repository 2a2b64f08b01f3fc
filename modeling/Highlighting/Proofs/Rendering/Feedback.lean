/-
Rendering never feeds back.

Two sessions that are the same but for draining and dropping the queue, at the top and
in the scripts of resolvers, are in unison: the answers to all commands that do not ask
about the queue are the same, and so is all that can be read of the coordinator.
-/
import Highlighting.Proofs.Documents.Ownership
import Highlighting.Proofs.Editor.Fuel
import Highlighting.Proofs.Published
import Highlighting.Proofs.Rendering.Unison

namespace Highlighting

open Act EditorM

variable {α : Type} {V : Answer → Answer → Prop} {e f : Editor} {run run' : Script → EditorM Unit}

/-! ### Commands -/

theorem unison_named {find : Editor → Option α} (hfind : ∀ e : Editor, find e.core = find e)
    {name : String} {k k' : α → EditorM Answer} (hV : ∀ a, V a a)
    (hk : ∀ a, Unison V (k a) (k' a)) : Unison V (named find name k) (named find name k') := by
  refine unison_get_bind fun e f hlevel => ?_
  rw [hlevel.reads find hfind]
  cases find e with
  | none => exact unison_pure (hV _)
  | some a => exact hk a

/-- Going on if the coordinator is there, and refusing otherwise. -/
theorem unison_ifCoordinating {refusal : Answer} {x x' : EditorM Answer} (hV : ∀ a, V a a)
    (h : Unison V x x') :
    Unison V (do if (← Act.get).coordinating then x else return refusal)
      (do if (← Act.get).coordinating then x' else return refusal) := by
  refine unison_get_bind fun e f hlevel => ?_
  rw [hlevel.reads (·.coordinating) fun _ => rfl]
  by_cases hthere : e.coordinating = true
  · rw [if_pos hthere, if_pos hthere]
    exact h
  · rw [if_neg hthere, if_neg hthere]
    exact unison_pure (hV _)

theorem unison_alter {g g' G : Editor → Editor} (hg : Follows g G) (hg' : Follows g' G) :
    Unison Eq (alter g) (alter g') :=
  (unison_modify hg hg').bind fun _ _ _ => unison_pure rfl

theorem unison_alter_same {g : Editor → Editor} (hcore : ∀ e, (g e).core = g e.core)
    (hsurfaces : ∀ e, (g e).surfaces = e.surfaces)
    (hresolvers : ∀ e, (g e).resolvers = e.resolvers) : Unison Eq (alter g) (alter g) :=
  unison_alter (follows_same hcore hsurfaces hresolvers) (follows_same hcore hsurfaces hresolvers)

theorem unison_answer {g : Editor → Answer} (hg : ∀ e : Editor, g e.core = g e) :
    Unison Eq (do return g (← Act.get) : EditorM Answer) (do return g (← Act.get)) :=
  unison_get_bind fun _ _ hlevel => unison_pure (hlevel.reads g hg).symm

theorem reconcileAnswer_unison (hrun : Concerted run run') (doc : DocumentId) (tree : SyntaxTree)
    (token : Token) :
    Unison Eq (reconcileAnswer run doc tree token) (reconcileAnswer run' doc tree token) := by
  refine (reconcile_unison hrun ⟨doc, tree, token⟩).catching.bind fun result result' hmatch => ?_
  refine unison_get_bind fun e f hlevel => ?_
  rw [hlevel.reads (fun e => e.tokens.workDone token) fun _ => rfl]
  cases hmatch with
  | ok houtcome =>
      subst houtcome
      exact unison_pure rfl
  | error p => exact unison_pure rfl

theorem targetAnswer_unison (hrun : Concerted run run') (t : Target) :
    Unison Eq (targetAnswer run t) (targetAnswer run' t) := by
  refine unison_get_bind fun e f hlevel => ?_
  rw [hlevel.reads (·.isTornDown t) fun _ => rfl]
  refine (isLive_unison hrun t).bind fun live live' hlive => ?_
  subst hlive
  exact unison_answer fun _ => rfl

theorem follows_setDisposed (id : Nat) (b : Bool) :
    Follows (·.setDisposed id b) (·.setDisposed id b) where
  core e := by
    unfold Editor.setDisposed
    rw [e.core_modifySurface (g := fun s => { s with disposed := b })]
    exact fun _ => rfl
  tame e he := he.modifySurface id fun _ h => ⟨h.live, h.apply⟩

/-- Two answers to a command; those that depend on the queue may differ. -/
def Command.Agrees (c : Command) (a b : Answer) : Prop := c.isOfQueue = true ∨ a = b

theorem install_unison (fuel fuel' : Nat) (doc : DocumentId) (surface : String)
    (styles : StyleChoice) (scripted : Bool) {scripts scripts' : List Script}
    (htame : scriptsAreTame scripts = true) (htame' : scriptsAreTame scripts' = true)
    (hcore : coreOfScripts scripts = coreOfScripts scripts') :
    Unison Eq (performWith run fuel (.install doc surface styles scripted scripts))
      (performWith run' fuel' (.install doc surface styles scripted scripts')) := by
  have hinstall : ∀ (id : Nat) {onResolve : List Script}, scriptsAreTame onResolve = true →
      Follows (fun e => e.install doc id { tables := e.tablesFor styles, scripted, onResolve })
        fun e => e.install doc id
          { tables := e.tablesFor styles, scripted, onResolve := coreOfScripts onResolve } :=
    fun id _ h => ⟨fun e => e.core_install doc id _, fun e he => he.install doc id h⟩
  refine unison_ifCoordinating (fun _ => rfl) ?_
  refine unison_named (fun _ => rfl) (fun _ => rfl) fun id => ?_
  exact unison_alter (hinstall id htame) (hcore ▸ hinstall id htame')

theorem finish_unison (hrun : Concerted run run') (fuel fuel' : Nat) (hV : ∀ a b, V a b) :
    Unison V (finishQueue run fuel) (finishQueue run' fuel') := by
  intro e f hlevel hfuel hfuel'
  obtain ⟨-, hhalts, hsame⟩ := finishQueue_aloof hrun.idle hlevel.left fuel
  obtain ⟨-, hhalts', hsame'⟩ := finishQueue_aloof hrun.idle' hlevel.right fuel'
  have hletGo : Follows (fun e => { e with coordinating := false })
      fun e => { e with coordinating := false } :=
    follows_same (fun _ => rfl) (fun _ => rfl) fun _ => rfl
  refine ⟨((hlevel.change hletGo hletGo).left_moved hsame).right_moved hsame', ?_⟩
  cases hr : (finishQueue run fuel e).result with
  | error h => exact absurd (hr.trans (congrArg _ (hhalts h hr))) hfuel
  | ok a =>
      cases hr' : (finishQueue run' fuel' f).result with
      | error h => exact absurd (hr'.trans (congrArg _ (hhalts' h hr'))) hfuel'
      | ok b => exact .ok (hV a b)

/-- **A command that does not render is in unison with itself.** -/
theorem performWith_unison (hrun : Concerted run run') (fuel fuel' : Nat) {c : Command}
    (hrendering : c.isRendering = false) (htame : c.isTame = true) :
    Unison c.Agrees (performWith run fuel c) (performWith run' fuel' c) := by
  have heq : ∀ {x x' : EditorM Answer}, Unison Eq x x' → Unison c.Agrees x x' :=
    fun h => h.mono fun _ _ => Or.inr
  cases c with
  | surface name onLive onApply alwaysLive =>
      simp only [Command.isTame, Bool.and_eq_true, List.all_eq_true] at htame
      have hs : Surface.Tame ⟨name, alwaysLive, false, onLive, onApply⟩ :=
        ⟨fun s h => List.isEmpty_iff.mp (htame.1 s h), htame.2⟩
      have hdeclare : Follows (·.declareSurface name _) (·.declareSurface name _) :=
        ⟨fun e => e.core_declareSurface name _, fun e he => he.declareSurface name hs⟩
      exact heq <| unison_alter hdeclare hdeclare
  | dispose name | revive name =>
      exact heq <| unison_named (fun _ => rfl) (fun _ => rfl) fun id =>
        unison_alter (follows_setDisposed id _) (follows_setDisposed id _)
  | token name parent =>
      cases parent with
      | none => exact heq <| unison_alter_same (fun _ => rfl) (fun _ => rfl) fun _ => rfl
      | some parent =>
          exact heq <| unison_named (fun _ => rfl) (fun _ => rfl) fun t =>
            unison_alter_same (fun _ => rfl) (fun _ => rfl) fun _ => rfl
  | cancel name =>
      exact heq <| unison_named (fun _ => rfl) (fun _ => rfl) fun t =>
        unison_alter_same (fun _ => rfl) (fun _ => rfl) fun _ => rfl
  | worked name units =>
      refine heq <| unison_named (fun _ => rfl) (fun _ => rfl) fun t => ?_
      have hreport : Follows (fun e => (e.worked t units).log (.reported t units))
          fun e => (e.worked t units).log (.reported t units) :=
        follows_same (fun e => (e.worked t units).core_log rfl) (fun _ => rfl) fun _ => rfl
      exact (unison_modify hreport hreport).bind fun _ _ _ => unison_answer fun _ => rfl
  | install doc surface styles scripted onResolve =>
      exact heq <| install_unison fuel fuel' doc surface styles scripted htame htame rfl
  | uninstall doc =>
      have huninstall : Follows (fun e => (e.uninstall doc).2) fun e => (e.uninstall doc).2 :=
        ⟨fun e => (e.core_uninstall doc).1, fun e he => he.uninstall doc⟩
      refine heq <| unison_ifCoordinating (fun _ => rfl) ?_
      refine (unison_modifyGet fun e f hlevel => ⟨hlevel.change huninstall huninstall, ?_⟩).bind
        fun a b hab => unison_pure (congrArg Answer.yesNo hab)
      have hsame := hlevel.reads (fun e => (e.uninstall doc).1)
        fun e => (e.core_uninstall doc).2.symm
      exact hsame.symm
  | isInstalled | published | state | metrics | debug =>
      exact heq <| unison_ifCoordinating (fun _ => rfl) (unison_answer fun _ => rfl)
  | reconcile doc tree token =>
      cases token with
      | some name =>
          refine heq <| unison_ifCoordinating (fun _ => rfl) ?_
          exact unison_named (fun _ => rfl) (fun _ => rfl) fun t =>
            reconcileAnswer_unison hrun doc tree t
      | none =>
          have hnew : Follows (fun e => { e with tokens := e.tokens.new.2 })
              fun e => { e with tokens := e.tokens.new.2 } :=
            follows_same (fun _ => rfl) (fun _ => rfl) fun _ => rfl
          refine heq <| unison_ifCoordinating (fun _ => rfl) ?_
          refine (unison_modifyGet fun e f hlevel => ⟨hlevel.change hnew hnew, ?_⟩).bind
            fun t t' ht => ht ▸ reconcileAnswer_unison hrun doc tree t
          exact (hlevel.reads (fun e => e.tokens.new.1) fun _ => rfl).symm
  | target name doc surface =>
      exact heq <| unison_named (fun _ => rfl) (fun _ => rfl) fun id =>
        unison_alter_same (fun _ => rfl) (fun _ => rfl) fun _ => rfl
  | cancelTarget name =>
      exact heq <| unison_named (fun _ => rfl) (fun _ => rfl) fun t =>
        unison_alter_same (fun _ => rfl) (fun _ => rfl) fun _ => rfl
  | targetInfo name =>
      exact heq <| unison_named (fun _ => rfl) (fun _ => rfl) fun t => targetAnswer_unison hrun t
  | dispatch name delta =>
      cases delta with
      | error => exact unison_halt _
      | ok delta =>
          refine unison_named (fun _ => rfl) (fun _ => Or.inr rfl) fun t => ?_
          refine unison_ifCoordinating (fun _ => Or.inr rfl) ?_
          refine unison_get_bind fun e f _ => ?_
          exact (unison_modify (follows_dispatch _) (follows_dispatch _)).bind
            fun _ _ _ => unison_pure (Or.inl rfl)
  | isClosed =>
      refine unison_ifCoordinating (fun _ => Or.inr rfl) ?_
      exact unison_get_bind fun e f _ => unison_pure (Or.inl rfl)
  | finish => exact finish_unison hrun fuel fuel' fun _ _ => Or.inl rfl
  | drain | dropQueue => exact absurd hrendering (by simp [Command.isRendering])
  | panic => exact unison_halt _

/-- Commands with the same core are the same, but for the scripts of a resolver. -/
theorem eq_or_install_of_core {c c' : Command} (h : c.core = c'.core) :
    c = c' ∨ ∃ doc surface styles scripted scripts scripts',
      c = .install doc surface styles scripted scripts ∧
      c' = .install doc surface styles scripted scripts' ∧
      coreOfScripts scripts = coreOfScripts scripts' := by
  have hother : ∀ c : Command, (∃ doc surface styles scripted scripts,
      c = .install doc surface styles scripted scripts) ∨ c.core = c := by
    intro c
    cases c with
    | install doc surface styles scripted scripts => exact Or.inl ⟨_, _, _, _, _, rfl⟩
    | _ => exact Or.inr rfl
  obtain ⟨doc, surface, styles, scripted, scripts, rfl⟩ | hc := hother c
  · obtain ⟨doc', surface', styles', scripted', scripts', rfl⟩ | hc' := hother c'
    · simp only [Command.core, Command.install.injEq] at h
      obtain ⟨rfl, rfl, rfl, rfl, hscripts⟩ := h
      exact Or.inr ⟨_, _, _, _, _, _, rfl, rfl, hscripts⟩
    · rw [hc'] at h
      subst h
      simp only [Command.core, Command.install.injEq, true_and] at hc'
      exact Or.inr ⟨_, _, _, _, _, _, rfl, rfl, hc'.symm⟩
  · obtain ⟨doc', surface', styles', scripted', scripts', rfl⟩ | hc' := hother c'
    · rw [hc] at h
      subst h
      simp only [Command.core, Command.install.injEq, true_and] at hc
      exact Or.inr ⟨_, _, _, _, _, _, rfl, rfl, hc⟩
    · exact Or.inl (by rw [← hc, h, hc'])

/-- Commands with the same core that do not render are in unison. -/
theorem performWith_unison_of_core (hrun : Concerted run run') (fuel fuel' : Nat) {c c' : Command}
    (hcore : c.core = c'.core) (hrendering : c.isRendering = false) (htame : c.isTame = true)
    (htame' : c'.isTame = true) :
    Unison c.Agrees (performWith run fuel c) (performWith run' fuel' c') := by
  obtain rfl | ⟨doc, surface, styles, scripted, scripts, scripts', rfl, rfl, hscripts⟩ :=
    eq_or_install_of_core hcore
  · exact performWith_unison hrun fuel fuel' hrendering htame
  · exact (install_unison fuel fuel' doc surface styles scripted htame htame' hscripts).mono
      fun _ _ => Or.inr

/-! ### Scripts -/

/-- Two scripts step by step: rendering of one of them alone, or commands with the same core in
both. -/
inductive Aligned : Script → Script → Prop where
  | nil : Aligned [] []
  | left {c : Command} {p q : Script} (hc : c.isRendering = true) (hrest : Aligned p q) :
    Aligned (c :: p) q
  | right {c : Command} {p q : Script} (hc : c.isRendering = true) (hrest : Aligned p q) :
    Aligned p (c :: q)
  | both {c c' : Command} {p q : Script} (hc : c.isRendering = false) (hcore : c.core = c'.core)
    (hrest : Aligned p q) : Aligned (c :: p) (c' :: q)

theorem coreOfScript_cons_of_rendering {c : Command} (h : c.isRendering = true) (rest : Script) :
    coreOfScript (c :: rest) = coreOfScript rest := by
  rw [coreOfScript, if_pos h]

theorem coreOfScript_cons {c : Command} (h : c.isRendering = false) (rest : Script) :
    coreOfScript (c :: rest) = c.core :: coreOfScript rest := by
  rw [coreOfScript, if_neg (by simp [h])]

/-- Scripts with the same core can be gone through step by step. -/
theorem aligned_of_core {p q : Script} (h : coreOfScript p = coreOfScript q) : Aligned p q := by
  induction p generalizing q with
  | nil =>
      induction q with
      | nil => exact .nil
      | cons c' q ih =>
          by_cases hc' : c'.isRendering = true
          · rw [coreOfScript_cons_of_rendering hc'] at h
            exact .right hc' (ih h)
          · rw [coreOfScript_cons (Bool.eq_false_iff.mpr hc')] at h
            exact absurd h (List.cons_ne_nil _ _).symm
  | cons c p ih =>
      by_cases hc : c.isRendering = true
      · rw [coreOfScript_cons_of_rendering hc] at h
        exact .left hc (ih h)
      · replace hc := Bool.eq_false_iff.mpr hc
        rw [coreOfScript_cons hc] at h
        -- what comes first in the other script may be rendering that this one does not have
        induction q with
        | nil => exact absurd h (List.cons_ne_nil _ _)
        | cons c' q ihq =>
            by_cases hc' : c'.isRendering = true
            · rw [coreOfScript_cons_of_rendering hc'] at h
              exact .right hc' (ihq h)
            · rw [coreOfScript_cons (Bool.eq_false_iff.mpr hc')] at h
              obtain ⟨hcore, hrest⟩ := List.cons.inj h
              exact .both hc hcore (ih hrest)

/-- What a script does for one of its commands. -/
def stepOf (run : Script → EditorM Unit) (fuel : Nat) (c : Command) : EditorM Unit := do
  let answer ← performWith run fuel c
  EditorM.log (.answered c.name answer)
  Act.look

theorem stepOf_aloof (hrun : Idle run) (he : e.Tame) (fuel : Nat) {c : Command}
    (hc : c.isRendering = true) : Aloof (stepOf run fuel c) e := by
  have hkind : ∀ a, (Event.answered c.name a).isCoordination = false := by
    intro a
    rw [isCoordination_answered, isOfQueue_of_rendering hc]
    rfl
  refine (rendering_aloof hrun he fuel hc).bind fun a e₁ h₁ => ?_
  exact (aloof_modify (sameCore_log h₁.tame (hkind a))).bind fun _ e₂ h₂ => aloof_look h₂.tame

theorem stepOf_unison (hrun : Concerted run run') (fuel fuel' : Nat) {c c' : Command}
    (hcore : c.core = c'.core) (hrendering : c.isRendering = false) (htame : c.isTame = true)
    (htame' : c'.isTame = true) : Unison Eq (stepOf run fuel c) (stepOf run' fuel' c') := by
  refine (performWith_unison_of_core hrun fuel fuel' hcore hrendering htame htame').bind
    fun a b hab => ?_
  have hlog : Unison Eq (EditorM.log (.answered c.name a)) (EditorM.log (.answered c'.name b)) := by
    rw [← name_of_core hcore]
    obtain hqueue | rfl := hab
    -- answers about the queue may differ, but the core does not hold them
    · have hdropped : ∀ a, Follows (·.log (.answered c.name a)) fun e => e := by
        intro a
        refine ⟨fun e => e.core_log_of_not ?_, fun e he => he.of_same rfl rfl⟩
        rw [isCoordination_answered, hqueue]
        rfl
      exact unison_modify (hdropped a) (hdropped b)
    · exact unison_log _
  exact hlog.bind fun _ _ _ => unison_look

theorem Aligned.unison (hrun : Concerted run run') (fuel fuel' : Nat) {p q : Script}
    (h : Aligned p q) (hp : scriptIsTame p = true) (hq : scriptIsTame q = true) :
    Unison Eq (p.forM (stepOf run fuel)) (q.forM (stepOf run' fuel')) := by
  induction h with
  | nil => exact unison_pure rfl
  | @left c p q hc _ ih =>
      simp only [scriptIsTame, Bool.and_eq_true] at hp
      intro e f hlevel
      exact Accord.left (stepOf_aloof hrun.idle hlevel.left fuel hc) fun _ e' hsame =>
        ih hp.2 hq e' f (hlevel.left_moved hsame)
  | @right c p q hc _ ih =>
      simp only [scriptIsTame, Bool.and_eq_true] at hq
      intro e f hlevel
      exact Accord.right (stepOf_aloof hrun.idle' hlevel.right fuel' hc) fun _ f' hsame =>
        ih hp hq.2 e f' (hlevel.right_moved hsame)
  | @both c c' p q hc hcore _ ih =>
      simp only [scriptIsTame, Bool.and_eq_true] at hp hq
      exact (stepOf_unison hrun fuel fuel' hcore hc hp.1 hq.1).bind fun _ _ _ => ih hp.2 hq.2

theorem execute_succ_unison {fuel fuel' : Nat} (hrun : Concerted (execute fuel) (execute fuel'))
    {p q : Script} (hcore : coreOfScript p = coreOfScript q) (hp : scriptIsTame p = true)
    (hq : scriptIsTame q = true) : Unison Eq (execute (fuel + 1) p) (execute (fuel' + 1) q) :=
  unison_look.bind fun _ _ _ => (aligned_of_core hcore).unison hrun fuel fuel' hp hq

/-- Without fuel only an empty script is carried out, as it would be with fuel. -/
theorem execute_zero (script : Script) :
    execute 0 script = execute 1 script ∨
      ∀ e, (execute 0 script e).result = .error .outOfFuel := by
  cases script with
  | nil => exact Or.inl rfl
  | cons c rest => exact Or.inr fun _ => rfl

/-- **Scripts that are the same but for rendering are in unison**, at every depth. -/
theorem execute_concerted (fuel fuel' : Nat) : Concerted (execute fuel) (execute fuel') := by
  -- an empty script needs no fuel, but one with the same core may: it is as if there were one unit
  induction fuel generalizing fuel' with
  | zero =>
      induction fuel' with
      | zero =>
          refine ⟨execute_idle 0, execute_idle 0, fun p q _ _ _ => ?_⟩
          cases p with
          | cons c rest => exact fun _ _ _ hfuel _ => absurd rfl hfuel
          | nil =>
              cases q with
              | nil => exact unison_look.bind fun _ _ _ => unison_pure rfl
              | cons c rest => exact fun _ _ _ _ hfuel' => absurd rfl hfuel'
      | succ fuel' ih =>
          refine ⟨execute_idle 0, execute_idle _, fun p q hcore hp hq => ?_⟩
          obtain hone | hout := execute_zero p
          · rw [hone]
            exact execute_succ_unison ih hcore hp hq
          · exact fun e f _ hfuel _ => absurd (hout e) hfuel
  | succ fuel ih =>
      refine ⟨execute_idle _, execute_idle _, fun p q hcore hp hq => ?_⟩
      cases fuel' with
      | zero =>
          obtain hone | hout := execute_zero q
          · rw [hone]
            exact execute_succ_unison (ih 0) hcore hp hq
          · exact fun e f _ _ hfuel' => absurd (hout f) hfuel'
      | succ fuel' => exact execute_succ_unison (ih fuel') hcore hp hq

/-! ### Sessions -/

/-- The answers to the commands that do not ask about the queue. -/
def asideOfQueue : Script → List (Answer × List Event) → List Answer
  | c :: script, entry :: log =>
    if c.isOfQueue then asideOfQueue script log else entry.1 :: asideOfQueue script log
  | _, _ => []

/-- A session as an action that returns those answers. -/
def answering (fuel : Nat) : Script → EditorM (List Answer)
  | [] => return []
  | c :: rest => do
    let answer ← perform fuel c
    let answers ← answering fuel rest
    return if c.isOfQueue then answers else answer :: answers

theorem answering_eq (fuel : Nat) (script : Script) (e : Editor) :
    (answering fuel script e).result =
        (e.converse fuel script).1.map (asideOfQueue script) ∧
      (answering fuel script e).last = (e.converse fuel script).2 := by
  induction script generalizing e with
  | nil => exact ⟨rfl, rfl⟩
  | cons c rest ih =>
      rcases hrun : perform fuel c e with ⟨seen, halted | answer, e'⟩
      · rw [answering, bind_of_error hrun, Editor.converse, hrun]
        exact ⟨rfl, rfl⟩
      · obtain ⟨hresult, hlast⟩ := ih e'
        rw [answering, bind_of_ok hrun, Editor.converse, hrun]
        dsimp only
        rcases hrest : answering fuel rest e' with ⟨seen', halted | answers, e''⟩
        · rw [hrest] at hresult hlast
          rw [bind_of_error hrest]
          refine ⟨?_, hlast⟩
          cases hlog : (e'.converse fuel rest).1 with
          | error h =>
              rw [hlog] at hresult
              exact hresult
          | ok log =>
              rw [hlog] at hresult
              exact absurd hresult (by simp [Except.map])
        · rw [hrest] at hresult hlast
          rw [bind_of_ok hrest]
          refine ⟨?_, hlast⟩
          cases hlog : (e'.converse fuel rest).1 with
          | error h =>
              rw [hlog] at hresult
              exact absurd hresult (by simp [Except.map])
          | ok log =>
              rw [hlog] at hresult
              simp only [Except.map, Except.ok.injEq] at hresult
              simp [Except.map, asideOfQueue, hresult]

theorem Aligned.answering_unison (fuel fuel' : Nat) {p q : Script} (h : Aligned p q)
    (hp : scriptIsTame p = true) (hq : scriptIsTame q = true) :
    Unison Eq (answering fuel p) (answering fuel' q) := by
  have hrun := execute_concerted fuel fuel'
  induction h with
  | nil => exact unison_pure rfl
  | @left c p q hc _ ih =>
      simp only [scriptIsTame, Bool.and_eq_true] at hp
      intro e f hlevel
      refine Accord.left (rendering_aloof hrun.idle hlevel.left fuel hc) fun _ e' hsame => ?_
      simp only [isOfQueue_of_rendering hc, if_true, bind_pure]
      exact ih hp.2 hq e' f (hlevel.left_moved hsame)
  | @right c p q hc _ ih =>
      simp only [scriptIsTame, Bool.and_eq_true] at hq
      intro e f hlevel
      refine Accord.right (rendering_aloof hrun.idle' hlevel.right fuel' hc) fun _ f' hsame => ?_
      simp only [isOfQueue_of_rendering hc, if_true, bind_pure]
      exact ih hp hq.2 e f' (hlevel.right_moved hsame)
  | @both c c' p q hc hcore _ ih =>
      simp only [scriptIsTame, Bool.and_eq_true] at hp hq
      refine (performWith_unison_of_core hrun fuel fuel' hcore hc hp.1 hq.1).bind fun a b hab => ?_
      refine (ih hp.2 hq.2).bind fun as bs habs => unison_pure ?_
      rw [← isOfQueue_of_core hcore, habs]
      obtain hqueue | rfl := hab
      · rw [if_pos hqueue, if_pos hqueue]
      · rfl

/-- New editors differ in who renders at most. -/
theorem level_new (policy : Policy) (table : StyleTable) (thread thread' : Bool) :
    Level (Editor.new policy table thread) (Editor.new policy table thread') where
  core := rfl
  left := ⟨fun _ h => absurd h List.not_mem_nil, fun _ h => absurd h List.not_mem_nil⟩
  right := ⟨fun _ h => absurd h List.not_mem_nil, fun _ h => absurd h List.not_mem_nil⟩

/-- Two sessions with the same core: the answers aside of the queue are the same, or the reason why
they were broken off is, and they end with the same core. -/
theorem converse_core (policy : Policy) (table : StyleTable) (thread thread' : Bool) {p q : Script}
    (hp : scriptIsTame p = true) (hq : scriptIsTame q = true)
    (hcore : coreOfScript p = coreOfScript q) {fuel fuel' : Nat} (hfuel : weightOfScript p ≤ fuel)
    (hfuel' : weightOfScript q ≤ fuel') :
    let run := (Editor.new policy table thread).converse fuel p
    let run' := (Editor.new policy table thread').converse fuel' q
    run.1.map (asideOfQueue p) = run'.1.map (asideOfQueue q) ∧ Level run.2 run'.2 := by
  intro run run'
  have hnew : ∀ thread, (Editor.new policy table thread).load = 0 := fun _ => rfl
  have hmap : ∀ {r : Except Halt (List (Answer × List Event))} {script : Script},
      r ≠ .error .outOfFuel → r.map (asideOfQueue script) ≠ .error .outOfFuel := by
    intro r script hr
    cases r with
    | error h => simpa [Except.map] using hr
    | ok log => simp [Except.map]
  have hends : run.1 ≠ .error .outOfFuel :=
    Editor.converse_ne_outOfFuel fuel p _ (by rw [hnew]; omega)
  have hends' : run'.1 ≠ .error .outOfFuel :=
    Editor.converse_ne_outOfFuel fuel' q _ (by rw [hnew]; omega)
  have haccord := (aligned_of_core hcore).answering_unison fuel fuel' hp hq _ _
    (level_new policy table thread thread')
  unfold Accord at haccord
  rw [(answering_eq fuel p _).1, (answering_eq fuel p _).2, (answering_eq fuel' q _).1,
    (answering_eq fuel' q _).2] at haccord
  obtain ⟨hlast, hmatch⟩ := haccord (hmap hends) (hmap hends')
  refine ⟨?_, hlast⟩
  change Matches Eq (run.1.map _) (run'.1.map _) at hmatch
  generalize run.1.map (asideOfQueue p) = r at hmatch ⊢
  generalize run'.1.map (asideOfQueue q) = r' at hmatch ⊢
  cases hmatch with
  | ok heq => exact congrArg _ heq
  | error h => rfl

/-- **Rendering never feeds back.**  Two sessions whose surfaces do nothing but answer, or panic
over a change, are compared at any two points before which they had the same commands but for
draining and dropping the queue, in scripts as well.  All commands that do not ask about the queue,
passes among them, had the same answers, or both sessions were broken off for the same reason; what
can be read of each document, the counters and the progress of every token are the same; and so is
all the coordinator did, the passes inside scripts included. -/
theorem rendering_never_feeds_back (policy : Policy) (table : StyleTable) (thread thread' : Bool)
    {p q : Script} (hp : scriptIsTame p = true) (hq : scriptIsTame q = true) {fuel fuel' : Nat}
    (hfuel : weightOfScript p ≤ fuel) (hfuel' : weightOfScript q ≤ fuel') {before before' : Script}
    (hbefore : before <+: p) (hbefore' : before' <+: q)
    (hcore : coreOfScript before = coreOfScript before') :
    let run := (Editor.new policy table thread).converse fuel before
    let run' := (Editor.new policy table thread').converse fuel' before'
    run.1.map (asideOfQueue before) = run'.1.map (asideOfQueue before') ∧
      (∀ d, run.2.sight d = run'.2.sight d) ∧
      run.2.metrics.counters = run'.2.metrics.counters ∧
      (∀ t : Token, run.2.tokens.workDone t = run'.2.tokens.workDone t) ∧
      (∀ name, run.2.tokenNames.get? name = run'.2.tokenNames.get? name) ∧
      run.2.journal.filter Event.isCoordination = run'.2.journal.filter Event.isCoordination := by
  intro run run'
  have htame : ∀ {p before : Script}, before <+: p → scriptIsTame p = true →
      scriptIsTame before = true := by
    intro p before h hp
    rw [scriptIsTame_iff] at hp ⊢
    exact fun c hc => hp c (h.subset hc)
  have hweight : ∀ {p before : Script}, before <+: p →
      weightOfScript before ≤ weightOfScript p := by
    rintro _ before ⟨rest, rfl⟩
    rw [weightOfScript_eq_sum, weightOfScript_eq_sum, List.map_append, List.sum_append]
    exact Nat.le_add_right _ _
  obtain ⟨hanswers, hlevel⟩ := converse_core policy table thread thread' (htame hbefore hp)
    (htame hbefore' hq) hcore ((hweight hbefore).trans hfuel) ((hweight hbefore').trans hfuel')
  refine ⟨hanswers, fun d => ?_, ?_, fun t => ?_, fun name => ?_, ?_⟩
  · exact (hlevel.reads (·.sight d) fun _ => rfl).symm
  · exact (hlevel.reads (·.metrics.counters) fun _ => rfl).symm
  · exact (hlevel.reads (·.tokens.workDone t) fun _ => rfl).symm
  · exact (hlevel.reads (·.tokenNames.get? name) fun _ => rfl).symm
  · exact congrArg Editor.journal hlevel.core

namespace OneNumber

/-- Two passes over the document, the view being gone at the second one.  The resolver has a script,
and there may be commands between the passes. -/
def twoPasses (onResolve between : Script) : Script :=
  [.surface "view" [] [[.panic (.text "view lost")]] false,
    .install ⟨1⟩ "view" (.table []) true [onResolve], .reconcile ⟨1⟩ tree none] ++ between ++
    [.dispose "view", .reconcile ⟨1⟩ tree none, .published ⟨1⟩]

def rendered : Script := twoPasses [.drain, .state ⟨1⟩] [.drain, .dropQueue]

def unrendered : Script := twoPasses [.state ⟨1⟩] []

end OneNumber

open OneNumber

/-- The queue is drained in the middle of the first pass and after it, and then dropped; or it is
left to a thread. -/
theorem feedback_oneNumber :
    scriptIsTame rendered = true ∧ scriptIsTame unrendered = true ∧
    coreOfScript rendered = coreOfScript unrendered ∧
    let run := (Editor.new .default .default false).converse 12 rendered
    let run' := (Editor.new .default .default true).converse 8 unrendered
    run.1.map (asideOfQueue rendered) = run'.1.map (asideOfQueue unrendered) ∧
      (∀ d, run.2.sight d = run'.2.sight d) ∧
      run.2.metrics.counters = run'.2.metrics.counters := by
  have htame : scriptIsTame rendered = true := by decide
  have htame' : scriptIsTame unrendered = true := by decide
  have hweight : weightOfScript rendered ≤ 12 := by decide
  have hweight' : weightOfScript unrendered ≤ 8 := by decide
  have hcore : coreOfScript rendered = coreOfScript unrendered := rfl
  obtain ⟨hanswers, hsight, hcounters, -⟩ := rendering_never_feeds_back .default .default false true
    htame htame' hweight hweight' (List.prefix_refl _) (List.prefix_refl _) hcore
  exact ⟨htame, htame', hcore, hanswers, hsight, hcounters⟩

end Highlighting
