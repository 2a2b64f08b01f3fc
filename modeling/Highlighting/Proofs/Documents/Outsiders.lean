/-
Commands of other documents.

Every action on behalf of another document is foreign, with whatever its scripts do:
its surface and its resolver are asked, its passes run, its changes are delivered,
and nothing of the document at hand is touched.
-/
import Highlighting.Proofs.Documents.Foreign
import Highlighting.Proofs.Editor.Session

namespace Highlighting

open Act EditorM

variable {o : Ownership} {d : DocumentId} {own : Part → Nat → Prop} {e e' : Editor}

/-! ### Calls of the surroundings of others -/

/-- The scripts of other documents are foreign. -/
def Outsiders (o : Ownership) (d : DocumentId) (own : Part → Nat → Prop)
    (run : Script → EditorM Unit) : Prop :=
  ∀ x script, x ≠ d → scriptActsOn o x script = true → Keeps (Foreign o d own) (run script)

theorem keeps_foreign_log {event : Event} (h : event.deed? d = none) :
    Keeps (Foreign o d own) (EditorM.log event) :=
  .modify fun e => foreign_log e h

variable {run : Script → EditorM Unit}

theorem askSurface_foreign (hrun : Outsiders o d own run) {id : Nat} (hid : ¬own .surface id)
    (doc : DocumentId) : Keeps (Foreign o d own) (askSurface run id doc) := by
  refine keeps_foreign fun e hapart => ?_
  unfold askSurface
  rw [ensures_bind, ensures_get, next_ok]
  cases hs : e.surfaces[id]? with
  | none => exact Keeps.pure _ e
  | some s =>
      obtain ⟨x, hx, hacts⟩ := hapart.surfaces id s hs hid
      dsimp only
      split
      · exact Keeps.pure _ e
      · have htaken : ∀ e : Editor, Foreign o d own e (e.modifySurface id Surface.nextLive) :=
          fun e => foreign_modifySurface e hid fun _ _ h => h.nextLive
        have hscript := hrun x _ hx (scriptActsOn_headD hacts.1)
        exact ((keeps_foreign_log rfl).bind fun _ => (Keeps.modify htaken).bind fun _ =>
          hscript.bind fun _ => .get_bind fun e => Keeps.pure _ e) e

theorem isLive_foreign (hrun : Outsiders o d own run) {t : Target} (ht : ¬own .surface t.surface) :
    Keeps (Foreign o d own) (isLive run t) := .get_bind fun e => by
  split
  · exact Keeps.pure _ e
  · exact askSurface_foreign hrun ht t.doc e

theorem applyJob_foreign (hrun : Outsiders o d own run) {j : Job} (hdoc : j.target.doc ≠ d)
    (hj : ¬own .surface j.target.surface) : Keeps (Foreign o d own) (applyJob run j) := by
  refine keeps_foreign fun e hapart => ?_
  unfold applyJob
  rw [ensures_bind, ensures_get, next_ok]
  cases hs : e.surfaces[j.target.surface]? with
  | none => exact Keeps.pure _ e
  | some s =>
      obtain ⟨x, hx, hacts⟩ := hapart.surfaces _ s hs hj
      have htaken : ∀ e : Editor,
          Foreign o d own e (e.modifySurface j.target.surface Surface.nextApply) :=
        fun e => foreign_modifySurface e hj fun _ _ h => h.nextApply
      have hscript := hrun x _ hx (scriptActsOn_headD hacts.2)
      exact ((keeps_foreign_log (by simp [Event.deed?, hdoc])).bind fun _ =>
        (Keeps.modify htaken).bind fun _ => hscript) e

theorem resolveStyle_foreign (hrun : Outsiders o d own run) {id : Nat} (hid : ¬own .resolver id)
    (kind : Kind) : Keeps (Foreign o d own) (resolveStyle run id kind) := by
  refine keeps_foreign fun e hapart => ?_
  unfold resolveStyle
  rw [ensures_bind, ensures_get, next_ok]
  cases hr : e.resolvers[id]? with
  | none => exact Keeps.pure _ e
  | some r =>
      obtain ⟨x, hx, hacts⟩ := hapart.resolvers id r hr hid
      have hcalled : ∀ e : Editor, Foreign o d own e (e.modifyResolver id Resolver.next) :=
        fun e => foreign_modifyResolver e hid fun _ _ h => scriptsActOn_tail h
      dsimp only
      split
      · have hscript := hrun x _ hx (scriptActsOn_headD hacts)
        exact ((keeps_foreign_log rfl).bind fun _ => (Keeps.modify hcalled).bind fun _ =>
          hscript.bind fun _ => .pure _) e
      · exact ((Keeps.modify hcalled).bind fun _ => .pure _) e

theorem wantedHighlights_foreign (hrun : Outsiders o d own run) {id : Nat}
    (hid : ¬own .resolver id) (tree : SyntaxTree) :
    Keeps (Foreign o d own) (wantedHighlights run id tree) := by
  have hmark : ∀ m : Mark, Keeps (Foreign o d own)
      (do return m.styled (← resolveStyle run id m.kind) : EditorM Highlight) := fun m =>
    (resolveStyle_foreign hrun hid m.kind).bind fun _ => .pure _
  exact .get_bind fun e => Keeps.mapM hmark _ e

/-! ### Passes of others -/

/-- A foreign change after which a target is still away. -/
def Staying (o : Ownership) (d : DocumentId) (own : Part → Nat → Prop) (t : Target)
    (e e' : Editor) : Prop :=
  t.Away d own e.count → Apart o d own e →
    t.Away d own e'.count ∧ Apart o d own e' ∧ Frame o d own e e'

variable {t : Target}

theorem Foreign.staying (h : Foreign o d own e e') : Staying o d own t e e' := by
  intro ht hapart
  obtain ⟨hapart', hframe⟩ := h hapart
  exact ⟨ht.mono hframe.count, hapart', hframe⟩

instance : IsPreorder Editor (Staying o d own t) where
  refl e := Foreign.staying (refl e)
  trans _ _ _ := by
    intro h h' ht hapart
    obtain ⟨ht', hapart', hframe⟩ := h ht hapart
    obtain ⟨ht'', hapart'', hframe'⟩ := h' ht' hapart'
    exact ⟨ht'', hapart'', hframe.trans hframe'⟩

theorem keeps_staying {α : Type} {x : EditorM α} (h : Keeps (Foreign o d own) x) :
    Keeps (Staying o d own t) x :=
  h.weaken fun _ _ hstep => hstep.staying

theorem ensures_foreign_of_staying {α : Type} {x : EditorM α} (ht : t.Away d own e.count)
    (h : Keeps (Staying o d own t) x) :
    Ensures x e (Foreign o d own e) fun _ e' => Foreign o d own e e' :=
  (h e).mono (fun _ hm hapart => (hm ht hapart).2) fun _ _ h hapart => (h ht hapart).2

theorem work_staying (token : Token) (units : UInt32) :
    Keeps (Staying o d own t) (EditorM.work token units) :=
  .modify fun e => (foreign_worked e token units).staying

theorem staying_publish (e : Editor) {id : Nat} (hid : ¬own .slot id) (wanted : List Highlight)
    (delta : Delta) (next : List Highlight) :
    Staying o d own t e (e.publish id t wanted delta next).2 := by
  intro ht hapart
  have hset : Foreign o d own e
      (e.modifySlot id fun s => { s with gate := s.gate.set next, snapshot := next }) :=
    foreign_modifySlot e hid (fun _ => rfl) fun _ => rfl
  have hsettled : Foreign o d own e _ := IsTrans.trans _ _ _ hset
    (foreign_log _ (show (Event.settled id wanted).deed? d = none from rfl))
  obtain ⟨ht', hapart', hframe⟩ := hsettled.staying ht hapart
  unfold Editor.publish
  split
  · exact ⟨ht', hapart', hframe⟩
  · obtain ⟨ht'', hapart'', hframe'⟩ :=
      (foreign_dispatch _ (j := ⟨t, delta⟩) ht').staying ht' hapart'
    exact ⟨ht'', hapart'', hframe.trans hframe'⟩

theorem reconcileWith_staying (hrun : Outsiders o d own run) {id : Nat} (hid : ¬own .slot id)
    (ht : ¬own .surface t.surface) (token : Token) (wanted : List Highlight) :
    Keeps (Staying o d own t) (reconcileWith run id t token wanted) := by
  have hlive : Keeps (Staying o d own t) (isLive run t) := keeps_staying (isLive_foreign hrun ht)
  unfold reconcileWith
  refine (work_staying _ _).bind fun _ => .get_bind fun e => ?_
  split
  · exact Keeps.pure _ e
  refine Keeps.get_bind (fun e => ?_) e
  refine ((work_staying _ _).bind fun _ => .get_bind fun e => ?_) e
  split
  · exact Keeps.pure _ e
  refine ((work_staying _ _).bind fun _ => .get_bind fun e => ?_) e
  split
  · exact Keeps.pure _ e
  refine (hlive.bind fun live => ?_) e
  split
  · exact Keeps.pure _
  refine .get_bind fun e => ?_
  split
  · exact Keeps.pure _ e
  · exact ((Keeps.modifyGet fun e => staying_publish e hid _ _ _).bind fun _ =>
      (work_staying _ _).bind fun _ => .pure _) e

theorem passInside_staying (hrun : Outsiders o d own run) {id : Nat} (hid : ¬own .slot id)
    {s : Slot} (ht : ¬own .surface s.target.surface) (hr : ¬own .resolver s.resolver)
    (r : Request) :
    Keeps (Staying o d own s.target) (passInside run id s r) := by
  refine (work_staying _ _).bind fun _ => Keeps.bind
    (keeps_catching (keeps_staying (wantedHighlights_foreign hrun hr r.tree))) fun result => ?_
  cases result with
  | error => exact .pure _
  | ok wanted => exact reconcileWith_staying hrun hid ht r.token wanted

theorem reconcile_foreign (hrun : Outsiders o d own run) {r : Request} (hdoc : r.doc ≠ d) :
    Keeps (Foreign o d own) (reconcile run r) := by
  refine keeps_foreign fun e hapart => ?_
  have hrecord : ∀ slot out (e : Editor), Foreign o d own e (e.recordPass slot r out) :=
    fun slot out e => foreign_recordPass e slot hdoc out
  unfold reconcile
  rw [ensures_bind, ensures_get, next_ok]
  rcases hslot : e.slot? r.doc with _ | ⟨id, s⟩
  · exact ((Keeps.modify (hrecord _ _)).bind fun _ => .pure _) e
  · obtain ⟨hget, hs⟩ := Editor.slot?_eq_some.mp hslot
    have hid : ¬own .slot id := (hapart.documents r.doc id hdoc hget).2
    obtain ⟨htarget, hresolver⟩ := hapart.slots id s hs hid
    dsimp only
    split
    · exact ((Keeps.modify (hrecord _ _)).bind fun _ => .pure _) e
    · rename_i inside _
      have henter : ∀ e : Editor, Foreign o d own e (e.enterGate id inside) := fun e =>
        trans_of _ (foreign_modifySlot e hid (f := fun s => { s with gate := inside })
          (fun _ => rfl) fun _ => rfl) (foreign_log _ rfl)
      have hleave : ∀ e : Editor, Foreign o d own e (e.leaveGate id) := fun e =>
        foreign_modifySlot e hid (fun _ => rfl) fun _ => rfl
      have hpass := passInside_staying hrun hid htarget.surface.2 hresolver.2 r
      refine ensures_foreign_of_staying htarget ?_
      refine (Keeps.modify fun e => (henter e).staying).bind fun _ => Keeps.bind
        (Keeps.attempt (hpass.ensuring fun e => (hleave e).staying)) fun result => ?_
      split
      · exact (Keeps.modify fun e => (hrecord _ _ e).staying).bind fun _ => .pure _
      · exact (keeps_staying (keeps_foreign_log (by simp [Event.deed?, hdoc]))).bind fun _ =>
          .halt _
      · exact .halt _

/-! ### Changes of others -/

theorem deliver_foreign (hrun : Outsiders o d own run) {j : Job} (hdoc : j.target.doc ≠ d)
    (hj : ¬own .surface j.target.surface) : Keeps (Foreign o d own) (deliver run j) := by
  refine (Keeps.attempt (isLive_foreign hrun hj)).bind fun result => ?_
  split
  · exact (keeps_catching (applyJob_foreign hrun hdoc hj)).bind fun _ => .pure _
  · exact (keeps_foreign_log rfl).bind fun _ => .pure _
  · exact (keeps_foreign_log rfl).bind fun _ => .halt _

/-! ### Commands of others -/

theorem reconcileAnswer_foreign (hrun : Outsiders o d own run) {doc : DocumentId} (hdoc : doc ≠ d)
    (tree : SyntaxTree) (token : Token) :
    Keeps (Foreign o d own) (reconcileAnswer run doc tree token) :=
  (keeps_catching (reconcile_foreign hrun hdoc)).bind fun result => .get_bind fun e => by
    cases result <;> exact Keeps.pure _ e

/-- **A command of another document is foreign.** -/
theorem performWith_foreign (hrun : Outsiders o d own run) (fuel : Nat) {c : Command}
    {x : DocumentId} (hx : x ≠ d) (hc : c.actsOn o x = true) :
    Keeps (Foreign o d own) (performWith run fuel c) := by
  have hother : ∀ {y}, y = x → y ≠ d := fun heq => heq ▸ hx
  cases c with
  | surface name onLive onApply alwaysLive =>
      simp only [Command.actsOn, Bool.and_eq_true, decide_eq_true_eq] at hc
      exact keeps_alter fun e =>
        foreign_declareSurface e (hother hc.1.1) ⟨x, hx, hc.1.2, hc.2⟩
  | dispose name | revive name =>
      simp only [Command.actsOn, decide_eq_true_eq] at hc
      refine keeps_named fun e id hid => ensures_foreign fun hapart => ensures_alter ?_
      exact foreign_modifySurface e (hapart.surfaceNames name id (hother hc) hid).2 fun _ _ h => h
  | token name parent =>
      cases parent with
      | none =>
          simp only [Command.actsOn, Option.all_none, Bool.and_true, decide_eq_true_eq] at hc
          exact keeps_alter fun e => foreign_nameToken e (hother hc) rfl rfl rfl (by simp)
      | some parent =>
          simp only [Command.actsOn, Option.all_some, Bool.and_eq_true, decide_eq_true_eq] at hc
          refine keeps_named fun e t ht => ensures_foreign fun hapart => ensures_alter ?_
          have hparent := hapart.tokenNames parent t (hother hc.2) ht
          exact foreign_nameToken e (hother hc.1) rfl rfl rfl hparent
  | cancel name =>
      simp only [Command.actsOn, decide_eq_true_eq] at hc
      refine keeps_named fun e t ht => ensures_foreign fun hapart => ensures_alter ?_
      exact foreign_cancel e (hapart.tokenNames name t (hother hc) ht)
  | worked name units =>
      simp only [Command.actsOn, decide_eq_true_eq] at hc
      refine keeps_named fun e t _ => ?_
      have hreport : ∀ e : Editor,
          Foreign o d own e ((e.worked t units).log (.reported t units)) := fun e =>
        trans_of _ (foreign_worked e t units) (foreign_log _ rfl)
      exact ((Keeps.modify hreport).bind fun _ => keeps_answer _) e
  | install doc surface styles scripted onResolve =>
      simp only [Command.actsOn, Bool.and_eq_true, decide_eq_true_eq] at hc
      refine keeps_coordinated <| keeps_named fun e id hid => ensures_foreign fun hapart =>
        ensures_alter ?_
      exact foreign_install e (hother hc.1.1) (hapart.surfaceNames surface id (hother hc.1.2) hid)
        ⟨x, hx, hc.2⟩
  | uninstall doc =>
      simp only [Command.actsOn, decide_eq_true_eq] at hc
      exact keeps_coordinated <| (Keeps.modifyGet fun e => foreign_uninstall e (hother hc)).bind
        fun _ => .pure _
  | isInstalled | published | state | metrics | debug => exact keeps_coordinated (keeps_answer _)
  | reconcile doc tree token =>
      cases token with
      | some name =>
          simp only [Command.actsOn, Option.all_some, Bool.and_eq_true, decide_eq_true_eq] at hc
          exact keeps_coordinated <| keeps_named fun e t _ =>
            reconcileAnswer_foreign hrun (hother hc.1) tree t e
      | none =>
          simp only [Command.actsOn, Option.all_none, Bool.and_true, decide_eq_true_eq] at hc
          have hnew : ∀ e : Editor, Foreign o d own e { e with tokens := e.tokens.new.2 } :=
            fun e => foreign_tokens e _ (Nat.le_succ _) rfl
          exact keeps_coordinated <| (Keeps.modifyGet hnew).bind fun t =>
            reconcileAnswer_foreign hrun (hother hc) tree t
  | target name doc surface =>
      simp only [Command.actsOn, Bool.and_eq_true, decide_eq_true_eq] at hc
      refine keeps_named fun e id hid => ensures_foreign fun hapart => ensures_alter ?_
      exact foreign_nameTarget e (hother hc.1.1) (hother hc.1.2)
        (hapart.surfaceNames surface id (hother hc.2) hid)
  | cancelTarget name =>
      simp only [Command.actsOn, decide_eq_true_eq] at hc
      refine keeps_named fun e t ht => ensures_foreign fun hapart => ensures_alter ?_
      exact foreign_cancel e (hapart.targetNames name t (hother hc) ht).lifetime
  | targetInfo name =>
      simp only [Command.actsOn, decide_eq_true_eq] at hc
      refine keeps_named fun e t ht => ensures_foreign fun hapart => ?_
      have haway := hapart.targetNames name t (hother hc) ht
      exact Keeps.get_bind (fun e => ((isLive_foreign hrun haway.surface.2).bind fun _ =>
        keeps_answer _) e) e
  | dispatch name delta =>
      simp only [Command.actsOn, decide_eq_true_eq] at hc
      cases delta with
      | error => exact .halt _
      | ok delta =>
          refine keeps_named fun e t ht => ensures_foreign fun hapart => ?_
          have haway := hapart.targetNames name t (hother hc) ht
          unfold dispatching
          rw [ensures_bind, ensures_get, next_ok]
          split
          · rw [ensures_bind, ensures_get, next_ok, ensures_bind, ensures_modify, next_ok,
              ensures_pure]
            exact foreign_dispatch e haway
          · exact Keeps.pure _ e
  | isClosed => exact keeps_dispatching (keeps_answer _)
  | drain | dropQueue | finish => simp [Command.actsOn] at hc
  | panic => exact .halt _

/-- Scripts of other documents are foreign, at every depth. -/
theorem execute_outsiders (fuel : Nat) : Outsiders o d own (execute fuel) := by
  induction fuel with
  | zero =>
      intro x script _ _
      refine Keeps.look.bind fun _ => ?_
      split
      · exact .pure _
      · exact .halt _
  | succ fuel ih =>
      intro x script hx hscript
      rw [scriptActsOn_iff] at hscript
      refine Keeps.look.bind fun _ => .forM fun c hc => ?_
      refine (performWith_foreign ih fuel hx (hscript c hc)).bind fun answer => ?_
      exact (keeps_foreign_log rfl).bind fun _ => .look

end Highlighting
