/-
Doing the same in two editors with the same core.

Two actions are in unison if, begun in tame editors with the same core, they end in
tame editors with the same core and in the same way.  Whether fuel runs out is not
compared.  Every action of the coordinator is in unison with itself, and scripts are
if they are the same but for rendering: what one of them renders, and when, the core
does not tell.
-/
import Highlighting.Proofs.Documents.Parallel
import Highlighting.Proofs.Rendering.Core

namespace Highlighting

open Act EditorM

/-! ### Editors with the same core -/

/-- Two tame editors with the same core. -/
structure Level (e f : Editor) : Prop where
  core : e.core = f.core
  left : e.Tame
  right : f.Tame

namespace Level

variable {e f : Editor}

theorem symm (h : Level e f) : Level f e := ⟨h.core.symm, h.right, h.left⟩

theorem left_moved {e' : Editor} (h : Level e f) (he : SameCore e e') : Level e' f :=
  ⟨he.core.trans h.core, he.tame, h.right⟩

theorem right_moved {f' : Editor} (h : Level e f) (hf : SameCore f f') : Level e f' :=
  (h.symm.left_moved hf).symm

/-- What is read off the core is the same. -/
theorem reads {α : Type} (h : Level e f) (g : Editor → α) (hg : ∀ e, g e.core = g e) :
    g f = g e := by
  rw [← hg f, ← h.core, hg]

end Level

/-- The change `g` of an editor is the change `G` of its core, and leaves tame what is tame. -/
structure Follows (g G : Editor → Editor) : Prop where
  core : ∀ e, (g e).core = G e.core
  tame : ∀ e, e.Tame → (g e).Tame

theorem Level.change {e f : Editor} {g g' G : Editor → Editor} (h : Level e f) (hg : Follows g G)
    (hg' : Follows g' G) : Level (g e) (g' f) where
  core := by rw [hg.core, hg'.core, h.core]
  left := hg.tame e h.left
  right := hg'.tame f h.right

/-- A change of what the core has as well. -/
theorem follows_same {g : Editor → Editor} (hcore : ∀ e, (g e).core = g e.core)
    (hsurfaces : ∀ e, (g e).surfaces = e.surfaces)
    (hresolvers : ∀ e, (g e).resolvers = e.resolvers) : Follows g g where
  core := hcore
  tame e he := he.of_same (hsurfaces e) (hresolvers e)

theorem follows_log (event : Event) : Follows (·.log event)
    fun e => if event.isCoordination = true then e.log event else e where
  core e := by
    by_cases h : event.isCoordination = true
    · rw [if_pos h, Editor.core_log e h]
    · rw [if_neg h, Editor.core_log_of_not e (Bool.eq_false_iff.mpr h)]
  tame e he := he.of_same rfl rfl

theorem follows_modifySlot (id : Nat) (f : Slot → Slot) :
    Follows (·.modifySlot id f) (·.modifySlot id f) :=
  follows_same (fun _ => rfl) (fun _ => rfl) fun _ => rfl

/-- Queueing a change is nothing to the core. -/
theorem follows_dispatch (j : Job) : Follows (·.dispatch j) fun e => e where
  core e := e.core_dispatch j
  tame e he := by
    unfold Editor.dispatch
    by_cases hclosed : e.queue.isClosed = true
    · rw [if_pos hclosed]
      exact he
    · rw [if_neg hclosed]
      exact he.of_same rfl rfl

theorem follows_worked (t : Token) (units : UInt32) :
    Follows (·.worked t units) (·.worked t units) :=
  follows_same (fun _ => rfl) (fun _ => rfl) fun _ => rfl

theorem follows_recordPass (slot : Option Nat) (r : Request) (o : Outcome) :
    Follows (·.recordPass slot r o) (·.recordPass slot r o) :=
  follows_same (fun e => e.core_recordPass slot r o) (fun _ => rfl) fun _ => rfl

theorem follows_enterGate (id : Nat) (inside : Gate (List Highlight)) :
    Follows (·.enterGate id inside) (·.enterGate id inside) :=
  follows_same (fun e => e.core_enterGate id inside) (fun _ => rfl) fun _ => rfl

theorem coreOfScripts_tail (scripts : List Script) :
    coreOfScripts scripts.tail = (coreOfScripts scripts).tail := by
  cases scripts <;> rfl

/-- A call of a resolver. -/
theorem follows_nextResolve (id : Nat) :
    Follows (·.modifyResolver id Resolver.next) (·.modifyResolver id Resolver.next) where
  core e := by
    refine e.core_modifyResolver (fun r => ?_) id
    simp only [Resolver.core, Resolver.next, coreOfScripts_tail]
  tame e he := by
    refine ⟨he.surfaces, fun r hr => ?_⟩
    obtain hmem | ⟨a, hmem, rfl⟩ := mem_modify hr
    · exact he.resolvers r hmem
    · have hall := (scriptsAreTame_iff _).mp (he.resolvers a hmem)
      exact (scriptsAreTame_iff _).mpr fun s hs => hall s (List.mem_of_mem_tail hs)

/-! ### Actions in unison -/

section

variable {α : Type} (V : α → α → Prop)

/-- Unless fuel ran out, the cores are the same in the end, and the results match. -/
def Accord (c c' : Course Editor Halt α) : Prop :=
  c.result ≠ .error .outOfFuel → c'.result ≠ .error .outOfFuel →
    Level c.last c'.last ∧ Matches V c.result c'.result

/-- Begun in tame editors with the same core, two actions accord. -/
def Unison (x x' : EditorM α) : Prop := ∀ e f, Level e f → Accord V (x e) (x' f)

end

variable {α β : Type} {V : α → α → Prop} {W : β → β → Prop} {e f : Editor}

theorem unison_pure {a b : α} (h : V a b) : Unison V (pure a) (pure b) :=
  fun _ _ hlevel _ _ => ⟨hlevel, .ok h⟩

theorem unison_halt (h : Halt) : Unison V (halt h) (halt h) :=
  fun _ _ hlevel _ _ => ⟨hlevel, .error h⟩

theorem unison_look : Unison Eq look look := fun _ _ hlevel _ _ => ⟨hlevel, .ok rfl⟩

theorem unison_modify {g g' G : Editor → Editor} (hg : Follows g G) (hg' : Follows g' G) :
    Unison Eq (modify g) (modify g') := fun _ _ hlevel _ _ => ⟨hlevel.change hg hg', .ok rfl⟩

theorem unison_modifyGet {g g' : Editor → α × Editor}
    (h : ∀ e f, Level e f → Level (g e).2 (g' f).2 ∧ (g e).1 = (g' f).1) :
    Unison Eq (modifyGet g) (modifyGet g') := fun e f hlevel _ _ =>
  ⟨(h e f hlevel).1, .ok (h e f hlevel).2⟩

theorem unison_get_bind {k k' : Editor → EditorM α} (h : ∀ e f, Level e f → Unison V (k e) (k' f)) :
    Unison V (get >>= k) (get >>= k') := by
  intro e f hlevel
  rw [get_bind_apply, get_bind_apply]
  exact h e f hlevel e f hlevel

theorem Unison.mono {x x' : EditorM α} {V' : α → α → Prop} (h : Unison V x x')
    (hV : ∀ a b, V a b → V' a b) : Unison V' x x' := by
  intro e f hlevel hfuel hfuel'
  obtain ⟨hlast, hmatch⟩ := h e f hlevel hfuel hfuel'
  exact ⟨hlast, hmatch.imp hV⟩

theorem Accord.bind {x x' : EditorM α} {k k' : α → EditorM β} (hx : Accord V (x e) (x' f))
    (hk : ∀ a b, V a b → Unison W (k a) (k' b)) : Accord W ((x >>= k) e) ((x' >>= k') f) := by
  intro hfuel hfuel'
  obtain ⟨hlast, hmatch⟩ := hx (ne_outOfFuel_of_bind hfuel) (ne_outOfFuel_of_bind hfuel')
  rcases hxe : x e with ⟨seen, r, e'⟩
  rcases hxf : x' f with ⟨seen', r', f'⟩
  rw [hxe, hxf] at hlast hmatch
  cases hmatch with
  | error h =>
      rw [bind_of_error hxe, bind_of_error hxf]
      exact ⟨hlast, .error h⟩
  | ok hab =>
      rw [bind_of_ok hxe] at hfuel ⊢
      rw [bind_of_ok hxf] at hfuel' ⊢
      exact hk _ _ hab e' f' hlast hfuel hfuel'

theorem Unison.bind {x x' : EditorM α} {k k' : α → EditorM β} (hx : Unison V x x')
    (hk : ∀ a b, V a b → Unison W (k a) (k' b)) : Unison W (x >>= k) (x' >>= k') :=
  fun e f hlevel => (hx e f hlevel).bind hk

/-- Rendering before one of the actions makes no difference. -/
theorem Accord.left {x : EditorM α} {k : α → EditorM β} {c : Course Editor Halt β}
    (hx : Aloof x e) (hk : ∀ a e', SameCore e e' → Accord W (k a e') c) :
    Accord W ((x >>= k) e) c := by
  intro hfuel hfuel'
  have hne := ne_outOfFuel_of_bind hfuel
  obtain ⟨-, hhalts, hsame⟩ := hx
  rcases hxe : x e with ⟨seen, r, e'⟩
  rw [hxe] at hne hhalts hsame
  cases r with
  | error h => exact absurd (congrArg _ (hhalts h rfl)) hne
  | ok a =>
      rw [bind_of_ok hxe] at hfuel ⊢
      exact hk a e' hsame hfuel hfuel'

theorem Accord.symm {c c' : Course Editor Halt α} (h : Accord V c c') :
    Accord (fun a b => V b a) c' c := by
  intro hfuel hfuel'
  obtain ⟨hlast, hmatch⟩ := h hfuel' hfuel
  exact ⟨hlast.symm, hmatch.flip⟩

theorem Accord.right {x : EditorM α} {k : α → EditorM β} {c : Course Editor Halt β}
    (hx : Aloof x f) (hk : ∀ a f', SameCore f f' → Accord W c (k a f')) :
    Accord W c ((x >>= k) f) :=
  Accord.symm (Accord.left hx fun a f' hsame => (hk a f' hsame).symm)

/-- Actions that are tried.  What follows must not go on when fuel ran out. -/
theorem Unison.attempt_bind {x x' : EditorM α} {k k' : Except Halt α → EditorM β}
    (hx : Unison V x x') (hk : ∀ r r', Matches V r r' → Unison W (k r) (k' r'))
    (hstop : ∀ e, (k (.error .outOfFuel) e).result = .error .outOfFuel)
    (hstop' : ∀ e, (k' (.error .outOfFuel) e).result = .error .outOfFuel) :
    Unison W (attempt x >>= k) (attempt x' >>= k') := by
  intro e f hlevel hfuel hfuel'
  have hne : (x e).result ≠ .error .outOfFuel := by
    intro hr
    refine hfuel ?_
    show (k (x e).result (x e).last).result = _
    rw [hr]
    exact hstop _
  have hne' : (x' f).result ≠ .error .outOfFuel := by
    intro hr
    refine hfuel' ?_
    show (k' (x' f).result (x' f).last).result = _
    rw [hr]
    exact hstop' _
  obtain ⟨hlast, hmatch⟩ := hx e f hlevel hne hne'
  exact hk _ _ hmatch _ _ hlast hfuel hfuel'

theorem Unison.ensuring {x x' : EditorM α} {g G : Editor → Editor} (hx : Unison V x x')
    (hg : Follows g G) : Unison V (ensuring x g) (ensuring x' g) := by
  intro e f hlevel hfuel hfuel'
  obtain ⟨hlast, hmatch⟩ := hx e f hlevel hfuel hfuel'
  exact ⟨hlast.change hg hg, hmatch⟩

theorem Unison.catching {x x' : EditorM α} (hx : Unison V x x') :
    Unison (Matches V) (EditorM.catching x) (EditorM.catching x') := by
  refine hx.attempt_bind (fun r r' hmatch => ?_) (fun _ => rfl) fun _ => rfl
  cases hmatch with
  | ok h => exact unison_pure (.ok h)
  | error h =>
      cases h with
      | panic p => exact unison_pure (.error p)
      | emptyMark | outOfFuel => exact unison_halt _

theorem Unison.mapM {k k' : α → EditorM β} (h : ∀ a, Unison Eq (k a) (k' a)) (xs : List α) :
    Unison Eq (xs.mapM k) (xs.mapM k') := by
  induction xs with
  | nil =>
      rw [List.mapM_nil, List.mapM_nil]
      exact unison_pure rfl
  | cons a rest ih =>
      rw [List.mapM_cons, List.mapM_cons]
      refine (h a).bind fun b b' hb => ih.bind fun bs bs' hbs => unison_pure ?_
      rw [hb, hbs]

theorem unison_log (event : Event) : Unison Eq (EditorM.log event) (EditorM.log event) :=
  unison_modify (follows_log event) (follows_log event)

/-! ### Passes -/

/-- Two ways to carry out scripts are in unison on those that are the same but for rendering. -/
structure Concerted (run run' : Script → EditorM Unit) : Prop where
  idle : Idle run
  idle' : Idle run'
  scripts : ∀ script script', coreOfScript script = coreOfScript script' →
    scriptIsTame script = true → scriptIsTame script' = true →
      Unison Eq (run script) (run' script')

variable {run run' : Script → EditorM Unit}

theorem isLive_unison (hrun : Concerted run run') (t : Target) :
    Unison Eq (isLive run t) (isLive run' t) := by
  intro e f hlevel _ _
  obtain ⟨-, hresult, hsame⟩ := isLive_tame hrun.idle hlevel.left t
  obtain ⟨-, hresult', hsame'⟩ := isLive_tame hrun.idle' hlevel.right t
  refine ⟨(hlevel.left_moved hsame).right_moved hsame', ?_⟩
  rw [hresult, hresult', hlevel.reads (·.isTornDown t) fun _ => rfl,
    hlevel.reads (·.isThere t.surface) fun e => e.isThere_core _]
  exact .ok rfl

theorem coreOfScript_headD (scripts : List Script) :
    coreOfScript (scripts.headD []) = (coreOfScripts scripts).headD [] := by
  cases scripts <;> rfl

theorem Editor.Tame.script (h : e.Tame) {id : Nat} {r : Resolver} (hr : e.resolvers[id]? = some r) :
    scriptIsTame (r.onResolve.headD []) = true := by
  have htame := h.resolvers r (List.mem_of_getElem? hr)
  cases hscripts : r.onResolve with
  | nil => rfl
  | cons script rest =>
      rw [hscripts, scriptsAreTame_iff] at htame
      exact htame script List.mem_cons_self

theorem Level.resolver (h : Level e f) (id : Nat) :
    e.resolvers[id]?.map Resolver.core = f.resolvers[id]?.map Resolver.core := by
  have hresolvers : e.resolvers.map Resolver.core = f.resolvers.map Resolver.core :=
    congrArg Editor.resolvers h.core
  rw [← List.getElem?_map, ← List.getElem?_map, hresolvers]

theorem resolveStyle_unison (hrun : Concerted run run') (id : Nat) (kind : Kind) :
    Unison Eq (resolveStyle run id kind) (resolveStyle run' id kind) := by
  refine unison_get_bind fun e f hlevel => ?_
  have hresolver := hlevel.resolver id
  cases hr : e.resolvers[id]? with
  | none =>
      rw [hr] at hresolver
      rw [Option.map_eq_none_iff.mp hresolver.symm]
      exact unison_pure rfl
  | some r =>
      rw [hr] at hresolver
      obtain ⟨r', hr', hcore⟩ := Option.map_eq_some_iff.mp hresolver.symm
      have hstyle : r'.core.style kind = r.core.style kind := congrArg (Resolver.style · kind) hcore
      have hscripted : r'.core.scripted = r.core.scripted := congrArg Resolver.scripted hcore
      have hscripts : r'.core.onResolve = r.core.onResolve := congrArg Resolver.onResolve hcore
      change r'.style kind = r.style kind at hstyle
      simp only [Resolver.core] at hscripted hscripts
      have hcall := unison_modify (follows_nextResolve id) (follows_nextResolve id)
      rw [hr']
      dsimp only
      rw [hstyle, hscripted]
      by_cases hs : r.scripted = true
      · rw [if_pos hs, if_pos hs]
        have hscript : Unison Eq (run (r.onResolve.headD [])) (run' (r'.onResolve.headD [])) :=
          hrun.scripts _ _ (by rw [coreOfScript_headD, coreOfScript_headD, hscripts])
            (hlevel.left.script hr) (hlevel.right.script hr')
        refine (unison_log _).bind fun _ _ _ => hcall.bind fun _ _ _ => ?_
        exact hscript.bind fun _ _ _ => unison_pure rfl
      · rw [if_neg hs, if_neg hs]
        exact hcall.bind fun _ _ _ => unison_pure rfl

theorem wantedHighlights_unison (hrun : Concerted run run') (id : Nat) (tree : SyntaxTree) :
    Unison Eq (wantedHighlights run id tree) (wantedHighlights run' id tree) := by
  refine unison_get_bind fun e f hlevel => ?_
  rw [hlevel.reads (·.policy) fun _ => rfl]
  refine Unison.mapM (fun m => ?_) _
  refine (resolveStyle_unison hrun id m.kind).bind fun style style' hstyle => ?_
  exact unison_pure (by rw [hstyle])

theorem unison_work (t : Token) (units : UInt32) :
    Unison Eq (EditorM.work t units) (EditorM.work t units) :=
  unison_modify (follows_worked t units) (follows_worked t units)

theorem publish_fst (e f : Editor) (id : Nat) (t : Target) (wanted : List Highlight) (delta : Delta)
    (next : List Highlight) :
    (e.publish id t wanted delta next).1 = (f.publish id t wanted delta next).1 := by
  unfold Editor.publish
  by_cases hempty : delta.isEmpty = true
  · rw [if_pos hempty, if_pos hempty]
  · rw [if_neg hempty, if_neg hempty]

theorem follows_publish (id : Nat) (t : Target) (wanted : List Highlight) (delta : Delta)
    (next : List Highlight) : Follows (fun e => (e.publish id t wanted delta next).2) fun e =>
      (e.modifySlot id fun s => { s with gate := s.gate.set next, snapshot := next }).log
        (.settled id wanted) where
  core e := e.core_publish id t wanted delta next
  tame e he := by
    have hset := (follows_log (.settled id wanted)).tame _ ((follows_modifySlot id
      fun s => { s with gate := s.gate.set next, snapshot := next }).tame e he)
    unfold Editor.publish
    by_cases hempty : delta.isEmpty = true
    · rw [if_pos hempty]
      exact hset
    · rw [if_neg hempty]
      exact (follows_dispatch _).tame _ hset

/-- Stopping a pass that was interrupted is in unison if going on is. -/
theorem unison_unlessInterrupted {token : Token} {t : Target} {outcome : Outcome}
    {x x' : EditorM Outcome} (h : Unison Eq x x') :
    Unison Eq (do if (← Act.get).isInterrupted token t then return outcome else x)
      (do if (← Act.get).isInterrupted token t then return outcome else x') := by
  refine unison_get_bind fun e f hlevel => ?_
  rw [hlevel.reads (·.isInterrupted token t) fun _ => rfl]
  by_cases hstop : e.isInterrupted token t = true
  · rw [if_pos hstop, if_pos hstop]
    exact unison_pure rfl
  · rw [if_neg hstop, if_neg hstop]
    exact h

theorem reconcileWith_unison (hrun : Concerted run run') (id : Nat) (t : Target) (token : Token)
    (wanted : List Highlight) :
    Unison Eq (reconcileWith run id t token wanted) (reconcileWith run' id t token wanted) := by
  unfold reconcileWith
  refine (unison_work _ _).bind fun _ _ _ => unison_unlessInterrupted ?_
  refine unison_get_bind fun e f hlevel => ?_
  rw [hlevel.reads (·.gateValue id) fun _ => rfl]
  refine (unison_work _ _).bind fun _ _ _ => unison_unlessInterrupted ?_
  refine (unison_work _ _).bind fun _ _ _ => unison_unlessInterrupted ?_
  refine (isLive_unison hrun t).bind fun live live' hlive => ?_
  subst hlive
  cases live with
  | false => exact unison_pure rfl
  | true =>
      refine unison_unlessInterrupted ?_
      refine (unison_modifyGet fun e f hlevel => ⟨?_, publish_fst e f _ _ _ _ _⟩).bind
        fun outcome outcome' houtcome => ?_
      · exact hlevel.change (follows_publish _ _ _ _ _) (follows_publish _ _ _ _ _)
      · exact (unison_work _ _).bind fun _ _ _ => unison_pure houtcome

theorem passInside_unison (hrun : Concerted run run') (id : Nat) (s : Slot) (r : Request) :
    Unison Eq (passInside run id s r) (passInside run' id s r) := by
  unfold passInside
  refine (unison_work _ _).bind fun _ _ _ => ?_
  refine (wantedHighlights_unison hrun s.resolver r.tree).catching.bind fun x x' hmatch => ?_
  cases hmatch with
  | error p => exact unison_pure rfl
  | ok hwanted =>
      rw [hwanted]
      exact reconcileWith_unison hrun _ _ _ _

/-- **A pass does not depend on rendering.** -/
theorem reconcile_unison (hrun : Concerted run run') (r : Request) :
    Unison Eq (reconcile run r) (reconcile run' r) := by
  have hrecord : ∀ slot outcome, Unison Eq
      (do Act.modify (·.recordPass slot r outcome); return outcome : EditorM Outcome)
      (do Act.modify (·.recordPass slot r outcome); return outcome) := fun slot outcome =>
    (unison_modify (follows_recordPass _ _ _) (follows_recordPass _ _ _)).bind
      fun _ _ _ => unison_pure rfl
  unfold reconcile
  refine unison_get_bind fun e f hlevel => ?_
  rw [hlevel.reads (·.slot? r.doc) fun _ => rfl]
  cases e.slot? r.doc with
  | none => exact hrecord _ _
  | some found =>
      obtain ⟨id, s⟩ := found
      dsimp only
      cases s.gate.enter? with
      | none => exact hrecord _ _
      | some inside =>
          refine (unison_modify (follows_enterGate id inside) (follows_enterGate id inside)).bind
            fun _ _ _ => ?_
          have hpass : Unison Eq (Act.ensuring (passInside run id s r) (·.leaveGate id))
              (Act.ensuring (passInside run' id s r) (·.leaveGate id)) :=
            (passInside_unison hrun id s r).ensuring (follows_modifySlot id _)
          refine hpass.attempt_bind (fun result result' hmatch => ?_) (fun _ => rfl) fun _ => rfl
          cases hmatch with
          | ok houtcome =>
              subst houtcome
              exact hrecord _ _
          | error h =>
              cases h with
              | panic p => exact (unison_log _).bind fun _ _ _ => unison_halt _
              | emptyMark | outOfFuel => exact unison_halt _

end Highlighting
