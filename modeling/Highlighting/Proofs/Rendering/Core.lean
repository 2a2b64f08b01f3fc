/-
The editor without its render side.

What is rendered, and when, is a matter of the queue, of the scripts surfaces run, and
of what the journal tells of both.  The core of an editor is what remains without
them.  It is an editor itself, and every change of an editor is a change of its core,
or none at all: rendering leaves the core alone, as long as surfaces do nothing but
answer, or panic over a change.
-/
import Highlighting.Proofs.Editor.Session

namespace Highlighting

open Act EditorM

/-! ### Commands without rendering -/

namespace Command

/-- Whether a command renders what is queued, or drops the queue, and does nothing else. -/
def isRendering : Command → Bool
  | drain | dropQueue => true
  | _ => false

/-- Whether the answer to a command depends on the queue. -/
def isOfQueue : Command → Bool
  | dispatch .. | isClosed | drain | dropQueue | finish => true
  | _ => false

def isPanic : Command → Bool
  | panic _ => true
  | _ => false

end Command

mutual

/-- A command whose scripts render nothing. -/
def Command.core : Command → Command
  | .install doc surface styles scripted onResolve =>
    .install doc surface styles scripted (coreOfScripts onResolve)
  | c => c

/-- A script without the commands that only render. -/
def coreOfScript : List Command → List Command
  | [] => []
  | c :: rest => if c.isRendering then coreOfScript rest else c.core :: coreOfScript rest

def coreOfScripts : List (List Command) → List (List Command)
  | [] => []
  | s :: rest => coreOfScript s :: coreOfScripts rest

end

mutual

/-- Whether all surfaces a command declares do nothing when asked, and at most panic when they are
given a change. -/
def Command.isTame : Command → Bool
  | .surface _ onLive onApply _ =>
    onLive.all List.isEmpty && onApply.all fun s => s.all Command.isPanic
  | .install _ _ _ _ onResolve => scriptsAreTame onResolve
  | _ => true

def scriptIsTame : List Command → Bool
  | [] => true
  | c :: rest => c.isTame && scriptIsTame rest

def scriptsAreTame : List (List Command) → Bool
  | [] => true
  | s :: rest => scriptIsTame s && scriptsAreTame rest

end

theorem isOfQueue_of_rendering {c : Command} (h : c.isRendering = true) : c.isOfQueue = true := by
  cases c with
  | drain | dropQueue => rfl
  | _ => exact absurd h (by simp [Command.isRendering])

theorem name_of_core {c c' : Command} (h : c.core = c'.core) : c.name = c'.name := by
  have hname : ∀ c : Command, c.core.name = c.name := by
    intro c
    cases c <;> rfl
  rw [← hname c, h, hname]

theorem isOfQueue_of_core {c c' : Command} (h : c.core = c'.core) : c.isOfQueue = c'.isOfQueue := by
  have hsame : ∀ c : Command, c.core.isOfQueue = c.isOfQueue := by
    intro c
    cases c <;> rfl
  rw [← hsame c, h, hsame]

theorem scriptIsTame_iff (script : Script) :
    scriptIsTame script = true ↔ ∀ c ∈ script, c.isTame = true := by
  induction script with
  | nil => simp [scriptIsTame]
  | cons c rest ih => simp [scriptIsTame, ih]

theorem scriptsAreTame_iff (scripts : List Script) :
    scriptsAreTame scripts = true ↔ ∀ s ∈ scripts, scriptIsTame s = true := by
  induction scripts with
  | nil => simp [scriptsAreTame]
  | cons s rest ih => simp [scriptsAreTame, ih]

/-! ### The core of an editor -/

/-- The names of the commands whose answers depend on the queue. -/
def queueCommands : List String := ["dispatch", "is_closed", "drain", "drop_queue", "finish"]

/-- Whether an event is of the coordinator's side. -/
def Event.isCoordination : Event → Bool
  | resolved .. | tornDown .. | entered .. | ended .. | settled .. | unwound .. | reported .. => true
  | answered command _ => !queueCommands.contains command
  | _ => false

theorem isCoordination_answered (c : Command) (a : Answer) :
    (Event.answered c.name a).isCoordination = !c.isOfQueue := by
  cases c <;> rfl

/-- A surface without its scripts. -/
def Surface.face (s : Surface) : Surface := { s with onLive := [], onApply := [] }

/-- A resolver whose scripts render nothing. -/
def Resolver.core (r : Resolver) : Resolver := { r with onResolve := coreOfScripts r.onResolve }

namespace Editor

/-- The editor without its render side. -/
def core (e : Editor) : Editor :=
  { e with
    surfaces := e.surfaces.map Surface.face
    resolvers := e.resolvers.map Resolver.core
    queue := {}
    journal := e.journal.filter Event.isCoordination }

section Changes

variable (e : Editor)

theorem core_log {event : Event} (h : event.isCoordination = true) :
    (e.log event).core = e.core.log event := by
  unfold core log
  rw [List.filter_cons_of_pos h]

theorem core_log_of_not {event : Event} (h : event.isCoordination = false) :
    (e.log event).core = e.core := by
  unfold core log
  rw [List.filter_cons_of_neg (by simp [h])]

theorem core_modifySurface {f g : Surface → Surface} (h : ∀ s, (f s).face = g s.face) (id : Nat) :
    (e.modifySurface id f).core = e.core.modifySurface id g := by
  unfold core modifySurface
  rw [map_modify h]

/-- Taking a script off a surface is not seen in the core. -/
theorem core_modifySurface_same {f : Surface → Surface} (h : ∀ s, (f s).face = s.face) (n : Nat) :
    (e.modifySurface n f).core = e.core := by
  unfold core modifySurface
  rw [map_modify_of_const h]

theorem core_modifyResolver {f g : Resolver → Resolver} (h : ∀ r, (f r).core = g r.core)
    (id : Nat) : (e.modifyResolver id f).core = e.core.modifyResolver id g := by
  unfold core modifyResolver
  rw [map_modify h]

theorem core_dispatch (j : Job) : (e.dispatch j).core = e.core := by
  unfold dispatch
  split
  · rfl
  · exact core_log_of_not { e with queue := e.queue.push j } rfl

theorem core_tearDown (id : Nat) : (e.tearDown id).core = e.core.tearDown id := by
  unfold tearDown
  rw [show e.core.slots = e.slots from rfl]
  cases e.slots[id]? with
  | none => rfl
  | some s => exact core_log { e with tokens := e.tokens.cancel s.target.lifetime } rfl

theorem core_addSlot (doc : DocumentId) (surface : Nat) (r : Resolver) :
    (e.addSlot doc surface r).core = e.core.addSlot doc surface r.core := by
  have hlength : (e.resolvers.map Resolver.core).length = e.resolvers.length := List.length_map _
  unfold addSlot core
  simp only [List.map_append, List.map_cons, List.map_nil, hlength]

theorem core_install (doc : DocumentId) (surface : Nat) (r : Resolver) :
    (e.install doc surface r).core = e.core.install doc surface r.core := by
  unfold install
  rw [show e.core.documents = e.documents from rfl]
  cases e.documents.get? doc with
  | none => exact core_addSlot e doc surface r
  | some id =>
      show ((e.addSlot doc surface r).tearDown id).core = _
      rw [core_tearDown, core_addSlot]

theorem core_uninstall (doc : DocumentId) :
    (e.uninstall doc).2.core = (e.core.uninstall doc).2 ∧
      (e.uninstall doc).1 = (e.core.uninstall doc).1 := by
  unfold uninstall
  rw [show e.core.documents = e.documents from rfl]
  cases e.documents.get? doc with
  | none => exact ⟨rfl, rfl⟩
  | some id => exact ⟨core_tearDown { e with documents := e.documents.erase doc } id, rfl⟩

theorem core_publish (id : Nat) (t : Target) (wanted : List Highlight) (delta : Delta)
    (next : List Highlight) : (e.publish id t wanted delta next).2.core =
      (e.core.modifySlot id fun s => { s with gate := s.gate.set next, snapshot := next }).log
        (.settled id wanted) := by
  have hsettled := core_log (e.modifySlot id fun s =>
    { s with gate := s.gate.set next, snapshot := next })
    (show (Event.settled id wanted).isCoordination = true from rfl)
  unfold publish
  by_cases hempty : delta.isEmpty = true
  · rw [if_pos hempty]
    exact hsettled
  · rw [if_neg hempty]
    exact (core_dispatch _ _).trans hsettled

theorem core_recordPass (slot : Option Nat) (r : Request) (o : Outcome) :
    (e.recordPass slot r o).core = e.core.recordPass slot r o :=
  core_log { e with metrics := e.metrics.record o .zero } rfl

theorem core_enterGate (id : Nat) (inside : Gate (List Highlight)) :
    (e.enterGate id inside).core = e.core.enterGate id inside :=
  core_log (e.modifySlot id fun s => { s with gate := inside }) rfl

theorem core_declareSurface (name : String) (s : Surface) :
    (e.declareSurface name s).core = e.core.declareSurface name s.face := by
  have hlength : (e.surfaces.map Surface.face).length = e.surfaces.length := List.length_map _
  unfold declareSurface core
  simp only [List.map_append, List.map_cons, List.map_nil, hlength]

end Changes

end Editor

/-! ### Tame editors -/

/-- A surface that does nothing when asked, and at most panics when it is given a change. -/
structure Surface.Tame (s : Surface) : Prop where
  live : ∀ script ∈ s.onLive, script = []
  apply : ∀ script ∈ s.onApply, ∀ c ∈ script, c.isPanic = true

/-- All surfaces are tame, and so are those that scripts will declare. -/
structure Editor.Tame (e : Editor) : Prop where
  surfaces : ∀ s ∈ e.surfaces, s.Tame
  resolvers : ∀ r ∈ e.resolvers, scriptsAreTame r.onResolve = true

theorem mem_headD {α : Type} {l : List (List α)} {a : α} (h : a ∈ l.headD []) : l.headD [] ∈ l := by
  cases l with
  | nil => exact absurd h List.not_mem_nil
  | cons b rest => exact List.mem_cons_self

theorem mem_modify {α : Type} {l : List α} {i : Nat} {f : α → α} {b : α} (h : b ∈ l.modify i f) :
    b ∈ l ∨ ∃ a ∈ l, b = f a := by
  obtain ⟨j, hj⟩ := List.mem_iff_getElem?.mp h
  rw [List.getElem?_modify] at hj
  obtain ⟨a, ha, hb⟩ := Option.map_eq_some_iff.mp hj
  have hmem : a ∈ l := List.mem_of_getElem? ha
  by_cases hij : i = j
  · rw [if_pos hij] at hb
    exact Or.inr ⟨a, hmem, hb.symm⟩
  · rw [if_neg hij] at hb
    exact Or.inl (hb ▸ hmem)

namespace Editor.Tame

variable {e e' : Editor}

theorem of_same (h : e.Tame) (hsurfaces : e'.surfaces = e.surfaces)
    (hresolvers : e'.resolvers = e.resolvers) : e'.Tame where
  surfaces := hsurfaces ▸ h.surfaces
  resolvers := hresolvers ▸ h.resolvers

theorem modifySurface (h : e.Tame) (id : Nat) {f : Surface → Surface}
    (hf : ∀ s, s.Tame → (f s).Tame) : (e.modifySurface id f).Tame where
  surfaces := by
    intro s hs
    obtain hmem | ⟨a, hmem, rfl⟩ := mem_modify hs
    · exact h.surfaces s hmem
    · exact hf a (h.surfaces a hmem)
  resolvers := h.resolvers

theorem tearDown (h : e.Tame) (id : Nat) : (e.tearDown id).Tame := by
  unfold Editor.tearDown
  cases e.slots[id]? with
  | none => exact h
  | some s => exact h.of_same rfl rfl

theorem install (h : e.Tame) (doc : DocumentId) (surface : Nat) {r : Resolver}
    (hr : scriptsAreTame r.onResolve = true) : (e.install doc surface r).Tame := by
  have hadd : (e.addSlot doc surface r).Tame := by
    refine ⟨h.surfaces, fun a ha => ?_⟩
    obtain hmem | hnew := List.mem_append.mp ha
    · exact h.resolvers a hmem
    · exact List.mem_singleton.mp hnew ▸ hr
  unfold Editor.install
  cases e.documents.get? doc with
  | none => exact hadd
  | some id => exact hadd.tearDown id

theorem uninstall (h : e.Tame) (doc : DocumentId) : (e.uninstall doc).2.Tame := by
  unfold Editor.uninstall
  cases e.documents.get? doc with
  | none => exact h
  | some id =>
      have herase : { e with documents := e.documents.erase doc }.Tame := h.of_same rfl rfl
      exact herase.tearDown id

theorem declareSurface (h : e.Tame) (name : String) {s : Surface} (hs : s.Tame) :
    (e.declareSurface name s).Tame := by
  refine ⟨fun a ha => ?_, h.resolvers⟩
  obtain hmem | hnew := List.mem_append.mp ha
  · exact h.surfaces a hmem
  · exact List.mem_singleton.mp hnew ▸ hs

end Editor.Tame

theorem Surface.Tame.nextLive {s : Surface} (h : s.Tame) : s.nextLive.Tame where
  live script hscript := h.live script (List.mem_of_mem_tail hscript)
  apply := h.apply

theorem Surface.Tame.nextApply {s : Surface} (h : s.Tame) : s.nextApply.Tame where
  live := h.live
  apply script hscript := h.apply script (List.mem_of_mem_tail hscript)

/-! ### Rendering leaves the core alone -/

/-- Nothing of the core changed. -/
structure SameCore (e e' : Editor) : Prop where
  core : e'.core = e.core
  tame : e'.Tame

theorem SameCore.trans {e e' e'' : Editor} (h : SameCore e e') (h' : SameCore e' e'') :
    SameCore e e'' :=
  ⟨h'.core.trans h.core, h'.tame⟩

/-- Carrying out a script that only panics changes nothing; an empty one is carried out. -/
def Idle (run : Script → EditorM Unit) : Prop :=
  ∀ script, (∀ c ∈ script, c.isPanic = true) → ∀ e, (run script e).last = e ∧
    ∀ h, (run script e).result = .error h → script ≠ [] ∧ (h = .outOfFuel ∨ ∃ p, h = .panic p)

theorem execute_idle (fuel : Nat) : Idle (execute fuel) := by
  intro script hscript e
  cases script with
  | nil => cases fuel <;> exact ⟨rfl, fun h hresult => nomatch (hresult : Except.ok () = _)⟩
  | cons c rest =>
      have hne : c :: rest ≠ [] := List.cons_ne_nil c rest
      cases fuel with
      | zero => exact ⟨rfl, fun h hresult => ⟨hne, Or.inl (Except.error.inj hresult).symm⟩⟩
      | succ fuel =>
          cases c with
          | panic p =>
              exact ⟨rfl, fun h hresult => ⟨hne, Or.inr ⟨p, (Except.error.inj hresult).symm⟩⟩⟩
          | _ => exact absurd (hscript _ List.mem_cons_self) (by simp [Command.isPanic])

/-- Whether a surface says that its views are there. -/
def Editor.isThere (e : Editor) (id : Nat) : Bool :=
  match e.surfaces[id]? with
  | some s => s.alwaysLive || !s.disposed
  | none => false

theorem Editor.isThere_core (e : Editor) (id : Nat) : e.core.isThere id = e.isThere id := by
  unfold Editor.isThere Editor.core
  rw [List.getElem?_map]
  cases e.surfaces[id]? <;> rfl

variable {run : Script → EditorM Unit} {e : Editor}

/-- Telling of a call of a surface and taking its next script. -/
theorem sameCore_call (he : e.Tame) {event : Event} (hevent : event.isCoordination = false)
    (id : Nat) {f : Surface → Surface} (hface : ∀ s, (f s).face = s.face)
    (hf : ∀ s, s.Tame → (f s).Tame) : SameCore e ((e.log event).modifySurface id f) where
  core := by rw [Editor.core_modifySurface_same _ hface, Editor.core_log_of_not _ hevent]
  tame :=
    have hlog : (e.log event).Tame := he.of_same rfl rfl
    hlog.modifySurface id hf

theorem askSurface_tame (hrun : Idle run) (he : e.Tame) (id : Nat) (doc : DocumentId) :
    Ensures (askSurface run id doc) e (fun _ => True)
      fun r e' => r = .ok (e.isThere id) ∧ SameCore e e' := by
  unfold askSurface Editor.isThere
  rw [ensures_bind, ensures_get, next_ok]
  cases hs : e.surfaces[id]? with
  | none =>
      rw [ensures_pure]
      exact ⟨rfl, rfl, he⟩
  | some s =>
      dsimp only
      by_cases halways : s.alwaysLive = true
      · rw [if_pos halways, ensures_pure, halways]
        exact ⟨rfl, rfl, he⟩
      · -- the surface has nothing to do before it answers
        have hscript : s.onLive.headD [] = [] := by
          cases hlive : s.onLive with
          | nil => rfl
          | cons script rest =>
              exact (he.surfaces s (List.mem_of_getElem? hs)).live script (by simp [hlive])
        rw [if_neg halways, ensures_bind, EditorM.log, ensures_modify, next_ok, ensures_bind,
          ensures_modify, next_ok, ensures_bind, hscript]
        have hsame : SameCore e ((e.log (.asked s.name doc)).modifySurface id Surface.nextLive) :=
          sameCore_call he rfl id (fun _ => rfl) fun _ h => h.nextLive
        generalize hasked : (e.log (.asked s.name doc)).modifySurface id Surface.nextLive = asked
          at hsame ⊢
        obtain ⟨hlast, hresult⟩ := hrun [] (by simp) asked
        refine ⟨fun _ _ => trivial, ?_⟩
        rw [hlast]
        cases hok : (run [] asked).result with
        | error h => exact absurd rfl (hresult h hok).1
        | ok =>
            rw [next_ok, ensures_bind, ensures_get, next_ok, ensures_pure]
            have hget : asked.surfaces[id]? = some s.nextLive := by
              rw [← hasked]
              simp [Editor.modifySurface, Editor.log, hs]
            rw [hget]
            refine ⟨?_, hsame⟩
            simp [halways, Surface.nextLive]

theorem isLive_tame (hrun : Idle run) (he : e.Tame) (t : Target) :
    Ensures (isLive run t) e (fun _ => True)
      fun r e' => r = .ok (!e.isTornDown t && e.isThere t.surface) ∧ SameCore e e' := by
  unfold isLive
  rw [ensures_bind, ensures_get, next_ok]
  by_cases htorn : e.isTornDown t = true
  · rw [if_pos htorn, ensures_pure, htorn]
    exact ⟨rfl, rfl, he⟩
  · rw [if_neg htorn, Bool.eq_false_iff.mpr htorn]
    exact askSurface_tame hrun he t.surface t.doc

/-- The action is carried out and nothing of the core changes, unless fuel runs out. -/
def Aloof {α : Type} (x : EditorM α) (e : Editor) : Prop :=
  Ensures x e (fun _ => True) fun r e' => (∀ h, r = .error h → h = .outOfFuel) ∧ SameCore e e'

section Aloof

variable {α β : Type} {x : EditorM α}

theorem aloof_pure (he : e.Tame) (a : α) : Aloof (pure a) e := by
  unfold Aloof
  rw [ensures_pure]
  exact ⟨by simp, rfl, he⟩

theorem aloof_outOfFuel (he : e.Tame) : Aloof (halt .outOfFuel : EditorM α) e := by
  unfold Aloof
  rw [ensures_halt]
  exact ⟨by simp, rfl, he⟩

theorem aloof_modify {g : Editor → Editor} (h : SameCore e (g e)) : Aloof (modify g) e := by
  unfold Aloof
  rw [ensures_modify]
  exact ⟨by simp, h⟩

theorem aloof_look (he : e.Tame) : Aloof look e := by
  unfold Aloof
  rw [ensures_look]
  exact ⟨trivial, by simp, rfl, he⟩

theorem Aloof.after {e' : Editor} (hx : Aloof x e') (h : SameCore e e') :
    Ensures x e' (fun _ => True) fun r e'' =>
      (∀ h, r = .error h → h = .outOfFuel) ∧ SameCore e e'' :=
  Ensures.mono hx (fun _ _ => trivial) fun _ _ hr => ⟨hr.1, h.trans hr.2⟩

theorem Aloof.bind {k : α → EditorM β} (hx : Aloof x e)
    (hk : ∀ a e', SameCore e e' → Aloof (k a) e') : Aloof (x >>= k) e := by
  unfold Aloof
  rw [ensures_bind]
  refine Ensures.mono hx (fun _ _ => trivial) fun r e' hr => ?_
  obtain ⟨hhalts, hsame⟩ := hr
  cases r with
  | error h => exact ⟨by simpa using hhalts, hsame⟩
  | ok a =>
      rw [next_ok]
      exact (hk a e' hsame).after hsame

theorem Aloof.get_bind {k : Editor → EditorM α} (h : Aloof (k e) e) : Aloof (get >>= k) e := by
  unfold Aloof
  rw [ensures_bind, ensures_get, next_ok]
  exact h

theorem Aloof.ensuring {g : Editor → Editor} (hx : Aloof x e)
    (hg : ∀ e', e'.Tame → SameCore e' (g e')) : Aloof (ensuring x g) e := by
  unfold Aloof
  rw [ensures_ensuring]
  exact Ensures.mono hx (fun _ _ => trivial) fun _ e' hr => ⟨hr.1, hr.2.trans (hg e' hr.2.tame)⟩

end Aloof

theorem applyJob_aloof (hrun : Idle run) (he : e.Tame) (j : Job) :
    Aloof (catching (applyJob run j)) e := by
  unfold Aloof applyJob
  rw [ensures_catching, ensures_bind, ensures_get, next_ok]
  cases hs : e.surfaces[j.target.surface]? with
  | none =>
      rw [ensures_pure]
      exact ⟨by simp, rfl, he⟩
  | some s =>
      dsimp only
      have hpanics : ∀ c ∈ s.onApply.headD [], c.isPanic = true := fun c hc =>
        (he.surfaces s (List.mem_of_getElem? hs)).apply _ (mem_headD hc) c hc
      rw [ensures_bind, EditorM.log, ensures_modify, next_ok, ensures_bind, ensures_modify, next_ok]
      have hsame : SameCore e ((e.log (.applied s.name j)).modifySurface j.target.surface
          Surface.nextApply) :=
        sameCore_call he rfl j.target.surface (fun _ => rfl) fun _ h => h.nextApply
      generalize (e.log (.applied s.name j)).modifySurface j.target.surface Surface.nextApply =
        given at hsame ⊢
      obtain ⟨hlast, hresult⟩ := hrun _ hpanics given
      refine ⟨fun _ _ => trivial, ?_⟩
      rw [hlast]
      cases hr : (run (s.onApply.headD []) given).result with
      | ok => exact ⟨by simp, hsame⟩
      | error h =>
          -- a panic is caught, so that only fuel can break it off
          obtain rfl | ⟨p, rfl⟩ := (hresult h hr).2
          · exact ⟨by simp, hsame⟩
          · exact ⟨by simp, hsame⟩

theorem sameCore_log (he : e.Tame) {event : Event} (h : event.isCoordination = false) :
    SameCore e (e.log event) :=
  ⟨Editor.core_log_of_not e h, he.of_same rfl rfl⟩

theorem sameCore_queue (he : e.Tame) (q : RenderQueue) : SameCore e { e with queue := q } :=
  ⟨rfl, he.of_same rfl rfl⟩

theorem deliver_aloof (hrun : Idle run) (he : e.Tame) (j : Job) : Aloof (deliver run j) e := by
  unfold Aloof deliver
  rw [ensures_bind, ensures_attempt]
  refine (isLive_tame hrun he j.target).mono (fun _ _ => trivial) fun r e' hr => ?_
  obtain ⟨rfl, hsame⟩ := hr
  rw [next_ok]
  cases !e.isTornDown j.target && e.isThere j.target.surface with
  | true =>
      refine Aloof.after ?_ hsame
      exact (applyJob_aloof hrun hsame.tame j).bind fun _ e₁ h₁ => aloof_pure h₁.tame _
  | false =>
      refine Aloof.after ?_ hsame
      exact (aloof_modify (sameCore_log hsame.tame rfl)).bind fun _ e₁ h₁ => aloof_pure h₁.tame _

theorem renderAll_aloof (hrun : Idle run) (fuel : Nat) :
    ∀ (e : Editor) (report : RenderReport), e.Tame → Aloof (renderAll run fuel report) e := by
  induction fuel with
  | zero =>
      intro e report he
      unfold renderAll
      refine Aloof.get_bind ?_
      cases e.queue.jobs with
      | nil => exact aloof_pure he report
      | cons job rest => exact aloof_outOfFuel he
  | succ fuel ih =>
      intro e report he
      unfold renderAll
      refine Aloof.get_bind ?_
      cases e.queue.jobs with
      | nil => exact aloof_pure he report
      | cons job rest =>
          have hqueue := sameCore_queue he { e.queue with jobs := rest }
          have htake : SameCore e (e.take job rest) :=
            hqueue.trans (sameCore_log hqueue.tame rfl)
          refine (aloof_modify htake).bind fun _ e₁ h₁ => ?_
          refine (deliver_aloof hrun h₁.tame job).bind fun r e₂ h₂ => ?_
          exact ih e₂ (report.add r) h₂.tame

theorem renderAnswer_aloof {x : EditorM RenderReport} (hx : Aloof x e) :
    Aloof (renderAnswer x) e := by
  have hcaught : Aloof (catching x) e := by
    unfold Aloof
    rw [ensures_catching]
    refine Ensures.mono hx (fun _ _ => trivial) fun r e' hr => ?_
    cases r with
    | ok report => exact ⟨by simp, hr.2⟩
    | error h =>
        obtain rfl := hr.1 h rfl
        exact ⟨by simp, hr.2⟩
  refine hcaught.bind fun result e' h => ?_
  cases result with
  | ok report => exact aloof_pure h.tame _
  | error p => exact aloof_pure h.tame _

theorem drainQueue_aloof (hrun : Idle run) (he : e.Tame) (fuel : Nat) :
    Aloof (drainQueue run fuel) e := by
  refine Aloof.get_bind ?_
  cases e.queue.keeper with
  | idle =>
      refine (aloof_modify (sameCore_queue he _)).bind fun _ e' h => renderAnswer_aloof ?_
      exact (renderAll_aloof hrun fuel e' {} h.tame).ensuring fun _ h => sameCore_queue h _
  | draining | thread | gone => exact aloof_pure he _

/-- **Draining or dropping the queue leaves the core alone.** -/
theorem rendering_aloof (hrun : Idle run) (he : e.Tame) (fuel : Nat) {c : Command}
    (hc : c.isRendering = true) : Aloof (performWith run fuel c) e := by
  cases c with
  | drain => exact drainQueue_aloof hrun he fuel
  | dropQueue =>
      refine Aloof.get_bind ?_
      by_cases hidle : e.queue.keeper = .idle
      · rw [if_pos hidle]
        exact (aloof_modify (sameCore_queue he _)).bind fun _ e' h => aloof_pure h.tame _
      · rw [if_neg hidle]
        exact aloof_pure he _
  | _ => exact absurd hc (by simp [Command.isRendering])

/-- All that finishing does to the core is to let the coordinator go. -/
theorem finishQueue_aloof (hrun : Idle run) (he : e.Tame) (fuel : Nat) :
    Ensures (finishQueue run fuel) e (fun _ => True) fun r e' =>
      (∀ h, r = .error h → h = .outOfFuel) ∧ SameCore { e with coordinating := false } e' := by
  unfold finishQueue
  rw [ensures_bind, ensures_modify, next_ok]
  have hgone : { e with coordinating := false }.Tame := he.of_same rfl rfl
  refine Aloof.get_bind ?_
  cases e.queue.keeper with
  | idle | thread =>
      refine (aloof_modify (sameCore_queue hgone _)).bind fun _ e' h => renderAnswer_aloof ?_
      exact (renderAll_aloof hrun fuel e' {} h.tame).ensuring fun _ h => sameCore_queue h _
  | draining | gone => exact aloof_pure hgone _

end Highlighting
