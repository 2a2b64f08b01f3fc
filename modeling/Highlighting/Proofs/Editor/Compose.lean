/-
Properties that go through the text of actions.

Gates are entered and left and outcomes are counted in one place, `reconcile`.
Whatever else the editor does is aside from that.  So a property of actions that
every change aside has, and that goes through sequences, catching and ensuring,
holds of everything outside passes and of what a pass does inside its gate; once it
is shown of passes it holds of every command.

A pass reports work inside its gate, and so may a script.  What does not even report
work is calm.  A property that only calm changes have still holds of everything else
that is outside passes, and has to be shown of passes from their inside.
-/
import Highlighting.Proofs.Editor.Session

namespace Highlighting

open Act EditorM

/-! ### Changes aside from passes -/

/-- Whether a pass is in the gate of a slot. -/
def Editor.isBusy (e : Editor) (n : Nat) : Bool := (e.slots[n]?.map fun s => s.gate.busy).getD false

/-- Whether an event tells of a pass or of the answer to a command. -/
def Event.isReckoned : Event → Bool
  | entered .. | ended .. | unwound .. | answered .. => true
  | _ => false

/-- A change that enters no gate, leaves none and counts nothing. -/
structure Aside (e e' : Editor) : Prop where
  metrics : e'.metrics = e.metrics
  busy : ∀ n, e'.isBusy n = e.isBusy n
  journal : ∃ evs, e'.journal = evs ++ e.journal ∧ ∀ ev ∈ evs, ev.isReckoned = false

section Aside

variable (e : Editor)

/-- Slots, counters and the journal are as they were. -/
theorem aside_of_same {e e' : Editor} (hslots : e'.slots = e.slots)
    (hmetrics : e'.metrics = e.metrics) (hjournal : e'.journal = e.journal) : Aside e e' where
  metrics := hmetrics
  busy n := by rw [Editor.isBusy, hslots, Editor.isBusy]
  journal := ⟨[], hjournal, by simp⟩

theorem Aside.trans {e e' e'' : Editor} (h : Aside e e') (h' : Aside e' e'') : Aside e e'' := by
  obtain ⟨evs, hj, hevs⟩ := h.journal
  obtain ⟨evs', hj', hevs'⟩ := h'.journal
  refine ⟨h'.metrics.trans h.metrics, fun n => (h'.busy n).trans (h.busy n), evs' ++ evs, ?_, ?_⟩
  · rw [hj', hj, List.append_assoc]
  · intro ev hev
    rcases List.mem_append.mp hev with hev | hev
    · exact hevs' ev hev
    · exact hevs ev hev

theorem aside_log {event : Event} (h : event.isReckoned = false) : Aside e (e.log event) where
  metrics := rfl
  busy _ := rfl
  journal := ⟨[event], rfl, by simpa using h⟩

end Aside

/-- Whether an event tells of work. -/
def Event.isReport : Event → Bool
  | reported .. => true
  | _ => false

/-- A change aside that reports no work.  New meters show nothing, and a token that got a name is of
one of the meters. -/
structure Calm (e e' : Editor) : Prop where
  metrics : e'.metrics = e.metrics
  busy : ∀ n, e'.isBusy n = e.isBusy n
  journal : ∃ evs, e'.journal = evs ++ e.journal ∧
    ∀ ev ∈ evs, ev.isReckoned = false ∧ ev.isReport = false
  meters : ∃ n, e'.tokens.meters = e.tokens.meters ++ List.replicate n 0
  names : ∀ name t, e'.tokenNames.get? name = some t →
    e.tokenNames.get? name = some t ∨ t.meter < e'.tokens.meters.length

section Calm

variable (e : Editor)

theorem Calm.aside {e e' : Editor} (h : Calm e e') : Aside e e' := by
  obtain ⟨evs, hj, hevs⟩ := h.journal
  exact ⟨h.metrics, h.busy, evs, hj, fun ev hev => (hevs ev hev).1⟩

/-- Slots, counters, the journal, meters and the names of tokens are as they were. -/
theorem calm_of_same {e e' : Editor} (hslots : e'.slots = e.slots)
    (hmetrics : e'.metrics = e.metrics) (hjournal : e'.journal = e.journal)
    (hmeters : e'.tokens.meters = e.tokens.meters) (hnames : e'.tokenNames = e.tokenNames) :
    Calm e e' where
  metrics := hmetrics
  busy n := by rw [Editor.isBusy, hslots, Editor.isBusy]
  journal := ⟨[], hjournal, by simp⟩
  meters := ⟨0, by simpa using hmeters⟩
  names name t h := Or.inl (by rwa [hnames] at h)

theorem Calm.trans {e e' e'' : Editor} (h : Calm e e') (h' : Calm e' e'') : Calm e e'' := by
  obtain ⟨evs, hj, hevs⟩ := h.journal
  obtain ⟨evs', hj', hevs'⟩ := h'.journal
  obtain ⟨n, hmeters⟩ := h.meters
  obtain ⟨n', hmeters'⟩ := h'.meters
  refine ⟨h'.metrics.trans h.metrics, fun n => (h'.busy n).trans (h.busy n), ⟨evs' ++ evs, ?_, ?_⟩,
    ⟨n + n', ?_⟩, fun name t ht => ?_⟩
  · rw [hj', hj, List.append_assoc]
  · intro ev hev
    rcases List.mem_append.mp hev with hev | hev
    · exact hevs' ev hev
    · exact hevs ev hev
  · rw [hmeters', hmeters, List.append_assoc, List.replicate_append_replicate]
  · rcases h'.names name t ht with ht | hlt
    · refine (h.names name t ht).imp id fun hlt => Nat.lt_of_lt_of_le hlt ?_
      rw [hmeters', List.length_append]
      exact Nat.le_add_right _ _
    · exact Or.inr hlt

theorem calm_log {event : Event} (hreckoned : event.isReckoned = false)
    (hreport : event.isReport = false) : Calm e (e.log event) where
  metrics := rfl
  busy _ := rfl
  journal := ⟨[event], rfl, by simpa using ⟨hreckoned, hreport⟩⟩
  meters := ⟨0, by simp⟩
  names _ _ := Or.inl

theorem calm_dispatch (j : Job) : Calm e (e.dispatch j) := by
  unfold Editor.dispatch
  split
  · exact calm_of_same rfl rfl rfl rfl rfl
  · have hpush : Calm e { e with queue := e.queue.push j } := calm_of_same rfl rfl rfl rfl rfl
    exact hpush.trans (calm_log _ rfl rfl)

theorem isBusy_modifySlot {f : Slot → Slot} (h : ∀ s, (f s).gate.busy = s.gate.busy) (id n : Nat) :
    (e.modifySlot id f).isBusy n = e.isBusy n := by
  rw [Editor.isBusy, Editor.isBusy, Editor.getElem?_modifySlot]
  split
  · rw [Option.map_map, show (fun s : Slot => s.gate.busy) ∘ f = fun s => s.gate.busy from funext h]
  · rfl

theorem calm_publish (id : Nat) (t : Target) (wanted : List Highlight) (delta : Delta)
    (next : List Highlight) : Calm e (e.publish id t wanted delta next).2 := by
  have hset : Calm e
      (e.modifySlot id fun s => { s with gate := s.gate.set next, snapshot := next }) := by
    refine ⟨rfl, fun n => ?_, ⟨[], rfl, by simp⟩, ⟨0, by simp [Editor.modifySlot]⟩,
      fun _ _ => Or.inl⟩
    rw [isBusy_modifySlot]
    exact fun _ => rfl
  have hsettled : Calm e _ := hset.trans
    (calm_log _ (show (Event.settled id wanted).isReckoned = false from rfl) rfl)
  unfold Editor.publish
  split
  · exact hsettled
  · exact hsettled.trans (calm_dispatch _ _)

theorem calm_tearDown (id : Nat) : Calm e (e.tearDown id) := by
  unfold Editor.tearDown
  split
  · rename_i s _
    have hcancelled : Calm e { e with tokens := e.tokens.cancel s.target.lifetime } :=
      calm_of_same rfl rfl rfl rfl rfl
    exact hcancelled.trans (calm_log _ rfl rfl)
  · exact calm_of_same rfl rfl rfl rfl rfl

theorem calm_addSlot (doc : DocumentId) (surface : Nat) (r : Resolver) :
    Calm e (e.addSlot doc surface r) where
  metrics := rfl
  busy n := by
    show ((e.slots ++ [_])[n]?.map _).getD false = _
    rw [List.getElem?_append]
    split
    · rfl
    · rename_i hn
      -- the fresh slot is free, and there was none of its number before
      rw [Editor.isBusy, List.getElem?_eq_none (Nat.le_of_not_lt hn)]
      cases n - e.slots.length <;> rfl
  journal := ⟨[], rfl, by simp⟩
  meters := ⟨0, by simp [Editor.addSlot]⟩
  names _ _ := Or.inl

theorem calm_install (doc : DocumentId) (surface : Nat) (r : Resolver) :
    Calm e (e.install doc surface r) := by
  unfold Editor.install
  split
  · exact (calm_addSlot e doc surface r).trans (calm_tearDown _ _)
  · exact calm_addSlot e doc surface r

theorem calm_uninstall (doc : DocumentId) : Calm e (e.uninstall doc).2 := by
  unfold Editor.uninstall
  split
  · have hforgotten : Calm e { e with documents := e.documents.erase doc } :=
      calm_of_same rfl rfl rfl rfl rfl
    exact hforgotten.trans (calm_tearDown _ _)
  · exact calm_of_same rfl rfl rfl rfl rfl

theorem calm_take (j : Job) (rest : List Job) : Calm e (e.take j rest) := by
  have htaken : Calm e { e with queue := { e.queue with jobs := rest } } :=
    calm_of_same rfl rfl rfl rfl rfl
  exact htaken.trans (calm_log _ rfl rfl)

/-- A token is made, with a meter of its own. -/
theorem calm_newMeter {ts : Tokens} (hmeters : ts.meters = e.tokens.meters ++ [0]) :
    Calm e { e with tokens := ts } where
  metrics := rfl
  busy _ := rfl
  journal := ⟨[], rfl, by simp⟩
  meters := ⟨1, hmeters⟩
  names _ _ := Or.inl

theorem calm_nameToken (name : String) {made : Token × Tokens}
    (hmade : made.1.meter = e.tokens.meters.length)
    (hmeters : made.2.meters = e.tokens.meters ++ [0]) : Calm e (e.nameToken name made) := by
  refine (calm_newMeter e hmeters).trans ⟨rfl, fun _ => rfl, ⟨[], rfl, by simp⟩, ⟨0, ?_⟩, ?_⟩
  · simp [Editor.nameToken]
  · intro name' t ht
    simp only [Editor.nameToken, Registry.get?_set] at ht ⊢
    split at ht
    · cases ht
      exact Or.inr (by simp [hmade, hmeters])
    · exact Or.inl ht

end Calm

/-! ### What goes through the text -/

/-- A property of actions that goes through their text and that all changes in `A` have, calm ones
among them. -/
structure ComposesOver (A : Editor → Editor → Prop) (K : (α : Type) → EditorM α → Prop) :
    Prop where
  calm {e e' : Editor} (h : Calm e e') : A e e'
  pure {α : Type} (a : α) : K α (Pure.pure a)
  halt {α : Type} (h : Halt) : K α (Act.halt h)
  look : K Unit Act.look
  get : K Editor Act.get
  modify {f : Editor → Editor} (hf : ∀ e, A e (f e)) : K Unit (Act.modify f)
  modifyGet {α : Type} {f : Editor → α × Editor} (hf : ∀ e, A e (f e).2) :
    K α (Act.modifyGet f)
  bind {α β : Type} {x : EditorM α} {k : α → EditorM β} (hx : K α x) (hk : ∀ a, K β (k a)) :
    K β (x >>= k)
  ensuring {α : Type} {x : EditorM α} {f : Editor → Editor} (hx : K α x)
    (hf : ∀ e, A e (f e)) : K α (Act.ensuring x f)
  catching {α : Type} {x : EditorM α} (hx : K α x) : K (Except Payload α) (catching x)
  /-- An action that halted may be told of, but goes on halting. -/
  attempt {α β : Type} {x : EditorM α} {k : Except Halt α → EditorM β} {f : Editor → Editor}
    (hx : K α x) (hok : ∀ a, K β (k (.ok a))) (hf : ∀ e, A e (f e))
    (herror : ∀ h, k (.error h) = Act.modify f >>= fun _ => Act.halt h) :
    K β (Act.attempt x >>= k)

/-- A property of actions that goes through their text and that all changes aside have. -/
abbrev Composes (K : (α : Type) → EditorM α → Prop) : Prop := ComposesOver Aside K

/-- A preorder that allows all changes aside goes through the text of actions. -/
theorem composes_keeps {R : Editor → Editor → Prop} [IsPreorder Editor R]
    (haside : ∀ e e', Aside e e' → R e e') : Composes fun _ x => Keeps R x where
  calm h := h.aside
  pure a := Keeps.pure a
  halt h := Keeps.halt h
  look := Keeps.look
  get e := by
    rw [ensures_get]
    exact refl e
  modify hf := Keeps.modify fun e => haside _ _ (hf e)
  modifyGet hf := Keeps.modifyGet fun e => haside _ _ (hf e)
  bind hx hk := hx.bind hk
  ensuring hx hf := hx.ensuring fun e => haside _ _ (hf e)
  catching hx := keeps_catching hx
  attempt {_ _ _ k _} hx hok hf herror := hx.attempt.bind fun r => by
    cases r with
    | ok a => exact hok a
    | error h =>
        rw [herror h]
        exact (Keeps.modify fun e => haside _ _ (hf e)).bind fun _ => Keeps.halt h

namespace ComposesOver

variable {A : Editor → Editor → Prop} {K : (α : Type) → EditorM α → Prop} (hK : ComposesOver A K)
  {run : Script → EditorM Unit}

include hK

theorem log {event : Event} (hreckoned : event.isReckoned = false)
    (hreport : event.isReport = false) : K Unit (EditorM.log event) :=
  hK.modify fun e => hK.calm (calm_log e hreckoned hreport)

theorem of_same {e e' : Editor} (hslots : e'.slots = e.slots)
    (hmetrics : e'.metrics = e.metrics) (hjournal : e'.journal = e.journal)
    (hmeters : e'.tokens.meters = e.tokens.meters) (hnames : e'.tokenNames = e.tokenNames) :
    A e e' :=
  hK.calm (calm_of_same hslots hmetrics hjournal hmeters hnames)

theorem mapM {α β : Type} {f : α → EditorM β} (hf : ∀ a, K β (f a)) (xs : List α) :
    K (List β) (xs.mapM f) := by
  induction xs with
  | nil =>
      rw [List.mapM_nil]
      exact hK.pure []
  | cons a rest ih =>
      rw [List.mapM_cons]
      exact hK.bind (hf a) fun b => hK.bind ih fun bs => hK.pure (b :: bs)

theorem forM {α : Type} {f : α → EditorM Unit} (hf : ∀ a, K Unit (f a)) (xs : List α) :
    K Unit (xs.forM f) := by
  induction xs with
  | nil => exact hK.pure ()
  | cons a rest ih => exact hK.bind (hf a) fun _ => ih

/-! ### Calls of the surroundings -/

variable (hrun : ∀ script, K Unit (run script))

section Run

include hrun

theorem askSurface (id : Nat) (doc : DocumentId) : K Bool (askSurface run id doc) := by
  refine hK.bind hK.get fun e => ?_
  split
  · exact hK.pure _
  · split
    · exact hK.pure _
    · refine hK.bind (hK.log rfl rfl) fun _ => hK.bind (hK.modify fun e => ?_) fun _ => ?_
      · exact hK.of_same rfl rfl rfl rfl rfl
      · exact hK.bind (hrun _) fun _ => hK.bind hK.get fun _ => hK.pure _

theorem isLive (t : Target) : K Bool (isLive run t) := by
  refine hK.bind hK.get fun e => ?_
  split
  · exact hK.pure _
  · exact hK.askSurface hrun _ _

theorem applyJob (j : Job) : K Unit (applyJob run j) := by
  refine hK.bind hK.get fun e => ?_
  split
  · exact hK.pure _
  · refine hK.bind (hK.log rfl rfl) fun _ => hK.bind (hK.modify fun e => ?_) fun _ => hrun _
    exact hK.of_same rfl rfl rfl rfl rfl

theorem resolveStyle (id : Nat) (kind : Kind) : K Style (resolveStyle run id kind) := by
  refine hK.bind hK.get fun e => ?_
  split
  · exact hK.pure _
  · split
    · refine hK.bind (hK.log rfl rfl) fun _ => hK.bind (hK.modify fun e => ?_) fun _ => ?_
      · exact hK.of_same rfl rfl rfl rfl rfl
      · exact hK.bind (hrun _) fun _ => hK.pure _
    · refine hK.bind (hK.modify fun e => ?_) fun _ => hK.pure _
      exact hK.of_same rfl rfl rfl rfl rfl

theorem wantedHighlights (id : Nat) (tree : SyntaxTree) :
    K (List Highlight) (wantedHighlights run id tree) := by
  refine hK.bind hK.get fun e => hK.mapM (fun m => ?_) _
  exact hK.bind (hK.resolveStyle hrun id m.kind) fun _ => hK.pure _

/-! ### Rendering -/

theorem deliver (j : Job) : K RenderReport (deliver run j) := by
  refine hK.attempt (hK.isLive hrun j.target) (fun live => ?_)
    (fun e => hK.calm (calm_log e rfl rfl)) fun _ => rfl
  cases live with
  | true => exact hK.bind (hK.catching (hK.applyJob hrun j)) fun _ => hK.pure _
  | false => exact hK.bind (hK.log rfl rfl) fun _ => hK.pure _

theorem renderAll (fuel : Nat) (report : RenderReport) :
    K RenderReport (renderAll run fuel report) := by
  induction fuel generalizing report with
  | zero =>
      unfold Highlighting.renderAll
      refine hK.bind hK.get fun e => ?_
      split
      · exact hK.pure _
      · exact hK.halt _
  | succ fuel ih =>
      unfold Highlighting.renderAll
      refine hK.bind hK.get fun e => ?_
      split
      · exact hK.pure _
      · exact hK.bind (hK.modify fun e => hK.calm (calm_take e _ _)) fun _ =>
          hK.bind (hK.deliver hrun _) fun _ => ih _

omit hrun in
theorem renderAnswer {x : EditorM RenderReport} (hx : K RenderReport x) :
    K Answer (renderAnswer x) := by
  refine hK.bind (hK.catching hx) fun result => ?_
  cases result <;> exact hK.pure _

theorem drainQueue (fuel : Nat) : K Answer (drainQueue run fuel) := by
  refine hK.bind hK.get fun e => ?_
  split
  · refine hK.bind (hK.modify fun e => hK.of_same rfl rfl rfl rfl rfl) fun _ => hK.renderAnswer ?_
    exact hK.ensuring (hK.renderAll hrun fuel {}) fun e => hK.of_same rfl rfl rfl rfl rfl
  · exact hK.pure _

theorem finishQueue (fuel : Nat) : K Answer (finishQueue run fuel) := by
  have hlast : K Answer (do
      Act.modify (·.keep .draining)
      Highlighting.renderAnswer (Act.ensuring (Highlighting.renderAll run fuel {}) fun e =>
        { e with queue := .dropped })) := by
    refine hK.bind (hK.modify fun e => hK.of_same rfl rfl rfl rfl rfl) fun _ => hK.renderAnswer ?_
    exact hK.ensuring (hK.renderAll hrun fuel {}) fun e => hK.of_same rfl rfl rfl rfl rfl
  refine hK.bind (hK.modify fun e => hK.of_same rfl rfl rfl rfl rfl) fun _ =>
    hK.bind hK.get fun e => ?_
  split
  · exact hlast
  · exact hlast
  · exact hK.pure _

end Run

/-! ### Commands -/

theorem alter {f : Editor → Editor} (hf : ∀ e, A e (f e)) : K Answer (alter f) :=
  hK.bind (hK.modify hf) fun _ => hK.pure _

theorem named {α : Type} {find : Editor → Option α} {name : String} {k : α → EditorM Answer}
    (hk : ∀ a, K Answer (k a)) : K Answer (named find name k) := by
  refine hK.bind hK.get fun e => ?_
  split
  · exact hk _
  · exact hK.pure _

theorem coordinated {x : EditorM Answer} (hx : K Answer x) : K Answer (coordinated x) := by
  refine hK.bind hK.get fun e => ?_
  split
  · exact hx
  · exact hK.pure _

theorem dispatching {x : EditorM Answer} (hx : K Answer x) : K Answer (dispatching x) := by
  refine hK.bind hK.get fun e => ?_
  split
  · exact hx
  · exact hK.pure _

theorem answer (f : Editor → Answer) : K Answer (do return f (← Act.get) : EditorM Answer) :=
  hK.bind hK.get fun _ => hK.pure _

theorem reconcileAnswer {doc : DocumentId} {tree : SyntaxTree} {token : Token}
    (h : K Outcome (reconcile run ⟨doc, tree, token⟩)) :
    K Answer (reconcileAnswer run doc tree token) := by
  refine hK.bind (hK.catching h) fun result => hK.bind hK.get fun e => ?_
  cases result <;> exact hK.pure _

include hrun

theorem targetAnswer (t : Target) : K Answer (targetAnswer run t) :=
  hK.bind hK.get fun _ => hK.bind (hK.isLive hrun t) fun _ => hK.answer _

/-- What goes through the text holds of every command, if it holds of reports and passes. -/
theorem performWith (fuel : Nat) (c : Command)
    (hreport : ∀ name units, c = .worked name units → K Answer (performWith run fuel c))
    (hpass : ∀ doc tree token, c = .reconcile doc tree token → K Answer (performWith run fuel c)) :
    K Answer (performWith run fuel c) := by
  cases c with
  | surface => exact hK.alter fun e => hK.of_same rfl rfl rfl rfl rfl
  | dispose | revive => exact hK.named fun id => hK.alter fun e => hK.of_same rfl rfl rfl rfl rfl
  | token name parent =>
      cases parent with
      | none => exact hK.alter fun e => hK.calm (calm_nameToken e name rfl rfl)
      | some parent =>
          exact hK.named fun t => hK.alter fun e => hK.calm (calm_nameToken e name rfl rfl)
  | cancel | target | cancelTarget =>
      exact hK.named fun t => hK.alter fun e => hK.of_same rfl rfl rfl rfl rfl
  | worked name units => exact hreport name units rfl
  | install =>
      exact hK.coordinated <| hK.named fun id => hK.alter fun e => hK.calm (calm_install e _ _ _)
  | uninstall =>
      exact hK.coordinated <| hK.bind (hK.modifyGet fun e => hK.calm (calm_uninstall e _)) fun _ =>
        hK.pure _
  | isInstalled | published | state | metrics | debug => exact hK.coordinated (hK.answer _)
  | reconcile doc tree token => exact hpass doc tree token rfl
  | targetInfo => exact hK.named fun t => hK.targetAnswer hrun t
  | dispatch name delta =>
      cases delta with
      | error => exact hK.halt _
      | ok delta =>
          exact hK.named fun t => hK.dispatching <| hK.bind hK.get fun _ =>
            hK.bind (hK.modify fun e => hK.calm (calm_dispatch e _)) fun _ => hK.pure _
  | isClosed => exact hK.dispatching (hK.answer _)
  | drain => exact hK.drainQueue hrun fuel
  | dropQueue =>
      refine hK.bind hK.get fun e => ?_
      split
      · exact hK.bind (hK.modify fun e => hK.of_same rfl rfl rfl rfl rfl) fun _ => hK.pure _
      · exact hK.pure _
  | finish => exact hK.finishQueue hrun fuel
  | panic => exact hK.halt _

omit hrun in
/-- Scripts, given that the property holds of each of their commands together with the record of
its answer. -/
theorem execute (hcommand : ∀ run, (∀ script, K Unit (run script)) → ∀ fuel c, K Unit (do
      let a ← Highlighting.performWith run fuel c
      EditorM.log (.answered c.name a))) (fuel : Nat) :
    ∀ script, K Unit (execute fuel script) := by
  induction fuel with
  | zero =>
      intro script
      refine hK.bind hK.look fun _ => ?_
      split
      · exact hK.pure _
      · exact hK.halt _
  | succ fuel ih =>
      intro script
      refine hK.bind hK.look fun _ => hK.forM (fun c => ?_) script
      rw [show (do
          let answer ← Highlighting.performWith (Highlighting.execute fuel) fuel c
          EditorM.log (.answered c.name answer)
          Act.look : EditorM Unit) = (do
          let answer ← Highlighting.performWith (Highlighting.execute fuel) fuel c
          EditorM.log (.answered c.name answer)) >>= fun _ => Act.look from (bind_assoc _ _ _).symm]
      exact hK.bind (hcommand _ ih fuel c) fun _ => hK.look

end ComposesOver

namespace Composes

variable {K : (α : Type) → EditorM α → Prop} (hK : Composes K) {run : Script → EditorM Unit}
  (hrun : ∀ script, K Unit (run script))

include hK

/-! ### Inside the gate -/

theorem work (token : Token) (units : UInt32) : K Unit (EditorM.work token units) :=
  hK.modify fun _ => aside_of_same rfl rfl rfl

include hrun

theorem reconcileWith (id : Nat) (t : Target) (token : Token) (wanted : List Highlight) :
    K Outcome (reconcileWith run id t token wanted) := by
  -- four times the pass goes on only if it was not interrupted
  have hcheck : ∀ {seenAt : Checkpoint} {k : EditorM Outcome}, K Outcome k →
      K Outcome (Act.get >>= fun e =>
        if e.isInterrupted token t then Pure.pure (.cancelled seenAt) else k) := by
    intro seenAt k hk
    refine hK.bind hK.get fun e => ?_
    split
    · exact hK.pure _
    · exact hk
  refine hK.bind (hK.work token _) fun _ => hcheck <| hK.bind hK.get fun e => ?_
  refine hK.bind (hK.work token _) fun _ => hcheck <| hK.bind (hK.work token _) fun _ => hcheck ?_
  refine hK.bind (hK.isLive hrun t) fun live => ?_
  split
  · exact hK.pure _
  · exact hcheck <| hK.bind (hK.modifyGet fun e => (calm_publish e id t _ _ _).aside) fun _ =>
      hK.bind (hK.work token _) fun _ => hK.pure _

theorem passInside (id : Nat) (s : Slot) (r : Request) : K Outcome (passInside run id s r) := by
  refine hK.bind (hK.work r.token _) fun _ => ?_
  refine hK.bind (hK.catching (hK.wantedHighlights hrun _ _)) fun wanted => ?_
  split
  · exact hK.pure _
  · exact hK.reconcileWith hrun id s.target r.token _

/-- **What goes through the text holds of every command, if it holds of the passes it runs.** -/
theorem performWith (fuel : Nat) (c : Command)
    (hpass : ∀ doc tree token, c = .reconcile doc tree token →
      ∀ r, K Outcome (reconcile run r)) : K Answer (performWith run fuel c) := by
  refine ComposesOver.performWith hK hrun fuel c ?_ ?_
  · rintro name units rfl
    refine hK.named fun t => hK.bind (hK.modify fun e => ?_) fun _ => hK.answer _
    have hworked : Aside e (e.worked t units) := aside_of_same rfl rfl rfl
    exact hworked.trans (aside_log _ rfl)
  · rintro doc tree token rfl
    have hanswer : ∀ t, K Answer (Highlighting.reconcileAnswer run doc tree t) := fun t =>
      hK.reconcileAnswer (hpass doc tree token rfl _)
    cases token with
    | some name => exact hK.coordinated <| hK.named hanswer
    | none =>
        exact hK.coordinated <| hK.bind (hK.modifyGet fun e => aside_of_same rfl rfl rfl) hanswer

end Composes

/-! ### Sessions that go on -/

/-- What can be seen of a session that has come as far as `e`: the editor between two commands, and
the moments at which a script looks while the next command is carried out. -/
def Editor.Moment (fuel : Nat) (e m : Editor) : Prop := m = e ∨ ∃ c, m ∈ (perform fuel c e).seen

theorem Editor.Reachable.moment {fuel : Nat} {e m : Editor} (he : e.Reachable)
    (hm : Editor.Moment fuel e m) : m.Reachable := by
  rcases hm with rfl | ⟨c, hm⟩
  · exact he
  · exact he.seen fuel c hm

section Converse

variable {fuel : Nat} {e last : Editor} {c : Command} {log : List (Answer × List Event)}
  {answer : Answer}

theorem Editor.converse_of_error {h : Halt} (hresult : (perform fuel c e).result = .error h)
    (rest : Script) : e.converse fuel (c :: rest) = (.error h, (perform fuel c e).last) := by
  rw [Editor.converse]
  generalize perform fuel c e = course at hresult ⊢
  obtain ⟨seen, result, e'⟩ := course
  cases hresult
  rfl

theorem Editor.converse_of_ok (hresult : (perform fuel c e).result = .ok answer) (rest : Script) :
    let e' := (perform fuel c e).last
    e.converse fuel (c :: rest) =
      ((e'.converse fuel rest).1.map ((answer, e'.eventsSince e.journal.length) :: ·),
        (e'.converse fuel rest).2) := by
  rw [Editor.converse]
  generalize perform fuel c e = course at hresult ⊢
  obtain ⟨seen, result, e'⟩ := course
  cases hresult
  rfl

/-- A session that was carried out to its end began with a command that was. -/
theorem Editor.converse_ok_cons {rest : Script}
    (h : e.converse fuel (c :: rest) = (.ok log, last)) :
    ∃ answer log', (perform fuel c e).result = .ok answer ∧
      (perform fuel c e).last.converse fuel rest = (.ok log', last) ∧
      log = (answer, (perform fuel c e).last.eventsSince e.journal.length) :: log' := by
  cases hresult : (perform fuel c e).result with
  | error halted =>
      rw [Editor.converse_of_error hresult] at h
      cases h
  | ok answer =>
      rw [Editor.converse_of_ok hresult] at h
      rcases hrest : (perform fuel c e).last.converse fuel rest with ⟨halted | log', last'⟩
      · rw [hrest] at h
        cases h
      · rw [hrest] at h
        cases h
        exact ⟨answer, log', rfl, rfl, rfl⟩

/-- A session goes on with one more command. -/
theorem Editor.converse_concat {script : Script} (h : e.converse fuel script = (.ok log, last))
    (hresult : (perform fuel c last).result = .ok answer) :
    ∃ events, e.converse fuel (script ++ [c]) =
      (.ok (log ++ [(answer, events)]), (perform fuel c last).last) := by
  induction script generalizing e log with
  | nil =>
      cases h
      exact ⟨_, Editor.converse_of_ok hresult []⟩
  | cons c' rest ih =>
      obtain ⟨answer', log', hresult', hrest, rfl⟩ := Editor.converse_ok_cons h
      obtain ⟨events, hlonger⟩ := ih hrest
      refine ⟨events, ?_⟩
      rw [List.cons_append, Editor.converse_of_ok hresult', hlonger]
      rfl

end Converse

end Highlighting
