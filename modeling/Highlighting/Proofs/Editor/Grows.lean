/-
What one who called the surroundings finds on return.

A pass calls resolvers and surfaces, and those run scripts with any command in
them.  What it relies on afterwards is `Grows`: the slot whose gate it is in was
left alone, and nothing was queued for it; what there was before is still there.
The pass itself changes the slot at the end, so `Grows` leaves out the slot of one
pass.  One that entered a free gate and is out again has changed no slot that
anybody else relies on.

What a turn of the queue relies on is `Still`: while the queue is being drained
nobody else drains it, so no other turn begins or ends.
-/
import Highlighting.Proofs.Editor.Fit
import Mathlib

namespace Highlighting

namespace Editor

/-- The jobs in the queue for a target. -/
def jobsFor (e : Editor) (t : Target) : List Job := e.queue.jobs.filter (·.target = t)

/-- A pass is in the gate of a slot, other than that of `own`. -/
def Held (e : Editor) (own : Option Nat) (id : Nat) (s : Slot) : Prop :=
  some id ≠ own ∧ e.slots[id]? = some s ∧ s.gate.busy = true

end Editor

/-- What others leave alone; `own` is the slot of a pass whose doing this may be. -/
structure Grows (own : Option Nat) (e e' : Editor) : Prop where
  policy : e'.policy = e.policy := by rfl
  /-- Resolvers may be called; they keep their tables. -/
  tables : e.resolvers.map (·.tables) <+: e'.resolvers.map (·.tables) := by
    exact List.prefix_refl _
  calls : ∀ resolver, e.callsOf resolver ≤ e'.callsOf resolver := by exact fun _ => Nat.le_refl _
  surfaces : e.surfaces.map (·.name) <+: e'.surfaces.map (·.name) := by exact List.prefix_refl _
  /-- A slot with a pass in its gate stays as it is. -/
  slots : ∀ id s, e.Held own id s → e'.slots[id]? = some s := by exact fun _ _ h => h.2.1
  /-- Jobs for a slot with a pass in its gate may have their turn, but no new ones come. -/
  queue : ∀ id s, e.Held own id s → e'.jobsFor s.target <:+ e.jobsFor s.target := by
    exact fun _ _ _ => List.suffix_refl _
  journal : ∃ evs, e'.journal = evs ++ e.journal ∧
    ∀ id s, e.Held own id s → ∀ j, .queued j ∈ evs → j.target ≠ s.target := by
      exact ⟨[], rfl, by simp⟩

/-- Nobody else drains a queue that is being drained. -/
def Still (e e' : Editor) : Prop :=
  e.queue.keeper = .draining →
    e'.queue.keeper = .draining ∧
      ∃ evs, e'.journal = evs ++ e.journal ∧ ∀ ev ∈ evs, ev.isTurn = false

/-- From an editor in order some steps lead to another one, and others were left alone. -/
def Evolves (own : Option Nat) (e e' : Editor) : Prop :=
  Fit e → Fit e' ∧ Steps e e' ∧ Grows own e e'

/-- What commands do, whoever gives them. -/
def Runs (e e' : Editor) : Prop := Evolves none e e' ∧ (Fit e → Still e e')

variable {own : Option Nat} {e e' e'' : Editor}

/-! ### One after the other -/

theorem Grows.held (h : Grows own e e') {id : Nat} {s : Slot} (hs : e.Held own id s) :
    e'.Held own id s := ⟨hs.1, h.slots id s hs, hs.2.2⟩

theorem Grows.trans (h : Grows own e e') (h' : Grows own e' e'') : Grows own e e'' where
  policy := h'.policy.trans h.policy
  tables := h.tables.trans h'.tables
  calls := fun resolver => Nat.le_trans (h.calls resolver) (h'.calls resolver)
  surfaces := h.surfaces.trans h'.surfaces
  slots := fun id s hs => h'.slots id s (h.held hs)
  queue := fun id s hs => (h'.queue id s (h.held hs)).trans (h.queue id s hs)
  journal := by
    obtain ⟨evs, hj, hqueued⟩ := h.journal
    obtain ⟨evs', hj', hqueued'⟩ := h'.journal
    refine ⟨evs' ++ evs, by rw [hj', hj, List.append_assoc], ?_⟩
    intro id s hs j hmem
    rcases List.mem_append.mp hmem with hmem | hmem
    · exact hqueued' id s (h.held hs) j hmem
    · exact hqueued id s hs j hmem

theorem Still.trans (h : Still e e') (h' : Still e' e'') : Still e e'' := by
  intro hk
  obtain ⟨hk', evs, hj, hturn⟩ := h hk
  obtain ⟨hk'', evs', hj', hturn'⟩ := h' hk'
  refine ⟨hk'', evs' ++ evs, by rw [hj', hj, List.append_assoc], ?_⟩
  intro ev hmem
  rcases List.mem_append.mp hmem with hmem | hmem
  · exact hturn' ev hmem
  · exact hturn ev hmem

instance : IsPreorder Editor (Evolves own) where
  refl _ hfit := ⟨hfit, .refl, {}⟩
  trans _ _ _ h h' hfit := by
    obtain ⟨hfit', hsteps, hgrows⟩ := h hfit
    obtain ⟨hfit'', hsteps', hgrows'⟩ := h' hfit'
    exact ⟨hfit'', hsteps.trans hsteps', hgrows.trans hgrows'⟩

instance : IsPreorder Editor Runs where
  refl e := ⟨refl e, fun _ hk => ⟨hk, [], rfl, by simp⟩⟩
  trans _ _ _ h h' :=
    ⟨IsTrans.trans _ _ _ h.1 h'.1, fun hfit => (h.2 hfit).trans (h'.2 (h.1 hfit).1)⟩

theorem Runs.trans (h : Runs e e') (h' : Runs e' e'') : Runs e e'' := IsTrans.trans _ _ _ h h'

theorem Evolves.trans (h : Evolves own e e') (h' : Evolves own e' e'') : Evolves own e e'' :=
  IsTrans.trans _ _ _ h h'

/-- What commands do is said of editors in order only. -/
theorem keeps_runs {α : Type} {x : EditorM α}
    (h : ∀ e, Fit e → Act.Ensures x e (Runs e) fun _ e' => Runs e e') : Act.Keeps Runs x := by
  intro e
  by_cases hfit : Fit e
  · exact h e hfit
  · have hall : ∀ e', Runs e e' := fun e' => ⟨fun h => absurd h hfit, fun h => absurd h hfit⟩
    exact ⟨fun m _ => hall m, hall _⟩

/-! ### Passes among others -/

/-- Whoever relies on the gates of others relies on fewer than one without a gate. -/
theorem Grows.of_held {own' : Option Nat} (h : Grows own e e')
    (hheld : ∀ id s, e.Held own' id s → e.Held own id s) : Grows own' e e' where
  policy := h.policy
  tables := h.tables
  calls := h.calls
  surfaces := h.surfaces
  slots := fun id s hs => h.slots id s (hheld id s hs)
  queue := fun id s hs => h.queue id s (hheld id s hs)
  journal := by
    obtain ⟨evs, hj, hqueued⟩ := h.journal
    exact ⟨evs, hj, fun id s hs => hqueued id s (hheld id s hs)⟩

theorem Grows.of_others (h : Grows none e e') : Grows own e e' :=
  h.of_held fun _ _ hs => ⟨Option.some_ne_none _, hs.2⟩

/-- What a pass did from the moment its gate was free is nothing to anybody else. -/
theorem Grows.of_free {id : Nat} {s : Slot} (hs : e.slots[id]? = some s)
    (hfree : s.gate.busy = false) (h : Grows (some id) e e') : Grows none e e' := by
  refine h.of_held fun id' s' hs' => ⟨?_, hs'.2⟩
  rintro ⟨⟩
  obtain ⟨-, hs', hbusy⟩ := hs'
  rw [hs] at hs'
  cases hs'
  rw [hfree] at hbusy
  exact Bool.noConfusion hbusy

theorem Evolves.of_others (h : Evolves none e e') : Evolves own e e' := fun hfit =>
  ⟨(h hfit).1, (h hfit).2.1, (h hfit).2.2.of_others⟩

theorem Evolves.of_free {id : Nat} {s : Slot} (hs : e.slots[id]? = some s)
    (hfree : s.gate.busy = false) (h : Evolves (some id) e e') : Evolves none e e' := fun hfit =>
  ⟨(h hfit).1, (h hfit).2.1, (h hfit).2.2.of_free hs hfree⟩

/-! ### What each change leaves alone -/

theorem Step.evolves (h : Step e e') (hgrows : Fit e → Grows own e e') : Evolves own e e' :=
  fun hfit => ⟨h.fit hfit, .single h, hgrows hfit⟩

/-- A change with no turn in it and of the same keeper. -/
theorem Still.of_events (evs : List Event) (hk : e'.queue.keeper = e.queue.keeper)
    (hj : e'.journal = evs ++ e.journal) (hturn : ∀ ev ∈ evs, ev.isTurn = false) : Still e e' :=
  fun hdrain => ⟨hk.trans hdrain, evs, hj, hturn⟩

/-- A change after which nothing is new in the queue. -/
theorem Grows.of_events (evs : List Event) (hpolicy : e'.policy = e.policy)
    (hresolvers : e'.resolvers = e.resolvers) (hsurfaces : e'.surfaces = e.surfaces)
    (hslots : ∀ id, some id ≠ own → e'.slots[id]? = e.slots[id]?)
    (hqueue : e'.queue.jobs <:+ e.queue.jobs)
    (hj : e'.journal = evs ++ e.journal) (hqueued : ∀ j, .queued j ∉ evs) : Grows own e e' where
  policy := hpolicy
  tables := by rw [hresolvers]
  calls := by simp [Editor.callsOf, hresolvers]
  surfaces := by rw [hsurfaces]
  slots := fun id s hs => (hslots id hs.1).trans hs.2.1
  queue := fun _ _ _ => hqueue.filter _
  journal := ⟨evs, hj, fun _ _ _ j hmem => absurd hmem (hqueued j)⟩

theorem Outside.runs (h : Outside e e') : Runs e e' := by
  obtain ⟨evs, hj, hidle⟩ := h.journal
  refine ⟨(Step.outside h).evolves fun _ => ?_, fun _ => .of_events evs (by rw [h.queue]) hj ?_⟩
  · exact {
      policy := h.policy
      tables := by rw [h.tables]
      calls := h.calls
      surfaces := h.surfaces
      slots := fun id s hs => by rw [h.slots]; exact hs.2.1
      queue := fun _ _ _ => by rw [Editor.jobsFor, h.queue]; exact List.suffix_refl _
      journal := ⟨evs, hj, fun _ _ _ j hmem => absurd (hidle _ hmem) (by simp [Event.isIdle])⟩ }
  · exact fun ev hev => Event.not_isTurn_of_isIdle (hidle ev hev)

theorem grows_tearDown (e : Editor) (id : Nat) : Grows own e (e.tearDown id) := by
  unfold Editor.tearDown
  split
  · exact .of_events [.tornDown _] rfl rfl rfl (fun _ _ => rfl) (List.suffix_refl _) rfl (by simp)
  · exact {}

theorem still_tearDown (e : Editor) (id : Nat) : Still e (e.tearDown id) := by
  unfold Editor.tearDown
  split
  · exact .of_events [.tornDown _] rfl rfl (by simp [Event.isTurn])
  · exact .of_events [] rfl rfl (by simp)

/-- A new resolver was not called yet, and one that is not there even less. -/
theorem Editor.callsOf_addSlot_le (e : Editor) (doc : DocumentId) (surface : Nat) (r : Resolver)
    (resolver : Nat) : e.callsOf resolver ≤ (e.addSlot doc surface r).callsOf resolver := by
  show _ ≤ ((e.resolvers ++ [r]).map (·.calls)).getD resolver 0
  rw [Editor.callsOf, List.map_append, List.getD_eq_getElem?_getD, List.getD_eq_getElem?_getD]
  rcases Nat.lt_or_ge resolver e.resolvers.length with hlt | hge
  · rw [List.getElem?_append_left (by simpa using hlt)]
  · rw [List.getElem?_eq_none (by simpa using hge)]
    exact Nat.zero_le _

theorem grows_addSlot (e : Editor) (doc : DocumentId) (surface : Nat) (r : Resolver) :
    Grows own e (e.addSlot doc surface r) where
  tables := by
    show _ <+: (e.resolvers ++ [r]).map (·.tables)
    rw [List.map_append]
    exact List.prefix_append _ _
  calls := e.callsOf_addSlot_le doc surface r
  slots := by
    intro id s hs
    show (e.slots ++ [_])[id]? = some s
    rw [List.getElem?_append_left (List.getElem?_eq_some_iff.mp hs.2.1).1]
    exact hs.2.1

theorem grows_install (e : Editor) (doc : DocumentId) (surface : Nat) (r : Resolver) :
    Grows own e (e.install doc surface r) := by
  unfold Editor.install
  split
  · exact (grows_addSlot e doc surface r).trans (grows_tearDown _ _)
  · exact grows_addSlot e doc surface r

theorem runs_install (e : Editor) (doc : DocumentId) (surface : Nat) (r : Resolver) :
    Runs e (e.install doc surface r) := by
  refine ⟨(Step.install e doc surface r).evolves fun _ => grows_install e doc surface r,
    fun _ => ?_⟩
  have hadd : Still e (e.addSlot doc surface r) := .of_events [] rfl rfl (by simp)
  unfold Editor.install
  split
  · exact hadd.trans (still_tearDown _ _)
  · exact hadd

theorem runs_uninstall (e : Editor) (doc : DocumentId) : Runs e (e.uninstall doc).2 := by
  refine ⟨(Step.uninstall e doc).evolves fun _ => ?_, fun _ => ?_⟩
  · unfold Editor.uninstall
    split
    · have herase : Grows none e { e with documents := e.documents.erase doc } := {}
      exact herase.trans (grows_tearDown _ _)
    · exact {}
  · unfold Editor.uninstall
    split
    · exact still_tearDown { e with documents := e.documents.erase doc } _
    · exact .of_events [] rfl rfl (by simp)

/-- A job sent off adds nothing to the queue for other targets. -/
theorem jobsFor_dispatch {j : Job} {t : Target} (h : j.target ≠ t) :
    (e.dispatch j).jobsFor t = e.jobsFor t := by
  unfold Editor.jobsFor
  rw [Editor.queue_dispatch]
  split
  · rfl
  · simp [RenderQueue.push, h]

theorem grows_dispatch {j : Job} (hj : ∀ id s, e.Held own id s → j.target ≠ s.target) :
    Grows own e (e.dispatch j) where
  policy := Editor.policy_dispatch e j
  tables := by rw [(sameLives_dispatch e j).resolvers]
  calls := by simp [Editor.callsOf, (sameLives_dispatch e j).resolvers]
  surfaces := by
    unfold Editor.dispatch
    split <;> exact List.prefix_refl _
  slots := fun id s hs => by rw [Editor.slots_dispatch]; exact hs.2.1
  queue := fun id s hs => by rw [jobsFor_dispatch (hj id s hs)]
  journal := ⟨_, Editor.journal_dispatch e j, fun id s hs j' hmem => by
    cases Editor.mem_sent hmem
    exact hj id s hs⟩

theorem still_dispatch (e : Editor) (j : Job) : Still e (e.dispatch j) := by
  refine .of_events _ (keeper_dispatch e j) (Editor.journal_dispatch e j) ?_
  intro ev hmem
  rw [Editor.mem_sent hmem]
  rfl

/-- What is sent off by name goes to no slot. -/
theorem runs_dispatch {j : Job} (hj : e.Named j.target.lifetime.own) : Runs e (e.dispatch j) := by
  refine ⟨(Step.send hj).evolves fun hfit => grows_dispatch ?_, fun _ => still_dispatch e j⟩
  intro id s hs heq
  have hmem : s.target ∈ e.targets := List.mem_map_of_mem (List.mem_of_getElem? hs.2.1)
  exact (hfit.named _ hj).2 _ hmem (by rw [heq])

end Highlighting
