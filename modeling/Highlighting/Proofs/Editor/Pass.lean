/-
Passes, from the inside and from outside.

Inside its gate a pass only asks and reports until its very end; whatever happens
meanwhile is the doing of others, who leave its slot alone.  So the highlights it
compared with are still the highlights when it replaces them, and the answers of its
resolver still count.  At the end it takes one of a few steps.  That makes a pass
just another command for those it happens to run inside of, and leaves the slot of
one that does not succeed as it was.
-/
import Highlighting.Proofs.Editor.Callback

namespace Highlighting

open Act

theorem Editor.slot?_eq_some {e : Editor} {doc : DocumentId} {id : Nat} {s : Slot} :
    e.slot? doc = some (id, s) ↔ e.documents.get? doc = some id ∧ e.slots[id]? = some s := by
  unfold Editor.slot?
  constructor
  · intro h
    obtain ⟨id', hid, h⟩ := Option.bind_eq_some_iff.mp h
    obtain ⟨s', hs, h⟩ := Option.bind_eq_some_iff.mp h
    cases h
    exact ⟨hid, hs⟩
  · rintro ⟨hid, hs⟩
    rw [hid, Option.bind_eq_bind, Option.bind_some, hs]
    rfl

/-! ### Steps of a pass, as others see them -/

section Steps

variable {own : Option Nat}

theorem grows_modifySlot (e : Editor) (id : Nat) (f : Slot → Slot) :
    Grows (some id) e (e.modifySlot id f) := by
  refine .of_events [] rfl rfl rfl ?_ (List.suffix_refl _) rfl (by simp)
  intro id' hne
  rw [Editor.getElem?_modifySlot, if_neg]
  rintro rfl
  exact hne rfl

theorem grows_log (e : Editor) {event : Event} (h : ∀ j, event ≠ .queued j) :
    Grows own e (e.log event) :=
  .of_events [event] rfl rfl rfl (fun _ _ => rfl) (List.suffix_refl _) rfl
    fun j hj => h j (List.mem_singleton.mp hj).symm

theorem still_log (e : Editor) {event : Event} (h : event.isTurn = false) : Still e (e.log event) :=
  .of_events [event] rfl rfl (by simpa using h)

theorem still_modifySlot (e : Editor) (id : Nat) (f : Slot → Slot) : Still e (e.modifySlot id f) :=
  .of_events [] rfl rfl (by simp)

theorem grows_enterGate (e : Editor) (id : Nat) (inside : Gate (List Highlight)) :
    Grows (some id) e (e.enterGate id inside) :=
  (grows_modifySlot e id _).trans (grows_log _ (by simp))

theorem still_enterGate (e : Editor) (id : Nat) (inside : Gate (List Highlight)) :
    Still e (e.enterGate id inside) :=
  (still_modifySlot e id fun s => { s with gate := inside }).trans (still_log _ rfl)

theorem grows_recordPass (e : Editor) (slot : Option Nat) (r : Request) (o : Outcome) :
    Grows own e (e.recordPass slot r o) :=
  .of_events [.ended slot r o] rfl rfl rfl (fun _ _ => rfl) (List.suffix_refl _) rfl (by simp)

theorem still_recordPass (e : Editor) (slot : Option Nat) (r : Request) (o : Outcome) :
    Still e (e.recordPass slot r o) :=
  .of_events [.ended slot r o] rfl rfl (by simp [Event.isTurn])

/-- Slots have targets of their own. -/
theorem Fit.target_ne {e : Editor} (h : Fit e) {id id' : Nat} {s s' : Slot}
    (hs : e.slots[id]? = some s) (hs' : e.slots[id']? = some s') (hne : id ≠ id') :
    s.target ≠ s'.target := by
  intro heq
  have hown : ∀ {i : Nat} {a : Slot}, e.slots[i]? = some a →
      (e.targets.map (·.lifetime.own))[i]? = some a.target.lifetime.own := by
    intro i a ha
    rw [Editor.targets, List.map_map, List.getElem?_map, ha]
    rfl
  have hlt : id < (e.targets.map (·.lifetime.own)).length :=
    (List.getElem?_eq_some_iff.mp (hown hs)).1
  refine hne ((List.getElem?_inj hlt h.apart).mp ?_)
  rw [hown hs, hown hs', heq]

theorem grows_settle {e : Editor} (hfit : Fit e) {id : Nat} {s : Slot} (hs : e.slots[id]? = some s)
    (r : Request) (wanted : List Highlight) (d : Delta) (next : List Highlight) :
    Grows (some id) e (e.settle id s.target r wanted d next) := by
  let replaced := (e.modifySlot id fun s =>
    { s with gate := s.gate.set next, snapshot := next }).log (.settled id wanted)
  have hreplaced : Grows (some id) e replaced :=
    (grows_modifySlot e id _).trans (grows_log _ (by simp))
  have hsent : Grows (some id) replaced (replaced.dispatch ⟨s.target, d⟩) := by
    refine grows_dispatch fun id' s' hs' => hfit.target_ne hs ?_ fun heq => hs'.1 (by rw [heq])
    have hslot := hs'.2.1
    rw [Editor.slots_log, Editor.getElem?_modifySlot, if_neg fun heq => hs'.1 (by rw [heq])] at hslot
    exact hslot
  have hpublished : Grows (some id) e (e.publish id s.target wanted d next).2 := by
    unfold Editor.publish
    split
    · exact hreplaced
    · exact hreplaced.trans hsent
  exact ((hpublished.trans {}).trans (grows_modifySlot _ id _)).trans (grows_recordPass _ _ _ _)

theorem still_settle (e : Editor) (id : Nat) (t : Target) (r : Request) (wanted : List Highlight)
    (d : Delta) (next : List Highlight) : Still e (e.settle id t r wanted d next) :=
  .of_events _ (keeper_settle e id t r wanted d next)
    (e.journal_settle id t r wanted d next) fun _ => Editor.not_isTurn_of_mem_settling

end Steps

/-! ### Inside the gate -/

variable {run : Script → EditorM Unit}

/-- How a pass in the gate of a slot, begun in `e`, can leave the editor just before it leaves the
gate: with nothing done, or with everything done.  `found` is what came of its classification. -/
inductive PassEnd (id : Nat) (s : Slot) (r : Request) (found : Except Halt (List Highlight))
    (e : Editor) : Except Halt Outcome → Editor → Prop where
  | stopped {result : Except Halt Outcome} {e' : Editor} (h : Runs e e')
      (hresult : ∀ o, result = .ok o → o.isSuccess = false) : PassEnd id s r found e result e'
  | settled {e' : Editor} {wanted : List Highlight} {d : Delta} (h : Runs e e')
      (hgo : e'.isInterrupted r.token s.target = false) (hfound : found = .ok wanted)
      (hwanted : e'.Finds s.resolver 0 r.tree wanted) (hd : d = .between s.gate.value wanted) :
      PassEnd id s r found e (.ok (e'.publish id s.target wanted d (d.apply s.gate.value)).1)
        ((e'.publish id s.target wanted d (d.apply s.gate.value)).2.worked r.token unitsPublish)

theorem PassEnd.from_earlier {id : Nat} {s : Slot} {r : Request}
    {found : Except Halt (List Highlight)} {e₀ e e' : Editor} {result : Except Halt Outcome}
    (h₀ : Runs e₀ e) (h : PassEnd id s r found e result e') : PassEnd id s r found e₀ result e' := by
  cases h with
  | stopped h hresult => exact .stopped (h₀.trans h) hresult
  | settled h hgo hfound hwanted hd => exact .settled (h₀.trans h) hgo hfound hwanted hd

section Inside

variable {e : Editor} {id : Nat} {s : Slot}

/-- While a pass is in, its slot stays the same. -/
theorem Runs.inside {e' : Editor} (h : Runs e e') (hfit : Fit e) (hs : e.slots[id]? = some s)
    (hbusy : s.gate.busy = true) : Fit e' ∧ e'.slots[id]? = some s := by
  obtain ⟨hfit', -, hgrows⟩ := h.1 hfit
  exact ⟨hfit', hgrows.slots id s ⟨Option.some_ne_none id, hs, hbusy⟩⟩

theorem reconcileWith_spec (hrun : Commanding run) (hfit : Fit e) (hs : e.slots[id]? = some s)
    {r : Request} {wanted : List Highlight} (hwanted : e.Finds s.resolver 0 r.tree wanted) :
    Ensures (reconcileWith run id s.target r.token wanted) e (Runs e)
      (PassEnd id s r (.ok wanted) e) := by
  unfold reconcileWith EditorM.work
  let classified := e.worked r.token unitsClassify
  let read := classified.worked r.token unitsSnapshot
  let compared := read.worked r.token unitsDiff
  have hclassified : Runs e classified := (outside_worked e _ _).runs
  have hread : Runs e read := hclassified.trans (outside_worked classified _ _).runs
  have hcompared : Runs e compared := hread.trans (outside_worked read _ _).runs
  have hshown : classified.gateValue id = s.gate.value := by
    rw [Editor.gateValue, show classified.slots[id]? = some s from hs]
  rw [ensures_bind, ensures_modify, next_ok, ensures_bind, ensures_get, next_ok]
  split
  · rw [ensures_pure]
    exact .stopped hclassified (by rintro _ ⟨⟩; rfl)
  rw [ensures_bind, ensures_get, next_ok, hshown, ensures_bind, ensures_modify, next_ok,
    ensures_bind, ensures_get, next_ok]
  split
  · rw [ensures_pure]
    exact .stopped hread (by rintro _ ⟨⟩; rfl)
  rw [ensures_bind, ensures_modify, next_ok, ensures_bind, ensures_get, next_ok]
  split
  · rw [ensures_pure]
    exact .stopped hcompared (by rintro _ ⟨⟩; rfl)
  rw [ensures_bind]
  refine (isLive_keeps hrun s.target compared).mono (fun _ hm => hcompared.trans hm)
    fun live e' hasked => ?_
  have hback : Runs e e' := hcompared.trans hasked
  cases live with
  | error => exact .stopped hback (by simp)
  | ok live =>
      rw [next_ok]
      cases live with
      | false =>
          rw [if_pos Bool.not_false, ensures_pure]
          exact .stopped hback (by rintro _ ⟨⟩; rfl)
      | true =>
          rw [if_neg (show ¬(!true) = true by simp), ensures_bind, ensures_get, next_ok]
          split
          · rw [ensures_pure]
            exact .stopped hback (by rintro _ ⟨⟩; rfl)
          · rename_i hgo
            rw [ensures_bind, ensures_modifyGet, next_ok, ensures_bind, ensures_modify, next_ok,
              ensures_pure]
            have hid := hfit.resolvers s (List.mem_of_getElem? hs)
            exact .settled hback (by simpa using hgo) rfl ((hback.1 hfit).2.2.finds hid hwanted) rfl

theorem passInside_spec (hrun : Commanding run) (hfit : Fit e) (hs : e.slots[id]? = some s)
    (hbusy : s.gate.busy = true) (r : Request) :
    Ensures (passInside run id s r) e (Runs e) (PassEnd id s r
      (wantedHighlights run s.resolver r.tree (e.worked r.token unitsBegin)).result e) := by
  unfold passInside EditorM.work
  let begun := e.worked r.token unitsBegin
  have hbegun : Runs e begun := (outside_worked e _ _).runs
  obtain ⟨hfit₁, hs₁⟩ := hbegun.inside hfit hs hbusy
  rw [ensures_bind, ensures_modify, next_ok, ensures_bind, EditorM.ensures_catching]
  refine (wantedHighlights_spec hrun hfit₁ (hfit₁.resolvers s (List.mem_of_getElem? hs₁))
    r.tree).with_result.mono (fun _ hm => hbegun.trans hm) fun result e' h => ?_
  obtain ⟨hresult, hruns, hfinds⟩ := h
  have hback : Runs e e' := hbegun.trans hruns
  rw [hresult]
  cases result with
  | ok wanted =>
      obtain ⟨hfit', hs'⟩ := hruns.inside hfit₁ hs₁ hbusy
      have hwanted : e'.Finds s.resolver 0 r.tree wanted :=
        (hfinds wanted rfl).mono (Nat.zero_le _) (Nat.le_refl _)
      exact (reconcileWith_spec hrun hfit' hs' hwanted).mono (fun _ hm => hback.trans hm)
        fun _ _ hend => hend.from_earlier hback
  | error halted =>
      cases halted with
      | panic p =>
          dsimp only
          rw [next_ok, ensures_pure]
          exact .stopped hback (by rintro _ ⟨⟩; rfl)
      | emptyMark | outOfFuel => exact .stopped hback (by simp)

end Inside

/-! ### A whole pass -/

theorem Slot.leave_entered {s : Slot} (h : s.gate.busy = false) :
    { s.entered with gate := s.entered.gate.leave } = s := by
  obtain ⟨target, resolver, ⟨value, busy⟩, snapshot⟩ := s
  cases h
  rfl

/-- The slot `s` is as it was, and nothing was queued for it. -/
structure Spared (id : Nat) (s : Slot) (e e' : Editor) : Prop where
  slot : e'.slots[id]? = some s
  queue : e'.jobsFor s.target <:+ e.jobsFor s.target
  journal : ∃ evs, e'.journal = evs ++ e.journal ∧ ∀ j, .queued j ∈ evs → j.target ≠ s.target

/-- A slot stays spared while the journal tells of other things than new jobs. -/
theorem Spared.tell {id : Nat} {s : Slot} {e e' e'' : Editor} (h : Spared id s e e') (event : Event)
    (hevent : ∀ j, .queued j ≠ event) (hslots : e''.slots = e'.slots)
    (hqueue : e''.queue = e'.queue) (hjournal : e''.journal = event :: e'.journal) :
    Spared id s e e'' := by
  obtain ⟨evs, hj, hqueued⟩ := h.journal
  refine ⟨?_, ?_, event :: evs, ?_, fun j hmem => ?_⟩
  · rw [hslots]
    exact h.slot
  · rw [Editor.jobsFor, hqueue]
    exact h.queue
  · rw [hjournal, hj, List.cons_append]
  · exact hqueued j ((List.mem_cons.mp hmem).resolve_left (hevent j))

section Whole

variable {e : Editor} {id : Nat} {s : Slot}

theorem enterGate_slot (hs : e.slots[id]? = some s) :
    (e.enterGate id s.entered.gate).slots[id]? = some s.entered := by
  show (e.modifySlot id _).slots[id]? = _
  rw [Editor.getElem?_modifySlot, if_pos rfl, hs]
  rfl

/-- A pass that was in and only let others do things has spared its slot. -/
theorem spared_leaveGate (hfit : Fit (e.enterGate id s.entered.gate))
    (hs : e.slots[id]? = some s) (hfree : s.gate.busy = false) {e' : Editor}
    (h : Runs (e.enterGate id s.entered.gate) e') : Spared id s e (e'.leaveGate id) := by
  have hgrows := (h.1 hfit).2.2
  have hheld : (e.enterGate id s.entered.gate).Held none id s.entered :=
    ⟨Option.some_ne_none id, enterGate_slot hs, rfl⟩
  obtain ⟨evs, hj, hqueued⟩ := hgrows.journal
  refine ⟨?_, hgrows.queue id s.entered hheld, evs ++ [.entered id], ?_, ?_⟩
  · show (e'.modifySlot id _).slots[id]? = _
    rw [Editor.getElem?_modifySlot, if_pos rfl, hgrows.slots id _ hheld]
    exact congrArg some (Slot.leave_entered hfree)
  · rw [List.append_assoc]
    exact hj
  · intro j hmem
    rcases List.mem_append.mp hmem with hmem | hmem
    · exact hqueued id _ hheld j hmem
    · simp at hmem

/-- What a pass that entered a free gate and leaves it by a step is to others. -/
theorem runs_of_pass (hs : e.slots[id]? = some s) (hfree : s.gate.busy = false) {e' e'' : Editor}
    (h : Runs (e.enterGate id s.entered.gate) e') (hstep : Step e' e'')
    (hgrows : Fit e' → Grows (some id) e' e'') (hstill : Still e' e'') : Runs e e'' := by
  have henter : Evolves (some id) e (e.enterGate id s.entered.gate) :=
    (Step.enter hs hfree).evolves fun _ => grows_enterGate e id _
  constructor
  · exact ((henter.trans h.1.of_others).trans (hstep.evolves hgrows)).of_free hs hfree
  · intro hfit
    exact ((still_enterGate e id _).trans (h.2 (henter hfit).1)).trans hstill

/-- What others see of a pass that entered a free gate and is still in. -/
theorem runs_inside (hs : e.slots[id]? = some s) (hfree : s.gate.busy = false) {e' : Editor}
    (h : Runs (e.enterGate id s.entered.gate) e') : Runs e e' :=
  runs_of_pass hs hfree h (.outside {}) (fun _ => {}) (.of_events [] rfl rfl (by simp))

/-- A pass that runs to its end. -/
def Succeeded (result : Except Halt Outcome) : Prop := ∃ o, result = .ok o ∧ o.isSuccess = true

/-- What becomes of the course of a pass inside its gate once it is out again. -/
def closePass (id : Nat) (r : Request) :
    Course Editor Halt Outcome → Course Editor Halt Outcome
  | ⟨seen, .ok o, e⟩ => ⟨seen, .ok o, (e.leaveGate id).recordPass (some id) r o⟩
  | ⟨seen, .error (.panic p), e⟩ => ⟨seen, .error (.panic p), (e.leaveGate id).log (.unwound id r)⟩
  | ⟨seen, .error h, e⟩ => ⟨seen, .error h, e.leaveGate id⟩

theorem result_closePass (id : Nat) (r : Request) (inside : Course Editor Halt Outcome) :
    (closePass id r inside).result = inside.result := by
  rcases inside with ⟨_, (_ | _ | _) | _, _⟩ <;> rfl

theorem seen_closePass (id : Nat) (r : Request) (inside : Course Editor Halt Outcome) :
    (closePass id r inside).seen = inside.seen := by
  rcases inside with ⟨_, (_ | _ | _) | _, _⟩ <;> rfl

theorem reconcile_of_none {r : Request} (hslot : e.slot? r.doc = none) :
    reconcile run r e = ⟨[], .ok .notInstalled, e.recordPass none r .notInstalled⟩ := by
  unfold reconcile
  rw [get_bind_apply, hslot]
  rfl

theorem reconcile_of_busy {r : Request} (hslot : e.slot? r.doc = some (id, s))
    (hbusy : s.gate.busy = true) :
    reconcile run r e = ⟨[], .ok .dropped, e.recordPass (some id) r .dropped⟩ := by
  unfold reconcile Gate.enter?
  rw [get_bind_apply, hslot]
  dsimp only
  rw [hbusy, if_pos rfl]
  rfl

theorem reconcile_of_free {r : Request} (hslot : e.slot? r.doc = some (id, s))
    (hfree : s.gate.busy = false) :
    reconcile run r e = closePass id r (passInside run id s r (e.enterGate id s.entered.gate)) := by
  unfold reconcile Gate.enter?
  rw [get_bind_apply, hslot]
  dsimp only
  rw [hfree, if_neg Bool.false_ne_true]
  dsimp only
  rw [modify_bind_apply]
  change Act.bind (attempt (ensuring _ _)) _ (e.enterGate id s.entered.gate) = _
  unfold Act.bind attempt ensuring
  rcases passInside run id s r (e.enterGate id s.entered.gate) with ⟨seen, (_ | _ | _) | _, e'⟩ <;>
    exact congrArg (Course.mk · _ _) (List.append_nil seen)

/-- A pass in a free gate is a command like any other, and spares its slot unless it succeeds. -/
theorem closePass_spec (hfit : Fit e) (hs : e.slots[id]? = some s) (hfree : s.gate.busy = false)
    {r : Request} {inside : Course Editor Halt Outcome}
    (hseen : ∀ m ∈ inside.seen, Runs (e.enterGate id s.entered.gate) m)
    {found : Except Halt (List Highlight)}
    (hend : PassEnd id s.entered r found (e.enterGate id s.entered.gate) inside.result
      inside.last) :
    (∀ m ∈ (closePass id r inside).seen, Runs e m) ∧ Runs e (closePass id r inside).last ∧
      (¬Succeeded (closePass id r inside).result → Spared id s e (closePass id r inside).last) := by
  have hfit₁ := (Step.enter hs hfree).fit hfit
  have hs₁ := enterGate_slot hs
  obtain ⟨seen, result, e'⟩ := inside
  have hmoments : ∀ m ∈ seen, Runs e m := fun m hm => runs_inside hs hfree (hseen m hm)
  cases hend with
  | @stopped _ _ h hresult =>
      have hspared : Spared id s e (e'.leaveGate id) := spared_leaveGate hfit₁ hs hfree h
      have hid : id < e'.slots.length :=
        (List.getElem?_eq_some_iff.mp (h.inside hfit₁ hs₁ rfl).2).1
      match result with
      | .ok o =>
        have hlast := runs_of_pass hs hfree h (Step.abort e' id r (hresult o rfl) hid)
          (fun _ => (grows_modifySlot e' id _).trans (grows_recordPass _ _ _ _))
          ((still_modifySlot e' id _).trans (still_recordPass _ _ _ _))
        exact ⟨hmoments, hlast, fun _ => hspared.tell (.ended (some id) r o) (by simp) rfl rfl rfl⟩
      | .error (.panic _) =>
        have hlast := runs_of_pass hs hfree h (Step.unwind e' id r hid)
          (fun _ => (grows_modifySlot e' id _).trans (grows_log _ (by simp)))
          ((still_modifySlot e' id _).trans (still_log _ rfl))
        exact ⟨hmoments, hlast, fun _ => hspared.tell (.unwound id r) (by simp) rfl rfl rfl⟩
      | .error (.emptyMark _) | .error .outOfFuel =>
        have hlast := runs_of_pass hs hfree h (Step.leave e' id) (fun _ => grows_modifySlot e' id _)
          (still_modifySlot e' id _)
        exact ⟨hmoments, hlast, fun _ => hspared⟩
  | @settled e' wanted d h hgo _ hwanted hd =>
      have hs' := (h.inside hfit₁ hs₁ rfl).2
      have hlast := runs_of_pass hs hfree h (Step.settle hs' rfl hgo hwanted hd)
        (fun hfit' => grows_settle hfit' hs' r wanted d _) (still_settle e' id _ r wanted d _)
      refine ⟨hmoments, hlast, fun hno => ?_⟩
      exact absurd ⟨_, rfl, Editor.publish_isSuccess e' id s.target wanted d _⟩ hno

/-- **A pass is a command like any other, and spares its slot unless it succeeds.**  One that finds
its gate busy is dropped; the gate of any other was free and is free again. -/
theorem reconcile_spec (hrun : Commanding run) (hfit : Fit e) (r : Request) :
    Ensures (reconcile run r) e (Runs e) fun result e' =>
      Runs e e' ∧ (¬Succeeded result →
        match e.slot? r.doc with
        | none => result = .ok .notInstalled ∧ e' = e.recordPass none r .notInstalled
        | some (id, s) =>
          Spared id s e e' ∧ (result ≠ .ok .dropped → s.gate.busy = false)) := by
  have hrefuse : ∀ slot o, o.isSuccess = false → slot = none ∨ o = .dropped →
      Runs e (e.recordPass slot r o) := fun slot o ho hslot =>
    ⟨(Step.refuse e slot r ho hslot).evolves fun _ => grows_recordPass _ _ _ _,
      fun _ => still_recordPass _ _ _ _⟩
  unfold Ensures
  rcases hslot : e.slot? r.doc with _ | ⟨id, s⟩
  · rw [reconcile_of_none hslot]
    exact ⟨by simp, hrefuse none _ rfl (Or.inl rfl), fun _ => ⟨rfl, rfl⟩⟩
  · obtain ⟨-, hs⟩ := Editor.slot?_eq_some.mp hslot
    cases hgate : s.gate.busy with
    | true =>
        rw [reconcile_of_busy hslot hgate]
        refine ⟨by simp, hrefuse (some id) _ rfl (Or.inr rfl), fun _ => ⟨?_, fun hne =>
          absurd rfl hne⟩⟩
        have hhere : Spared id s e e := ⟨hs, List.suffix_refl _, [], rfl, by simp⟩
        exact hhere.tell (.ended (some id) r .dropped) (by simp) rfl rfl rfl
    | false =>
        rw [reconcile_of_free hslot hgate]
        have hinside : Ensures (passInside run id s r) (e.enterGate id s.entered.gate) _ _ :=
          passInside_spec (s := s.entered) hrun ((Step.enter hs hgate).fit hfit) (enterGate_slot hs)
            rfl r
        obtain ⟨hseen, hlast, hspared⟩ := closePass_spec hfit hs hgate hinside.1 hinside.2
        exact ⟨hseen, hlast, fun hfail => ⟨hspared hfail, fun _ => hgate⟩⟩

/-- A pass that succeeds was in a free gate, let others do things, was not interrupted, and then did
all there is to do at once with what its classification found. -/
theorem settled_of_success (hrun : Commanding run) (hfit : Fit e) {r : Request}
    (hslot : e.slot? r.doc = some (id, s)) (h : Succeeded (reconcile run r e).result) :
    ∃ e' wanted d, s.gate.busy = false ∧ Runs (e.enterGate id s.entered.gate) e' ∧
      e'.isInterrupted r.token s.target = false ∧
      (wantedHighlights run s.resolver r.tree
        ((e.enterGate id s.entered.gate).worked r.token unitsBegin)).result = .ok wanted ∧
      d = .between s.gate.value wanted ∧
      (reconcile run r e).last = e'.settle id s.target r wanted d (d.apply s.gate.value) := by
  obtain ⟨-, hs⟩ := Editor.slot?_eq_some.mp hslot
  obtain ⟨o, ho, hsuccess⟩ := h
  cases hgate : s.gate.busy with
  | true =>
      rw [reconcile_of_busy hslot hgate] at ho
      cases ho
      cases hsuccess
  | false =>
      have hfit₁ := (Step.enter hs hgate).fit hfit
      have hs₁ := enterGate_slot hs
      have hend : PassEnd id s.entered r _ (e.enterGate id s.entered.gate)
          (passInside run id s r (e.enterGate id s.entered.gate)).result
          (passInside run id s r (e.enterGate id s.entered.gate)).last :=
        (passInside_spec (s := s.entered) hrun hfit₁ hs₁ rfl r).2
      rw [reconcile_of_free hslot hgate] at ho ⊢
      generalize passInside run id s r (e.enterGate id s.entered.gate) = inside at ho hend ⊢
      obtain ⟨seen, result, e'⟩ := inside
      cases hend with
      | stopped _ hresult =>
          rw [result_closePass] at ho
          rw [hresult o ho] at hsuccess
          cases hsuccess
      | @settled e' wanted d h hgo hfound _ hd =>
          exact ⟨e', wanted, d, rfl, h, hgo, hfound, hd, rfl⟩

theorem reconcile_keeps (hrun : Commanding run) (r : Request) : Keeps Runs (reconcile run r) :=
  keeps_runs fun _ hfit => (reconcile_spec hrun hfit r).mono (fun _ hm => hm) fun _ _ h => h.1

/-- A pass that returns is the latest that happened. -/
theorem reconcile_recorded {r : Request} {o : Outcome} (ho : (reconcile run r e).result = .ok o) :
    ∃ past, (reconcile run r e).last.journal = .ended ((e.slot? r.doc).map (·.1)) r o :: past := by
  rcases hslot : e.slot? r.doc with _ | ⟨id, s⟩
  · rw [reconcile_of_none hslot] at ho ⊢
    cases ho
    exact ⟨_, rfl⟩
  · cases hgate : s.gate.busy with
    | true =>
        rw [reconcile_of_busy hslot hgate] at ho ⊢
        cases ho
        exact ⟨_, rfl⟩
    | false =>
        rw [reconcile_of_free hslot hgate] at ho ⊢
        generalize passInside run id s r (e.enterGate id s.entered.gate) = inside at ho ⊢
        match inside with
        | ⟨_, .ok _, _⟩ =>
          cases ho
          exact ⟨_, rfl⟩
        | ⟨_, .error (.panic _), _⟩ | ⟨_, .error (.emptyMark _), _⟩
        | ⟨_, .error .outOfFuel, _⟩ => cases ho

end Whole

end Highlighting
