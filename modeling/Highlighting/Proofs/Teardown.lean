/-
What happens to the changes of a slot that is torn down.

Whether a target is still there is asked at the turn of each change, first of the
editor and then, if the slot was not torn down, of the surface.  A change whose turn
comes after its slot was torn down is discarded at once.  But the surface may run
commands while it is asked, and the editor does not look again: a slot torn down
in the middle of that question, by a surface that goes on to say its view is there,
still gets the change.  There is no other way for a change to reach a slot that was
torn down.
-/
import Highlighting.Proofs.Screen

namespace Highlighting

/-! ### Turns follow one another -/

/-- A journal in which turns do not overlap, and nobody is given a change unasked. -/
inductive InTurn : List Event → Prop where
  | nil : InTurn []
  | pass {ev : Event} {past : List Event} (h : InTurn past) (hev : ev.isTurn = false) :
      InTurn (ev :: past)
  /-- A turn begins while the target is there. -/
  | take {j : Job} {past : List Event} (h : InTurn past) (hturn : turnOf past = none)
      (hlife : .tornDown j.target ∉ past) : InTurn (.taken j :: past)
  /-- A turn is over as soon as it began. -/
  | skip {j : Job} {past : List Event} (h : InTurn past) (hturn : turnOf past = none) :
      InTurn (.discarded j :: .taken j :: past)
  | deal {j : Job} {ending : Event} {past : List Event} (h : InTurn past)
      (hturn : turnOf past = some j) (hdealt : ending.dealt? = some j)
      (hover : ∀ surface, ending = .applied surface j → HandedOver surface j past) :
      InTurn (ending :: past)

/-- Among some events, latest first, none concerns a turn, or one is the earliest that does. -/
theorem Event.earliest_turn (evs : List Event) : (∀ ev ∈ evs, ev.isTurn = false) ∨
    ∃ (later : List Event) (ev : Event) (during : List Event), evs = later ++ ev :: during ∧
      ev.isTurn = true ∧ ∀ ev ∈ during, ev.isTurn = false := by
  induction evs with
  | nil => exact Or.inl (by simp)
  | cons ev evs ih =>
      rcases ih with hnone | ⟨later, ev', during, rfl, hturn, hduring⟩
      · cases hev : ev.isTurn with
        | true => exact Or.inr ⟨[], ev, evs, rfl, hev, hnone⟩
        | false => exact Or.inl (List.forall_mem_cons.mpr ⟨hev, hnone⟩)
      · exact Or.inr ⟨ev :: later, ev', during, rfl, hturn, hduring⟩

/-- An event that is the beginning of a turn, seen in its place: no turn was open, and if the target
was torn down before, the next event ended this one. -/
def BeginsTurn (ev : Event) (later past : List Event) : Prop :=
  ∃ j, ev = .taken j ∧ turnOf past = none ∧ (.tornDown j.target ∈ past → [.discarded j] <:+ later)

theorem BeginsTurn.mono {ev : Event} {later later' past : List Event} (h : BeginsTurn ev later past)
    (hle : later <:+ later') : BeginsTurn ev later' past := by
  obtain ⟨j, hev, hnone, hskip⟩ := h
  exact ⟨j, hev, hnone, fun htorn => (hskip htorn).trans hle⟩

/-- An event that is the end of a turn: it was that of the same job, and a change handed over had
been asked for. -/
def EndsTurn (ev : Event) (past : List Event) : Prop :=
  ∃ j, ev.dealt? = some j ∧ turnOf past = some j ∧
    ∀ surface, ev = .applied surface j → HandedOver surface j past

namespace InTurn

variable {journal : List Event}

theorem append (h : InTurn journal) {evs : List Event} (hevs : ∀ ev ∈ evs, ev.isTurn = false) :
    InTurn (evs ++ journal) := by
  induction evs with
  | nil => exact h
  | cons ev evs ih =>
      exact (ih fun ev' hmem => hevs ev' (List.mem_cons_of_mem _ hmem)).pass
        (hevs ev List.mem_cons_self)

/-- Whatever concerns a turn begins or ends it. -/
theorem split (h : InTurn journal) : ∀ {later : List Event} {ev : Event} {past : List Event},
    journal = later ++ ev :: past → ev.isTurn = true →
      BeginsTurn ev later past ∨ EndsTurn ev past := by
  induction h with
  | nil => simp
  | pass _ hev ih =>
      intro later ev past heq hturn
      rcases List.cons_eq_append_iff.mp heq with ⟨-, hcons⟩ | ⟨later, rfl, hpast⟩
      · cases hcons
        exact Bool.noConfusion (hev.symm.trans hturn)
      · exact (ih hpast hturn).imp_left (·.mono (List.suffix_cons _ _))
  | @take j _ _ hnone hlife ih =>
      intro later ev past heq hturn
      rcases List.cons_eq_append_iff.mp heq with ⟨-, hcons⟩ | ⟨later, rfl, hpast⟩
      · cases hcons
        exact Or.inl ⟨j, rfl, hnone, fun htorn => absurd htorn hlife⟩
      · exact (ih hpast hturn).imp_left (·.mono (List.suffix_cons _ _))
  | @skip j _ _ hnone ih =>
      intro later ev past heq hturn
      match later, heq with
      | [], heq =>
        cases heq
        exact Or.inr ⟨j, rfl, rfl, by simp⟩
      | [_], heq =>
        cases heq
        exact Or.inl ⟨j, rfl, hnone, fun _ => List.suffix_refl _⟩
      | first :: second :: later, heq =>
        simp only [List.cons_append, List.cons.injEq] at heq
        exact (ih heq.2.2 hturn).imp_left (·.mono ⟨[first, second], rfl⟩)
  | @deal j _ _ _ hopen hdealt hover ih =>
      intro later ev past heq hturn
      rcases List.cons_eq_append_iff.mp heq with ⟨-, hcons⟩ | ⟨later, rfl, hpast⟩
      · cases hcons
        exact Or.inr ⟨j, hdealt, hopen, hover⟩
      · exact (ih hpast hturn).imp_left (·.mono (List.suffix_cons _ _))

/-- Every change that was handed over had its turn, and its surface was asked. -/
theorem handed (h : InTurn journal) {later : List Event} {surface : String} {j : Job}
    {past : List Event} (heq : journal = later ++ .applied surface j :: past) :
    HandedOver surface j past := by
  rcases h.split heq rfl with ⟨_, hev, -⟩ | ⟨j', hdealt, -, hover⟩
  · cases hev
  · cases hdealt
    exact hover surface rfl

/-- The turn of a change whose target was torn down before is over as soon as it begins. -/
theorem skipped (h : InTurn journal) {later : List Event} {j : Job} {past : List Event}
    (heq : journal = later ++ .taken j :: past) (htorn : .tornDown j.target ∈ past) :
    [.discarded j] <:+ later := by
  rcases h.split heq rfl with ⟨j', hev, -, hskip⟩ | ⟨_, hdealt, -⟩
  · cases hev
    exact hskip htorn
  · cases hdealt

/-- A turn that is not open any more ended for its own job, and nothing had a turn meanwhile. -/
theorem ended (h : InTurn journal) {later : List Event} {j : Job} {past : List Event}
    (heq : journal = later ++ .taken j :: past) :
    (∀ ev ∈ later, ev.isTurn = false) ∨
    ∃ (later' : List Event) (ending : Event) (during : List Event),
      later = later' ++ ending :: during ∧ ending.dealt? = some j ∧
        ∀ ev ∈ during, ev.isTurn = false := by
  rcases Event.earliest_turn later with hopen | ⟨later', ending, during, rfl, hturn, hduring⟩
  · exact Or.inl hopen
  · have hj : turnOf (during ++ .taken j :: past) = some j := by rw [turnOf_append hduring, turnOf]
    rw [List.append_assoc, List.cons_append] at heq
    rcases h.split heq hturn with ⟨_, -, hnone, -⟩ | ⟨j', hdealt, hsome, -⟩
    · rw [hj] at hnone
      cases hnone
    · rw [hj] at hsome
      cases hsome
      exact Or.inr ⟨later', ending, during, rfl, hdealt, hduring⟩

end InTurn

/-! ### One step -/

theorem Step.inTurn {e e' : Editor} (hstep : Step e e') (hfit : Fit e) (h : InTurn e.journal) :
    InTurn e'.journal := by
  cases hstep with
  | outside ho =>
      obtain ⟨evs, hj, hidle⟩ := ho.journal
      rw [hj]
      exact h.append fun ev hev => Event.not_isTurn_of_isIdle (hidle ev hev)
  | install doc surface r =>
      obtain ⟨evs, hj, htorn⟩ := journal_install e doc surface r
      rw [hj]
      refine h.append fun ev hev => ?_
      obtain ⟨t, rfl⟩ := htorn ev hev
      rfl
  | uninstall doc =>
      obtain ⟨evs, hj, htorn⟩ := journal_uninstall e doc
      rw [hj]
      refine h.append fun ev hev => ?_
      obtain ⟨t, rfl⟩ := htorn ev hev
      rfl
  | enter | refuse | abort | unwind => exact h.pass rfl
  | @settle id s r wanted d =>
      rw [Editor.journal_settle]
      refine h.append fun ev hev => ?_
      rcases Editor.mem_settling hev with ⟨o, rfl, -⟩ | rfl | rfl <;> rfl
  | leave | keep | dropQueue => exact h
  | send =>
      rw [Editor.journal_dispatch]
      exact h.append fun ev hev => by rw [Editor.mem_sent hev]; rfl
  | take _ _ hturn hlife =>
      exact h.take hturn fun htorn => Bool.noConfusion (hlife.symm.trans (hfit.isTornDown htorn))
  | skip _ _ hturn => exact h.skip hturn
  | hand hover =>
      refine h.deal (turnOf_of_handedOver hover) rfl ?_
      rintro _ ⟨⟩
      exact hover
  | discard hturn | lose hturn => exact h.deal hturn rfl (by simp)

theorem Editor.Reachable.inTurn {e : Editor} (h : e.Reachable) : InTurn e.journal :=
  (h.invariant (I := fun e => InTurn e.journal) (fun _ _ _ => .nil)
    fun _ _ hfit hI hstep => hstep.inTurn hfit hI).2

/-! ### Changes of a slot that was torn down -/

theorem tornDown_mem_tearDown {e : Editor} {id : Nat} {s : Slot} (hs : e.slots[id]? = some s) :
    .tornDown s.target ∈ (e.tearDown id).journal := by
  rw [Editor.tearDown, hs]
  exact List.mem_cons_self

/-- Whoever uninstalls a document or installs it anew tears its slot down. -/
theorem tornDown_of_slot {e : Editor} {doc : DocumentId} {id : Nat} {s : Slot}
    (hslot : e.slot? doc = some (id, s)) :
    (e.uninstall doc).1 = true ∧ .tornDown s.target ∈ (e.uninstall doc).2.journal ∧
      ∀ surface r, .tornDown s.target ∈ (e.install doc surface r).journal := by
  obtain ⟨hdoc, hs⟩ := Editor.slot?_eq_some.mp hslot
  refine ⟨?_, ?_, fun surface r => ?_⟩
  · rw [Editor.uninstall, hdoc]
  · rw [Editor.uninstall, hdoc]
    exact tornDown_mem_tearDown (e := { e with documents := e.documents.erase doc }) hs
  · rw [Editor.install, hdoc]
    refine tornDown_mem_tearDown (e := e.addSlot doc surface r) ?_
    show (e.slots ++ [_])[id]? = some s
    rw [List.getElem?_append_left (List.getElem?_eq_some_iff.mp hs).1, hs]

/-- The target of a change handed over was torn down before only if it was while being asked for. -/
theorem HandedOver.tornDown_iff {surface : String} {j : Job} {past : List Event}
    (h : HandedOver surface j past) :
    .tornDown j.target ∈ past ↔ ∃ during before : List Event,
      past = during ++ .asked surface j.target.doc :: .taken j :: before ∧
        (∀ ev ∈ during, ev.isTurn = false) ∧ .tornDown j.target ∈ during := by
  constructor
  · intro htorn
    obtain ⟨query, before, rfl, hturn, hbefore, hquery⟩ := h
    have hmem : .tornDown j.target ∈ query := by
      rcases List.mem_append.mp htorn with hmem | hmem
      · exact hmem
      · exact absurd (by simpa using hmem) hbefore
    rcases hquery with rfl | ⟨during, rfl⟩
    · exact absurd hmem List.not_mem_nil
    · refine ⟨during, before, by rw [List.append_assoc]; rfl, ?_, by simpa using hmem⟩
      exact fun ev hev => hturn ev (List.mem_append_left _ hev)
  · rintro ⟨during, before, rfl, -, hmem⟩
    exact List.mem_append_left _ hmem

/-- **A change reaches a slot that was torn down exactly if that happened while its surface was
being asked for it.**  Uninstalling a document, or installing it anew, is what tears its slot down.
A change handed over afterwards had its turn before: the surface was asked, and the slot torn down
before it answered.  A change whose turn comes afterwards is discarded at once, with nobody asked.
Turns do not overlap, and one that is over ended with the change handed over, discarded or, if the
surface panicked when asked, lost.  What is handed over and discarded while the queue is rendered
is what the report counts. -/
theorem applied_after_tornDown {e : Editor} (he : e.Reachable) :
    (∀ (doc : DocumentId) (id : Nat) (s : Slot), e.slot? doc = some (id, s) →
      (e.uninstall doc).1 = true ∧ .tornDown s.target ∈ (e.uninstall doc).2.journal ∧
        ∀ surface r, .tornDown s.target ∈ (e.install doc surface r).journal) ∧
    (∀ (later : List Event) (surface : String) (j : Job) (past : List Event),
      e.journal = later ++ .applied surface j :: past →
        (.tornDown j.target ∈ past ↔ ∃ during before : List Event,
          past = during ++ .asked surface j.target.doc :: .taken j :: before ∧
            (∀ ev ∈ during, ev.isTurn = false) ∧ .tornDown j.target ∈ during)) ∧
    (∀ (later : List Event) (j : Job) (past : List Event), e.journal = later ++ .taken j :: past →
      (.tornDown j.target ∈ past → [.discarded j] <:+ later) ∧
      ((∀ ev ∈ later, ev.isTurn = false) ∨
        ∃ (later' : List Event) (ending : Event) (during : List Event),
          later = later' ++ ending :: during ∧ ending.dealt? = some j ∧
            ∀ ev ∈ during, ev.isTurn = false)) ∧
    ∀ (c : Command) (fuel : Nat) (report : RenderReport), c = .drain ∨ c = .finish →
      (perform fuel c e).result = .ok (.rendered report) →
        ∃ evs, (perform fuel c e).last.journal = evs ++ e.journal ∧ report = reportOf evs := by
  refine ⟨fun _ _ _ hslot => tornDown_of_slot hslot, fun _ _ _ _ hj => ?_, fun _ _ _ hj => ?_, ?_⟩
  · exact (he.inTurn.handed hj).tornDown_iff
  · exact ⟨he.inTurn.skipped hj, he.inTurn.ended hj⟩
  · rintro c fuel report (rfl | rfl) hresult
    · exact ((drainQueue_spec (execute_commanding fuel) he.fit fuel).2.2 report hresult).2.2
    · exact ((finishQueue_spec (execute_commanding fuel) he.fit fuel).2.2 report hresult).2.2

open OneNumber

/-- The surface is asked twice: by the pass, and at the turn of the change, when it uninstalls the
document and says that its view is there. -/
def OneNumber.askedTwice : Course Editor Halt Answer :=
  perform 1 .drain (passed [[], [.uninstall ⟨1⟩]])

theorem OneNumber.reachable_askedTwice : askedTwice.last.Reachable :=
  (reachable_passed _).last 1 .drain

theorem OneNumber.journal_askedTwice : ∃ (j : Job) (past : List Event), j.target = slot.target ∧
    askedTwice.result = .ok (.rendered { applied := 1 }) ∧
    askedTwice.last.journal = [.applied "view" j, .answered "uninstall" (.yesNo true),
      .tornDown slot.target, .asked "view" ⟨1⟩, .taken j] ++ past := by
  refine ⟨⟨slot.target, ⟨[highlight], []⟩⟩,
    (passed [[], [.uninstall ⟨1⟩]]).journal, rfl, ?_⟩
  simp only [askedTwice, passed, perform, performWith, reconcileAnswer, reconcile, passInside,
    wantedHighlights, Policy.classifyTree_eq_auction, Editor.recordPass]
  generalize Metrics.record = record
  cbv

/-- A document was uninstalled, and then its slot was given a change. -/
theorem applied_to_uninstalled_oneNumber : ∃ e : Editor, e.Reachable ∧
    ∃ (surface : String) (j : Job) (past : List Event), e.journal = .applied surface j :: past ∧
      .answered "uninstall" (.yesNo true) ∈ past ∧ .tornDown j.target ∈ past := by
  obtain ⟨j, past, htarget, -, hj⟩ := journal_askedTwice
  exact ⟨askedTwice.last, reachable_askedTwice, "view", j, _, hj, by simp, by simp [htarget]⟩

theorem tornDown_while_asked_oneNumber : ∃ (j : Job) (past during before : List Event),
    askedTwice.last.journal = .applied "view" j :: past ∧ .tornDown j.target ∈ past ∧
      past = during ++ .asked "view" j.target.doc :: .taken j :: before ∧
      .tornDown j.target ∈ during := by
  obtain ⟨j, past, htarget, -, hj⟩ := journal_askedTwice
  have happlied := (applied_after_tornDown reachable_askedTwice).2.1 [] "view" j _ hj
  obtain ⟨during, before, hpast, -, hduring⟩ := happlied.mp (by simp [htarget])
  exact ⟨j, _, during, before, hj, by simp [htarget], hpast, hduring⟩

end Highlighting
