/-
Turns of the queue, one by one and until it is empty.

A turn begins when a job is taken off the queue and ends when it is handed over,
discarded or lost.  A surface that is asked or given a change may run any commands
meanwhile, but none of them drains the queue, so turns do not overlap.  Between
two of them the loop is where it started: in order, draining, with no turn open.
-/
import Highlighting.Proofs.Editor.Callback

namespace Highlighting

open Act

/-! ### Counting what became of jobs -/

namespace Event

def isApplied : Event → Bool
  | applied .. => true
  | _ => false

def isDiscarded : Event → Bool
  | discarded _ => true
  | _ => false

end Event

/-- The report that goes with some events. -/
def reportOf (evs : List Event) : RenderReport :=
  ⟨evs.countP Event.isApplied, evs.countP Event.isDiscarded⟩

theorem reportOf_append (evs evs' : List Event) :
    reportOf (evs ++ evs') = (reportOf evs).add (reportOf evs') := by
  simp [reportOf, RenderReport.add]

/-- Where no turn ends there is nothing to report. -/
theorem reportOf_of_not_isTurn {evs : List Event} (h : ∀ ev ∈ evs, ev.isTurn = false) :
    reportOf evs = {} := by
  have happlied : evs.countP Event.isApplied = 0 := List.countP_eq_zero.mpr fun ev hev => by
    have := h ev hev
    cases ev <;> simp_all [Event.isTurn, Event.isApplied]
  have hdiscarded : evs.countP Event.isDiscarded = 0 := List.countP_eq_zero.mpr fun ev hev => by
    have := h ev hev
    cases ev <;> simp_all [Event.isTurn, Event.isDiscarded]
  rw [reportOf, happlied, hdiscarded]

theorem RenderReport.empty_add (r : RenderReport) : ({} : RenderReport).add r = r := by
  simp [RenderReport.add]

theorem RenderReport.add_comm (r s : RenderReport) : r.add s = s.add r := by
  simp [RenderReport.add, Nat.add_comm]

theorem RenderReport.add_assoc (r s t : RenderReport) : (r.add s).add t = r.add (s.add t) := by
  simp [RenderReport.add, Nat.add_assoc]

/-! ### One turn -/

/-- The queue is being drained, and the next turn can begin. -/
structure BetweenTurns (e : Editor) : Prop where
  fit : Fit e
  keeper : e.queue.keeper = .draining
  turn : turnOf e.journal = none

/-- The ways the turn of a job can go that nobody breaks off: what is told from the job being taken
on, latest first, and what is reported.  If the target is torn down the surface is not asked.
Otherwise it is, and gets the change if it says that the view is there. -/
inductive TurnEnds (run : Script → EditorM Unit) (j : Job) (start : Editor) :
    List Event → RenderReport → Prop where
  | tornDown (hlife : start.isTornDown j.target = true) :
      TurnEnds run j start [.discarded j, .taken j] { discarded := 1 }
  | discarded {asked : Course Editor Halt Bool} {query : List Event}
      (hlife : start.isTornDown j.target = false)
      (hasked : askSurface run j.target.surface j.target.doc start = asked)
      (hanswer : asked.result = .ok false) (hquery : asked.last.journal = query ++ start.journal)
      (hquiet : ∀ ev ∈ query, ev.isTurn = false) :
      TurnEnds run j start (.discarded j :: (query ++ [.taken j])) { discarded := 1 }
  | applied {asked : Course Editor Halt Bool} {query after : List Event} {s : Surface}
      (hlife : start.isTornDown j.target = false)
      (hasked : askSurface run j.target.surface j.target.doc start = asked)
      (hanswer : asked.result = .ok true) (hquery : asked.last.journal = query ++ start.journal)
      (hquiet : ∀ ev ∈ query, ev.isTurn = false)
      (hs : asked.last.surfaces[j.target.surface]? = some s)
      (hquiet' : ∀ ev ∈ after, ev.isTurn = false) :
      TurnEnds run j start (after ++ .applied s.name j :: (query ++ [.taken j])) { applied := 1 }

section Turn

variable {run : Script → EditorM Unit} {e e' : Editor} {j : Job} {rest : List Job}

/-- A change of the journal and the queue in which no job is new. -/
theorem grows_queue {own : Option Nat} (q : RenderQueue) (evs : List Event)
    (hq : q.jobs <:+ e.queue.jobs) (hevs : ∀ j, .queued j ∉ evs) :
    Grows own e { e with queue := q, journal := evs ++ e.journal } :=
  .of_events evs rfl rfl rfl (fun _ _ => rfl) hq rfl hevs

theorem evolves_take (h : BetweenTurns e) (hq : e.queue.jobs = j :: rest)
    (hlife : e.isTornDown j.target = false) : Evolves none e (e.take j rest) :=
  (Step.take h.keeper hq h.turn hlife).evolves fun _ =>
    grows_queue _ [.taken j] (by rw [hq]; exact List.suffix_cons j rest) (by simp)

/-- While the turn of a job is open, its being taken is the last that happened to any job. -/
theorem Runs.during_turn (h : BetweenTurns e) (hfit : Fit (e.take j rest))
    (hran : Runs (e.take j rest) e') :
    e'.queue.keeper = .draining ∧ turnOf e'.journal = some j ∧
      ∃ evs, e'.journal = evs ++ (e.take j rest).journal ∧ ∀ ev ∈ evs, ev.isTurn = false := by
  obtain ⟨hkeeper, evs, hj, hturn⟩ := hran.2 hfit h.keeper
  refine ⟨hkeeper, ?_, evs, hj, hturn⟩
  rw [hj, turnOf_append hturn]
  rfl

/-- A turn that ended with one event, nothing else having had a turn. -/
theorem reportOf_turn (evs : List Event) {before : List Event} {ending : Event}
    (hturn : ∀ ev ∈ evs, ev.isTurn = false) (hbefore : ∀ ev ∈ before, ev.isTurn = false) :
    reportOf (evs ++ ending :: (before ++ [.taken j])) = reportOf [ending] := by
  rw [reportOf_append, reportOf_of_not_isTurn hturn, RenderReport.empty_add,
    ← List.singleton_append, reportOf_append, reportOf_append, reportOf_of_not_isTurn hbefore,
    RenderReport.empty_add, RenderReport.add_comm]
  exact RenderReport.empty_add _

/-- The report is the one that goes with the events. -/
theorem TurnEnds.report_eq {start : Editor} {evs : List Event} {report : RenderReport}
    (h : TurnEnds run j start evs report) : report = reportOf evs := by
  cases h with
  | tornDown => rfl
  | @discarded _ query _ _ _ _ hquiet =>
      have hreport : reportOf (.discarded j :: (query ++ [.taken j])) = { discarded := 1 } :=
        reportOf_turn [] (by simp) hquiet
      exact hreport.symm
  | applied _ _ _ _ hquiet _ hquiet' =>
      rw [reportOf_turn _ hquiet' hquiet]
      rfl

/-- How a turn that ended leaves the editor. -/
structure Turned (e e' : Editor) : Prop where
  evolves : Evolves none e e'
  between : BetweenTurns e'

/-- A job whose target is torn down is discarded, and nobody is asked. -/
theorem deliver_tornDown (h : BetweenTurns e) (hq : e.queue.jobs = j :: rest)
    (hlife : e.isTornDown j.target = true) :
    Ensures (deliver run j) (e.take j rest) (Evolves none e) fun result e' =>
      Turned e e' ∧ ∀ report, result = .ok report →
        ∃ evs, e'.journal = evs ++ e.journal ∧ TurnEnds run j (e.take j rest) evs report := by
  have hstep := Step.skip h.keeper hq h.turn hlife
  unfold deliver isLive
  rw [ensures_bind, ensures_attempt, ensures_bind, ensures_get, next_ok,
    if_pos (show (e.take j rest).isTornDown j.target = true from hlife), ensures_pure, next_ok]
  dsimp only
  rw [ensures_bind, EditorM.log, ensures_modify, next_ok, ensures_pure]
  refine ⟨⟨hstep.evolves fun _ => ?_, hstep.fit h.fit, h.keeper, rfl⟩, ?_⟩
  · exact grows_queue _ [.discarded j, .taken j] (by rw [hq]; exact List.suffix_cons j rest)
      (by simp)
  · rintro _ ⟨⟩
    exact ⟨[.discarded j, .taken j], rfl, .tornDown hlife⟩

/-- A job handed to its surface; whatever the surface does with it, the turn is over. -/
theorem applyJob_spec (hrun : Commanding run) (h : BetweenTurns e)
    (htaken : Evolves none e (e.take j rest)) (hlife : e.isTornDown j.target = false)
    (hasked : Runs (e.take j rest) e')
    (hconfirmed : Confirmed j.target.surface j.target.doc (e.take j rest) e') :
    Ensures (applyJob run j) e' (Evolves none e) fun _ e'' =>
      Turned e e'' ∧ ∃ s query after, e'.surfaces[j.target.surface]? = some s ∧
        e'.journal = query ++ (e.take j rest).journal ∧ (∀ ev ∈ query, ev.isTurn = false) ∧
        e''.journal = (after ++ .applied s.name j :: (query ++ [.taken j])) ++ e.journal ∧
        ∀ ev ∈ after, ev.isTurn = false := by
  have hfit₁ : Fit (e.take j rest) := (htaken h.fit).1
  obtain ⟨hkeeper, -, query, hquery, hturn⟩ := hasked.during_turn h hfit₁
  obtain ⟨s, query', hs, hquery', hform⟩ := hconfirmed
  have hsame : query' = query := List.append_cancel_right (hquery'.symm.trans hquery)
  rw [hsame] at hform
  have hover : HandedOver s.name j e'.journal :=
    ⟨query, e.journal, hquery, hturn, fun htold =>
      Bool.noConfusion (hlife.symm.trans (h.fit.isTornDown htold)), hform⟩
  let handed := e'.log (.applied s.name j)
  have hhanded : Evolves none e' handed :=
    (Step.hand hover).evolves fun _ =>
      grows_queue e'.queue [.applied s.name j] (List.suffix_refl _) (by simp)
  let called := handed.modifySurface j.target.surface Surface.nextApply
  have hcalled : Runs handed called := Outside.runs (outside_modifySurface handed _ fun _ => rfl)
  have hto : Evolves none e called := ((htaken.trans hasked.1).trans hhanded).trans hcalled.1
  unfold applyJob
  rw [ensures_bind, ensures_get, next_ok, hs]
  dsimp only
  rw [ensures_bind, EditorM.log, ensures_modify, next_ok, ensures_bind, ensures_modify, next_ok]
  refine (hrun _ called).mono (fun _ hm => hto.trans hm.1) fun _ e'' hran => ?_
  have hlast : Evolves none e e'' := hto.trans hran.1
  obtain ⟨hkeeper', after, hafter, hturn'⟩ := hran.2 (hto h.fit).1 hkeeper
  refine ⟨⟨hlast, (hlast h.fit).1, hkeeper', ?_⟩, s, query, after, rfl, hquery, hturn, ?_, hturn'⟩
  · rw [hafter, turnOf_append hturn']
    rfl
  · rw [hafter, show called.journal = .applied s.name j :: e'.journal from rfl, hquery]
    simp [Editor.take]

/-- **One turn of the queue.** -/
theorem deliver_spec (hrun : Commanding run) (h : BetweenTurns e) (hq : e.queue.jobs = j :: rest) :
    Ensures (deliver run j) (e.take j rest) (Evolves none e) fun result e' =>
      Turned e e' ∧ ∀ report, result = .ok report →
        ∃ evs, e'.journal = evs ++ e.journal ∧ TurnEnds run j (e.take j rest) evs report := by
  cases hlife : e.isTornDown j.target with
  | true => exact deliver_tornDown h hq hlife
  | false =>
      have htaken : Evolves none e (e.take j rest) := evolves_take h hq hlife
      have hfit₁ : Fit (e.take j rest) := (htaken h.fit).1
      unfold deliver
      rw [ensures_bind, ensures_attempt]
      have hlife₁ : (e.take j rest).isTornDown j.target = false := hlife
      refine (isLive_asks hrun hfit₁ hlife₁).mono (fun _ hm => htaken.trans hm.1)
        fun result e' hback => ?_
      obtain ⟨hasked, hconfirmed, hanswer, hfound⟩ := hback
      have hback : Evolves none e e' := htaken.trans hasked.1
      obtain ⟨hkeeper, hopen, query, hquery, hturn⟩ := hasked.during_turn h hfit₁
      -- a turn that ends here, without the surface being given anything
      have hends : ∀ ending : Event, Step e' (e'.log ending) → (∀ j, ending ≠ .queued j) →
          turnOf (ending :: e'.journal) = none → Turned e (e'.log ending) := by
        intro ending hstep hqueued hnone
        have hlast : Evolves none e (e'.log ending) := hback.trans (hstep.evolves fun _ =>
          grows_queue e'.queue [ending] (List.suffix_refl _)
            fun j hj => hqueued j (List.mem_singleton.mp hj).symm)
        exact ⟨hlast, (hlast h.fit).1, hkeeper, hnone⟩
      match result with
      | .ok true =>
        rw [next_ok]
        dsimp only
        rw [ensures_bind, EditorM.ensures_catching]
        refine (applyJob_spec hrun h htaken hlife hasked (hconfirmed rfl)).mono (fun _ hm => hm)
          fun result e'' hturned => ?_
        obtain ⟨hturned, s, query, after, hs, hquery, hturn, hevs, hafter⟩ := hturned
        rw [← hfound] at hs hquery
        match result with
        | .ok () | .error (.panic _) =>
          dsimp only
          rw [next_ok, ensures_pure]
          refine ⟨hturned, ?_⟩
          rintro _ ⟨⟩
          exact ⟨_, hevs, .applied hlife₁ rfl hanswer hquery hturn hs hafter⟩
        | .error (.emptyMark _) | .error .outOfFuel => exact ⟨hturned, by simp⟩
      | .ok false =>
        rw [next_ok]
        dsimp only
        rw [ensures_bind, EditorM.log, ensures_modify, next_ok, ensures_pure]
        refine ⟨hends _ (.discard hopen) (by simp) rfl, ?_⟩
        rintro _ ⟨⟩
        refine ⟨.discarded j :: (query ++ [.taken j]), ?_, .discarded hlife₁ rfl hanswer ?_ hturn⟩
        · rw [Editor.journal_log, hquery]
          simp [Editor.take]
        · rw [hfound]
          exact hquery
      | .error halted =>
        rw [next_ok]
        dsimp only
        rw [ensures_bind, EditorM.log, ensures_modify, next_ok, ensures_halt]
        exact ⟨hends _ (.lose hopen) (by simp) rfl, by simp⟩

end Turn

/-! ### All turns -/

section Drain

variable {run : Script → EditorM Unit} {e : Editor}

theorem renderAll_of_empty (h : BetweenTurns e) (hq : e.queue.jobs = []) (fuel : Nat)
    (report : RenderReport) :
    Ensures (renderAll run fuel report) e (Evolves none e) fun result e' =>
      Turned e e' ∧ ∀ total, result = .ok total →
        e'.queue.jobs = [] ∧
          ∃ evs, e'.journal = evs ++ e.journal ∧ total = report.add (reportOf evs) := by
  unfold renderAll
  rw [ensures_bind, ensures_get, next_ok, hq]
  dsimp only
  rw [ensures_pure]
  refine ⟨⟨refl e, h⟩, ?_⟩
  rintro _ ⟨⟩
  exact ⟨hq, [], rfl, rfl⟩

/-- **Turn after turn until the queue is empty.**  The induction is on the fuel, one unit for each
turn; what carries it is that the loop comes back to between two turns. -/
theorem renderAll_spec (hrun : Commanding run) (fuel : Nat) :
    ∀ {e : Editor} (report : RenderReport), BetweenTurns e →
      Ensures (renderAll run fuel report) e (Evolves none e) fun result e' =>
        Turned e e' ∧ ∀ total, result = .ok total →
          e'.queue.jobs = [] ∧
            ∃ evs, e'.journal = evs ++ e.journal ∧ total = report.add (reportOf evs) := by
  induction fuel with
  | zero =>
      intro e report h
      cases hq : e.queue.jobs with
      | nil => exact renderAll_of_empty h hq 0 report
      | cons j rest =>
          rw [renderAll, ensures_bind, ensures_get, next_ok, hq]
          dsimp only
          rw [ensures_halt]
          exact ⟨⟨refl e, h⟩, by simp⟩
  | succ fuel ih =>
      intro e report h
      cases hq : e.queue.jobs with
      | nil => exact renderAll_of_empty h hq (fuel + 1) report
      | cons j rest =>
          rw [renderAll, ensures_bind, ensures_get, next_ok, hq]
          dsimp only
          rw [ensures_bind, ensures_modify, next_ok, ensures_bind]
          refine (deliver_spec hrun h hq).mono (fun _ hm => hm) fun result e₁ hturn => ?_
          obtain ⟨hturned, hreport⟩ := hturn
          match result with
          | .error _ => exact ⟨hturned, by simp⟩
          | .ok one =>
            rw [next_ok]
            refine (ih (report.add one) hturned.between).mono
              (fun _ hm => hturned.evolves.trans hm) fun result e₂ hrest => ?_
            refine ⟨⟨hturned.evolves.trans hrest.1.evolves, hrest.1.between⟩,
              fun total htotal => ?_⟩
            obtain ⟨evs, hevs, hends⟩ := hreport one rfl
            obtain rfl := hends.report_eq
            obtain ⟨hempty, evs', hevs', rfl⟩ := hrest.2 total htotal
            refine ⟨hempty, evs' ++ evs, by rw [hevs', hevs, List.append_assoc], ?_⟩
            rw [reportOf_append, RenderReport.add_assoc, RenderReport.add_comm (reportOf evs)]

/-- How rendering ends for the one who asked for it: with an empty queue and a true report, or
broken off. -/
def Rendered (e : Editor) (result : Except Halt Answer) (e' : Editor) : Prop :=
  ∀ report, result = .ok (.rendered report) →
    e'.queue.jobs = [] ∧ turnOf e'.journal = none ∧
      ∃ evs, e'.journal = evs ++ e.journal ∧ report = reportOf evs

/-- The queue is taken to be drained and is put back, or dropped, in the end. -/
theorem renderAnswer_spec (hrun : Commanding run) (hfit : Fit e)
    (hidle : e.queue.keeper ≠ .draining) (hthere : e.queue.keeper ≠ .gone) {close : Editor → Editor}
    (hclose : ∀ e', BetweenTurns e' → Step e' (close e') ∧ Grows none e' (close e') ∧
      (close e').journal = e'.journal ∧ (e'.queue.jobs = [] → (close e').queue.jobs = []))
    (fuel : Nat) :
    Ensures (renderAnswer (ensuring (renderAll run fuel {}) close)) (e.keep .draining) (Runs e)
      fun result e' => Runs e e' ∧ Rendered e result e' := by
  have hstep : Step e (e.keep .draining) := .keep hthere (by simp) (hfit.turn hidle)
  have hopened : Evolves none e (e.keep .draining) :=
    hstep.evolves fun _ => grows_queue (e.keep .draining).queue []
      (List.suffix_refl _) (by simp)
  -- the queue was not being drained before, so there is no turn that this could disturb
  have hruns : ∀ {e' : Editor}, Evolves none (e.keep .draining) e' → Runs e e' := fun h =>
    ⟨hopened.trans h, fun _ hdrain => absurd hdrain hidle⟩
  unfold renderAnswer
  rw [ensures_bind, EditorM.ensures_catching, ensures_ensuring]
  refine (renderAll_spec hrun fuel {} ⟨hstep.fit hfit, rfl, hfit.turn hidle⟩).mono
    (fun _ hm => hruns hm) fun result e' h => ?_
  obtain ⟨hturned, htotal⟩ := h
  obtain ⟨hend, hgrows, hjournal, hempty⟩ := hclose e' hturned.between
  have hlast : Runs e (close e') := hruns (hturned.evolves.trans (hend.evolves fun _ => hgrows))
  match result with
  | .ok total =>
    dsimp only
    rw [next_ok, ensures_pure]
    refine ⟨hlast, ?_⟩
    rintro report ⟨⟩
    obtain ⟨hjobs, evs, hevs, htotal⟩ := htotal _ rfl
    refine ⟨hempty hjobs, ?_, evs, ?_, ?_⟩
    · rw [hjournal]
      exact hturned.between.turn
    · rw [hjournal, hevs]
      rfl
    · rw [htotal, RenderReport.empty_add]
  | .error (.panic p) =>
    dsimp only
    rw [next_ok, ensures_pure]
    exact ⟨hlast, by rintro report ⟨⟩⟩
  | .error (.emptyMark _) | .error .outOfFuel => exact ⟨hlast, by rintro report ⟨⟩⟩

theorem drainQueue_spec (hrun : Commanding run) (hfit : Fit e) (fuel : Nat) :
    Ensures (drainQueue run fuel) e (Runs e) fun result e' => Runs e e' ∧ Rendered e result e' := by
  unfold drainQueue
  rw [ensures_bind, ensures_get, next_ok]
  split
  · rename_i hkeeper
    rw [ensures_bind, ensures_modify, next_ok]
    refine renderAnswer_spec hrun hfit (by simp [hkeeper]) (by simp [hkeeper]) ?_ fuel
    intro e' h
    refine ⟨.keep (by simp [h.keeper]) (by simp) h.turn, ?_, rfl, fun hjobs => hjobs⟩
    exact grows_queue (e'.keep .idle).queue [] (List.suffix_refl _) (by simp)
  · rw [ensures_pure]
    exact ⟨refl e, by rintro report ⟨⟩⟩

theorem finishQueue_spec (hrun : Commanding run) (hfit : Fit e) (fuel : Nat) :
    Ensures (finishQueue run fuel) e (Runs e) fun result e' =>
      Runs e e' ∧ Rendered e result e' := by
  unfold finishQueue
  have hleft : Runs e { e with coordinating := false } := Outside.runs {}
  have hfit' := (hleft.1 hfit).1
  rw [ensures_bind, ensures_modify, next_ok, ensures_bind, ensures_get, next_ok]
  have hclose : ∀ e', BetweenTurns e' → Step e' { e' with queue := .dropped } ∧
      Grows none e' { e' with queue := .dropped } ∧ e'.journal = e'.journal ∧
        (e'.queue.jobs = [] → RenderQueue.dropped.jobs = []) := fun e' h =>
    ⟨.dropQueue h.turn, grows_queue .dropped [] (List.nil_suffix) (by simp), rfl,
      fun _ => rfl⟩
  dsimp only
  cases hkeeper : e.queue.keeper with
  | idle | thread =>
      dsimp only
      rw [ensures_bind, ensures_modify, next_ok]
      exact (renderAnswer_spec hrun hfit' (by simp [hkeeper]) (by simp [hkeeper]) hclose fuel).mono
        (fun _ hm => hleft.trans hm) fun _ _ h => ⟨hleft.trans h.1, h.2⟩
  | draining | gone =>
      dsimp only
      rw [ensures_pure]
      exact ⟨hleft, by rintro report ⟨⟩⟩

end Drain

end Highlighting
