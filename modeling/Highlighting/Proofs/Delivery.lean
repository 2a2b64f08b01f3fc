/-
Every change that is queued has its turn once, and in order.

The queue grows while it is drained: a surface that is asked or given a change may
run passes, and those queue changes of their own.  So the turns of a drain are not
known when it begins.  What is known is that each starts where the one before ended,
with the job that is first then, and this gives all of them: the jobs that waited at
first, then those queued meanwhile, in the order in which they came.  How each turn
goes depends on the editor as it is when its job is taken, and on nothing later.
-/
import Highlighting.Proofs.Containment

namespace Highlighting

open Act EditorM

variable {run : Script → EditorM Unit} {e e' : Editor}

/-! ### One turn -/

/-- Whether a surface is to be given a change at its turn: the target is not torn down, and the
surface says that the view is there. -/
def Job.isShown (run : Script → EditorM Unit) (j : Job) (start : Editor) : Bool :=
  !start.isTornDown j.target &&
    (askSurface run j.target.surface j.target.doc start).result.toOption == some true

/-- Events that tell of no turn tell of no job that was taken or applied. -/
theorem jobsOf_of_not_isTurn {evs : List Event} (h : ∀ ev ∈ evs, ev.isTurn = false) :
    jobsOf Event.taken? evs = [] ∧ jobsOf Event.applied? evs = [] := by
  constructor <;>
  · refine jobsOf_eq_nil fun ev hev => ?_
    have hnone := h ev hev
    cases ev <;> simp_all [Event.isTurn, Event.taken?, Event.applied?]

/-- What a turn tells and reports: its job was taken, and applied if the surface is to get it. -/
theorem TurnEnds.tells {j : Job} {start : Editor} {evs : List Event} {report : RenderReport}
    (h : TurnEnds run j start evs report) :
    jobsOf Event.taken? evs = [j] ∧
    jobsOf Event.applied? evs = (if j.isShown run start then [j] else []) ∧
    report = if j.isShown run start then { applied := 1 } else { discarded := 1 } := by
  cases h with
  | tornDown hlife =>
      have hshown : j.isShown run start = false := by simp [Job.isShown, hlife]
      rw [hshown]
      exact ⟨rfl, rfl, rfl⟩
  | discarded hlife hasked hanswer _ hquiet =>
      have hshown : j.isShown run start = false := by
        simp [Job.isShown, hasked, hanswer, Except.toOption]
      obtain ⟨htaken, happlied⟩ := jobsOf_of_not_isTurn hquiet
      rw [jobsOf_cons, jobsOf_cons, jobsOf_append, jobsOf_append, htaken, happlied]
      simp [hshown, jobsOf, Event.taken?, Event.applied?]
  | applied hlife hasked hanswer _ hquiet _ hquiet' =>
      have hshown : j.isShown run start = true := by
        simp [Job.isShown, hlife, hasked, hanswer, Except.toOption]
      obtain ⟨htaken, happlied⟩ := jobsOf_of_not_isTurn hquiet
      obtain ⟨htaken', happlied'⟩ := jobsOf_of_not_isTurn hquiet'
      rw [jobsOf_append, jobsOf_append, jobsOf_cons, jobsOf_cons, jobsOf_append, jobsOf_append,
        htaken, happlied, htaken', happlied']
      simp [hshown, jobsOf, Event.taken?, Event.applied?]

/-- A turn of the queue: its job, the editor when that is taken, what is told until the turn is
over, latest first, and what is reported. -/
structure Turn where
  job : Job
  start : Editor
  events : List Event
  report : RenderReport

namespace Turn

/-- A turn that goes one of the ways turns go. -/
def Ends (run : Script → EditorM Unit) (t : Turn) : Prop :=
  TurnEnds run t.job t.start t.events t.report

def isShown (run : Script → EditorM Unit) (t : Turn) : Bool := t.job.isShown run t.start

/-- How many of some turns end with the change given to its surface, and how many do not. -/
def tally (run : Script → EditorM Unit) (turns : List Turn) : RenderReport :=
  ⟨turns.countP (isShown run), turns.countP fun t => !t.isShown run⟩

theorem Ends.tally_cons {t : Turn} (h : t.Ends run) (turns : List Turn) :
    tally run (t :: turns) = t.report.add (tally run turns) := by
  rw [h.tells.2.2, tally, List.countP_cons, List.countP_cons, isShown]
  cases t.job.isShown run t.start <;> simp [tally, RenderReport.add, Nat.add_comm]

end Turn

/-! ### Turn after turn -/

/-- The turns from an editor on until the queue is empty: each begins where the one before ended, by
taking the job that is first. -/
inductive TakesTurns (run : Script → EditorM Unit) : Editor → List Turn → Editor → Prop where
  | done {e : Editor} (hq : e.queue.jobs = []) : TakesTurns run e [] e
  | turn {e e' : Editor} {t : Turn} {rest : List Job} {turns : List Turn}
      (hq : e.queue.jobs = t.job :: rest) (hstart : t.start = e.take t.job rest)
      (hresult : (deliver run t.job t.start).result = .ok t.report)
      (hevents : (deliver run t.job t.start).last.journal = t.events ++ e.journal)
      (hrest : TakesTurns run (deliver run t.job t.start).last turns e') :
      TakesTurns run e (t :: turns) e'

/-- All that is told during some turns, latest first. -/
def eventsOf (turns : List Turn) : List Event := turns.reverse.flatMap Turn.events

theorem eventsOf_cons (t : Turn) (turns : List Turn) :
    eventsOf (t :: turns) = eventsOf turns ++ t.events := by
  simp [eventsOf]

theorem TakesTurns.jobs_eq_nil {turns : List Turn} (h : TakesTurns run e turns e') :
    e'.queue.jobs = [] := by
  induction h with
  | done hq => exact hq
  | turn _ _ _ _ _ ih => exact ih

theorem TakesTurns.journal_eq {turns : List Turn} (h : TakesTurns run e turns e') :
    e'.journal = eventsOf turns ++ e.journal := by
  induction h with
  | done => rfl
  | turn _ _ _ hevents _ ih => rw [ih, hevents, eventsOf_cons, List.append_assoc]

/-- The jobs that were taken are those of the turns. -/
theorem taken_eventsOf {turns : List Turn} (h : ∀ t ∈ turns, t.Ends run) :
    jobsOf Event.taken? (eventsOf turns) = turns.map Turn.job := by
  induction turns with
  | nil => rfl
  | cons t rest ih =>
      rw [List.forall_mem_cons] at h
      rw [eventsOf_cons, jobsOf_append, h.1.tells.1, ih h.2, List.map_cons, List.singleton_append]

/-- **Rendering is taking turns.**  One unit of fuel goes with each, and the induction is on it. -/
theorem renderAll_takesTurns (hrun : Commanding run) (fuel : Nat) :
    ∀ {e : Editor} {report total : RenderReport}, BetweenTurns e →
      (renderAll run fuel report e).result = .ok total →
        ∃ turns, TakesTurns run e turns (renderAll run fuel report e).last ∧
          (∀ t ∈ turns, t.Ends run) ∧ total = report.add (Turn.tally run turns) := by
  induction fuel with
  | zero =>
      intro e report total h hresult
      cases hq : e.queue.jobs with
      | nil =>
          rw [renderAll_of_nil hq] at hresult ⊢
          cases hresult
          exact ⟨[], .done hq, by simp, rfl⟩
      | cons j rest =>
          rw [renderAll_zero hq] at hresult
          cases hresult
  | succ fuel ih =>
      intro e report total h hresult
      cases hq : e.queue.jobs with
      | nil =>
          rw [renderAll_of_nil hq] at hresult ⊢
          cases hresult
          exact ⟨[], .done hq, by simp, rfl⟩
      | cons j rest =>
          obtain ⟨-, hturned, hends⟩ := deliver_spec hrun h hq
          rw [renderAll_succ hq] at hresult ⊢
          rcases hcourse : deliver run j (e.take j rest) with ⟨seen, _ | one, e₁⟩
          · rw [bind_of_error hcourse] at hresult
            cases hresult
          · rw [hcourse] at hturned hends
            rw [bind_of_ok hcourse] at hresult ⊢
            obtain ⟨evs, hevs, hends⟩ := hends one rfl
            obtain ⟨turns, hturns, hall, htotal⟩ := ih hturned.between hresult
            let t : Turn := ⟨j, e.take j rest, evs, one⟩
            have ht : t.Ends run := hends
            refine ⟨t :: turns, .turn hq rfl ?_ ?_ ?_, List.forall_mem_cons.mpr ⟨ht, hall⟩, ?_⟩
            · rw [hcourse]
            · rw [hcourse]
              exact hevs
            · rw [hcourse]
              exact hturns
            · rw [htotal, ht.tally_cons, RenderReport.add_assoc]

/-- The jobs of the turns are those that waited, and then those that were queued meanwhile. -/
theorem TakesTurns.jobs_eq {fuel : Nat} {report : RenderReport} {turns : List Turn}
    (hturns : TakesTurns run e turns (renderAll run fuel report e).last) (hrun : Commanding run)
    (h : BetweenTurns e) (hends : ∀ t ∈ turns, t.Ends run) :
    turns.map Turn.job = e.queue.jobs ++ jobsOf Event.queued? (eventsOf turns) := by
  obtain ⟨-, hturned, -⟩ := renderAll_spec hrun fuel report h
  obtain ⟨evs, hj, hqueue, -⟩ := (hturned.evolves h.fit).2.1.flows
  have hsame : evs = eventsOf turns :=
    List.append_cancel_right (hj.symm.trans hturns.journal_eq)
  have hjobs := (hqueue (by simp [hturned.between.keeper])).2
  rw [hturns.jobs_eq_nil, List.append_nil, hsame, taken_eventsOf hends] at hjobs
  exact hjobs.symm

/-! ### Draining -/

/-- **Changes are delivered exactly once, first come first served.**  Let the queue hold any jobs
whatever, and let surfaces do what they like when they are called.  If a drain returns a report,
nothing is left in the queue, and all that was told meanwhile was told in a list of turns.  Their
jobs are those that waited at first and then those that were queued meanwhile, in this order.  Each
turn goes one of the ways turns go, so a change is given to its surface once, as it was queued, if
its target was not torn down then and the surface said that the view was there, and otherwise never;
and the report counts the two.  A drain in which no surface panics when it is asked does return a
report, unless the whole session is broken off. -/
theorem drain_delivers_once (he : e.Reachable) (hidle : e.queue.keeper = .idle) (jobs : List Job)
    (fuel : Nat) :
    let start : Editor := { e with queue := { e.queue with jobs := jobs } }
    let course := perform fuel .drain start
    (∀ report, course.result = .ok (.rendered report) →
      ∃ turns last, TakesTurns (execute fuel) (start.keep .draining) turns last ∧
        course.last = last.keep .idle ∧ course.last.queue.jobs = [] ∧
        course.last.journal = eventsOf turns ++ start.journal ∧
        turns.map Turn.job = jobs ++ jobsOf Event.queued? (eventsOf turns) ∧
        (∀ t ∈ turns, t.Ends (execute fuel) ∧
          jobsOf Event.applied? t.events = if t.isShown (execute fuel) then [t.job] else []) ∧
        report = Turn.tally (execute fuel) turns) ∧
    (start.load ≤ fuel → (∀ p, ¬PanicsAtTurn (execute fuel) p (start.keep .draining)) →
      (∃ report, course.result = .ok (.rendered report)) ∨
        ∃ m, course.result = .error (.emptyMark m)) := by
  intro start course
  have hrun := execute_commanding fuel
  have hturn : turnOf start.journal = none := he.fit.turn (by simp [hidle])
  have hfit : Fit start := he.fit.of_sameLives {} (fun _ => Iff.rfl) fun _ => hturn
  have hstart : start.queue.keeper = .idle := hidle
  have hbetween : BetweenTurns (start.keep .draining) :=
    ⟨(Step.keep (by simp [hstart]) (by simp) hturn).fit hfit, rfl, hturn⟩
  have hrenders : course.last = _ ∧ course.result = _ := drainQueue_renders hstart rfl
  obtain ⟨hlast, hresult⟩ := hrenders
  constructor
  · intro report hreport
    have hrendered : (renderAll (execute fuel) fuel {} (start.keep .draining)).result =
        .ok report := by
      rw [hresult] at hreport
      split at hreport <;> simp_all
    obtain ⟨turns, hturns, hends, htotal⟩ := renderAll_takesTurns hrun fuel hbetween hrendered
    rw [RenderReport.empty_add] at htotal
    refine ⟨turns, _, hturns, hlast, ?_, ?_, ?_, fun t ht => ⟨hends t ht, ?_⟩, htotal⟩
    · rw [hlast]
      exact hturns.jobs_eq_nil
    · rw [hlast]
      exact hturns.journal_eq
    · exact hturns.jobs_eq hrun hbetween hends
    · exact (hends t ht).tells.2.1
  · intro hload hcalm
    have hspends : course.result ≠ .error .outOfFuel :=
      (drainQueue_spends (execute_fueled fuel) hload).2.1
    have hpanics := (renderAll_panics hrun fuel {} (start.keep .draining)).2.2
    match hrendered : (renderAll (execute fuel) fuel {} (start.keep .draining)).result with
    | .ok report =>
      rw [hrendered] at hresult
      exact Or.inl ⟨report, hresult⟩
    | .error (.panic p) => exact absurd (hpanics p hrendered).1 (hcalm p)
    | .error (.emptyMark m) =>
      rw [hrendered] at hresult
      exact Or.inr ⟨m, hresult⟩
    | .error .outOfFuel =>
      rw [hrendered] at hresult
      exact absurd hresult hspends

open OneNumber TwoViews

/-- One target is torn down, and the view of another queues a change for a third one when it is
given its own, and panics. -/
theorem delivered_once_threeTargets :
    let e := (blank.converse 20 [
      .surface "left" [] [[.dispatch "right" (.ok change), .panic (.text "no brush")]] false,
      .surface "right" [] [] false, .target "gone" ⟨3⟩ "right", .cancelTarget "gone",
      .target "left" ⟨1⟩ "left", .target "right" ⟨2⟩ "right",
      .dispatch "gone" (.ok change), .dispatch "left" (.ok change)]).2
    (perform 20 .drain e).result = .ok (.rendered ⟨2, 1⟩) ∧
      e.queue.jobs.map (·.target.doc) = [⟨3⟩, ⟨1⟩] ∧
      (e.load ≤ 20 ∧ ∀ p, ¬PanicsAtTurn (execute 20) p (e.keep .draining)) ∧
      ∃ turns, (perform 20 .drain e).last.journal = eventsOf turns ++ e.journal ∧
        turns.map Turn.job = e.queue.jobs ++ jobsOf Event.queued? (eventsOf turns) ∧
        Turn.tally (execute 20) turns = ⟨2, 1⟩ := by
  intro e
  have he : e.Reachable := (Editor.Reachable.new _ _ _).converse 20 _
  have hrendered : (perform 20 .drain e).result = .ok (.rendered ⟨2, 1⟩) := by
    unfold e
    cbv
  have hjobs : e.queue.jobs.map (·.target.doc) = [⟨3⟩, ⟨1⟩] := by
    unfold e
    cbv
  have hload : e.load ≤ 20 := by
    unfold e
    cbv
  have hcalm : ∀ p, ¬PanicsAtTurn (execute 20) p (e.keep .draining) := by
    intro p hp
    have hresult : (renderAll (execute 20) 20 {} (e.keep .draining)).result = .ok ⟨2, 1⟩ := by
      unfold e
      cbv
    have hends := hp.result 20 {}
    rw [hresult] at hends
    simp at hends
  obtain ⟨hdelivers, hreturns⟩ := drain_delivers_once he rfl e.queue.jobs 20
  have hreport : ∃ report, (perform 20 .drain e).result = .ok (.rendered report) :=
    (hreturns hload hcalm).resolve_right (by rintro ⟨m, hm⟩; cases hrendered.symm.trans hm)
  obtain ⟨report, hreport⟩ := hreport
  obtain ⟨turns, -, -, -, -, hjournal, hturns, -, htally⟩ := hdelivers report hreport
  cases hrendered.symm.trans hreport
  exact ⟨hrendered, hjobs, ⟨hload, hcalm⟩, turns, hjournal, hturns, htally.symm⟩

end Highlighting
