/-
Where panics of the surroundings go.

A resolver that panics fails the pass, and a surface that panics while it takes a
change has taken it.  Nothing of that is seen by whoever asked for the pass or for
the rendering.  A surface that panics when it is asked whether its view is there is
another matter: the panic leaves the pass, which then has no outcome and is not
counted, or it leaves the rendering, which loses the change whose turn it was and
does not get to those behind it.  There is no other way out.
-/
import Highlighting.Proofs.Documents.Noninterference
import Highlighting.Proofs.Metrics
import Highlighting.Proofs.Screen
import Mathlib

namespace Highlighting

open Act EditorM

variable {run : Script → EditorM Unit} {e e' e'' : Editor} {j : Job} {p : Payload}

/-! ### Passes -/

/-- A panic leaves a pass exactly if its surface, asked at last, panics. -/
theorem reconcile_panics_iff (hrun : Commanding run) (he : e.Reachable) (r : Request) :
    (reconcile run r e).result = .error (.panic p) ↔
      ∃ id s wanted, Compares run e r id s wanted ∧
        (asking run e r id s).result = .error (.panic p) := by
  constructor
  · intro hpanic
    rcases decided_or hrun he r with ⟨o, ho⟩ |
      ⟨id, s, wanted, halted, hcompares, hasked, hresult⟩ | ⟨halted, hother, hresult⟩
    · rw [ho.result hrun he] at hpanic
      cases hpanic
    · rw [hpanic] at hresult
      cases hresult
      exact ⟨id, s, wanted, hcompares, hasked⟩
    · rw [hpanic] at hresult
      cases hresult
      exact absurd rfl (hother p)
  · intro h
    obtain ⟨id, s, wanted, hcompares, hasked⟩ := h
    rw [hcompares.result hrun he.fit, hasked]
    rfl

/-- The outcomes counted during a pass are its own, if it has one, and those of the passes that its
callbacks ran. -/
theorem reconcile_counts (fuel : Nat) (r : Request) (e : Editor) :
    let course := reconcile (execute fuel) r e
    ∃ evs, course.last.journal = evs ++ e.journal ∧
      endings evs = course.result.toOption.toList ++ replies evs ∧
      course.last.metrics.counters = e.metrics.counters.after (endings evs) := by
  intro course
  obtain ⟨evs, hj, hends⟩ := (reconcile_owes (execute_owes fuel) r e).2
  obtain ⟨evs', hj', hcounters, -⟩ := (reconcile_audits (execute_audits fuel) r e).2
  have hsame : evs' = evs := List.append_cancel_right (hj'.symm.trans hj)
  rw [hsame] at hcounters
  exact ⟨evs, hj, hends, hcounters⟩

/-! ### The turn of a change -/

/-- While the queue is drained, these changes are lost, and no others. -/
def Loses (js : List Job) (e e' : Editor) : Prop :=
  Fit e → e.queue.keeper = .draining → Fit e' ∧ e'.queue.keeper = .draining ∧
    ∃ evs, e'.journal = evs ++ e.journal ∧ jobsOf Event.lost? evs = js

theorem Loses.trans {js ks : List Job} (h : Loses js e e') (h' : Loses ks e' e'') :
    Loses (js ++ ks) e e'' := by
  intro hfit hkeeper
  obtain ⟨hfit', hkeeper', evs, hj, hlost⟩ := h hfit hkeeper
  obtain ⟨hfit'', hkeeper'', evs', hj', hlost'⟩ := h' hfit' hkeeper'
  refine ⟨hfit'', hkeeper'', evs' ++ evs, ?_, ?_⟩
  · rw [hj', hj, List.append_assoc]
  · rw [jobsOf_append, hlost, hlost']

theorem loses_refl (e : Editor) : Loses [] e e := fun hfit hkeeper =>
  ⟨hfit, hkeeper, [], rfl, rfl⟩

/-- Commands lose nothing while somebody else drains the queue. -/
theorem Runs.loses (h : Runs e e') : Loses [] e e' := by
  intro hfit hkeeper
  obtain ⟨hkeeper', evs, hj, hturn⟩ := h.2 hfit hkeeper
  refine ⟨(h.1 hfit).1, hkeeper', evs, hj, jobsOf_eq_nil fun ev hev => ?_⟩
  have hnone := hturn ev hev
  cases ev <;> simp_all [Event.isTurn, Event.lost?]

theorem loses_of_told (event : Event) (htorn : ∀ t, event ≠ .tornDown t) {e e' : Editor}
    (hlives : SameLives e e') (hkeeper : e'.queue.keeper = e.queue.keeper)
    (hj : e'.journal = event :: e.journal) : Loses event.lost?.toList e e' := by
  intro hfit hdraining
  have hdraining' : e'.queue.keeper = .draining := hkeeper.trans hdraining
  refine ⟨hfit.of_sameLives hlives (fun t => ?_) (fun h => absurd hdraining' h), hdraining',
    [event], hj, ?_⟩
  · rw [hj, List.mem_cons]
    exact ⟨fun h => h.resolve_left fun heq => htorn t heq.symm, Or.inr⟩
  · cases hlost : event.lost? <;> simp [jobsOf, hlost]

theorem loses_log {event : Event} (htorn : ∀ t, event ≠ .tornDown t) (e : Editor) :
    Loses event.lost?.toList e (e.log event) :=
  loses_of_told event htorn (sameLives_log e event) rfl rfl

theorem applyJob_loses (hrun : Commanding run) (j : Job) : Keeps (Loses []) (applyJob run j) :=
  .get_bind fun e => by
    split
    · rw [ensures_pure]
      exact loses_refl e
    · rename_i s _
      rw [ensures_bind, log, ensures_modify, next_ok, ensures_bind, ensures_modify, next_ok]
      have htold : Loses [] e (e.log (.applied s.name j)) := loses_log (by simp) e
      have hcalled := htold.trans
        (Outside.runs (outside_modifySurface (e.log (.applied s.name j)) j.target.surface
          (f := Surface.nextApply) fun _ => rfl)).loses
      exact (hrun _ _).mono (fun _ hm => hcalled.trans hm.loses) fun _ _ h => hcalled.trans h.loses

/-- A turn that ends loses nothing, and one a panic leaves loses the change whose turn it was. -/
theorem deliver_loses (hrun : Commanding run) (j : Job) (e : Editor) :
    Ensures (deliver run j) e (fun _ => True) fun result e' =>
      (∀ report, result = .ok report → Loses [] e e') ∧
      ∀ p, result = .error (.panic p) → Loses [j] e e' := by
  unfold deliver
  rw [ensures_bind, ensures_attempt]
  refine (isLive_keeps hrun j.target e).mono (fun _ _ => trivial) fun result e' hruns => ?_
  have hasked : Loses [] e e' := hruns.loses
  rw [next_ok]
  match result with
  | .ok true =>
    dsimp only
    rw [ensures_bind, ensures_catching]
    refine (applyJob_loses hrun j e').mono (fun _ _ => trivial) fun result e'' happlied => ?_
    have hlast : Loses [] e e'' := hasked.trans happlied
    match result with
    | .ok _ | .error (.panic _) =>
      dsimp only
      rw [next_ok, ensures_pure]
      exact ⟨fun _ _ => hlast, by simp⟩
    | .error (.emptyMark _) | .error .outOfFuel => exact ⟨by simp, by simp⟩
  | .ok false =>
    dsimp only
    rw [ensures_bind, log, ensures_modify, next_ok, ensures_pure]
    exact ⟨fun _ _ => hasked.trans (loses_log (by simp) e'), by simp⟩
  | .error halted =>
    dsimp only
    rw [ensures_bind, log, ensures_modify, next_ok, ensures_halt]
    exact ⟨by simp, fun _ _ => hasked.trans (loses_log (by simp) e')⟩

/-- A panic leaves the turn of a change exactly if its surface, asked for it, panics. -/
theorem deliver_panics_iff (run : Script → EditorM Unit) (j : Job) (e : Editor) :
    (deliver run j e).result = .error (.panic p) ↔
      (isLive run j.target e).result = .error (.panic p) := by
  suffices h : Ensures (deliver run j) e (fun _ => True) fun result _ =>
      result = .error (.panic p) ↔ (isLive run j.target e).result = .error (.panic p) from h.2
  unfold deliver
  rw [ensures_bind, ensures_attempt]
  refine ⟨fun _ _ => trivial, ?_⟩
  beta_reduce
  rw [next_ok]
  match hasked : (isLive run j.target e).result with
  | .ok true =>
    dsimp only
    rw [ensures_bind, ensures_catching]
    refine ⟨fun _ _ => trivial, ?_⟩
    -- what is caught here does not leave as a panic
    generalize (applyJob run j _).result = applied
    match applied with
    | .ok _ | .error (.panic _) | .error (.emptyMark _) | .error .outOfFuel => simp
  | .ok false =>
    dsimp only
    rw [ensures_bind, log, ensures_modify, next_ok, ensures_pure]
    simp
  | .error halted =>
    dsimp only
    rw [ensures_bind, log, ensures_modify, next_ok, ensures_halt]
    simp

/-! ### Turn after turn -/

/-- Rendering what is queued comes to a change whose surface panics when it is asked. -/
inductive PanicsAtTurn (run : Script → EditorM Unit) (p : Payload) : Editor → Prop where
  | now {e : Editor} {j : Job} {rest : List Job} (hq : e.queue.jobs = j :: rest)
      (h : (isLive run j.target (e.take j rest)).result = .error (.panic p)) : PanicsAtTurn run p e
  | later {e : Editor} {j : Job} {rest : List Job} {report : RenderReport}
      (hq : e.queue.jobs = j :: rest) (h : (deliver run j (e.take j rest)).result = .ok report)
      (hrest : PanicsAtTurn run p (deliver run j (e.take j rest)).last) : PanicsAtTurn run p e

theorem PanicsAtTurn.result (h : PanicsAtTurn run p e) (fuel : Nat) (report : RenderReport) :
    (renderAll run fuel report e).result = .error (.panic p) ∨
      (renderAll run fuel report e).result = .error .outOfFuel := by
  induction h generalizing fuel report with
  | now hq h =>
      cases fuel with
      | zero => exact Or.inr (renderAll_zero hq report)
      | succ fuel =>
          left
          rw [renderAll_succ hq, Act.result_bind, (deliver_panics_iff run _ _).mpr h]
          rfl
  | later hq h _ ih =>
      cases fuel with
      | zero => exact Or.inr (renderAll_zero hq report)
      | succ fuel =>
          rw [renderAll_succ hq, Act.result_bind, h]
          exact ih fuel _

/-- A panic leaves a rendering only at the turn of a change whose surface panics when asked, and
that change alone is lost. -/
theorem renderAll_panics (hrun : Commanding run) (fuel : Nat) :
    ∀ (report : RenderReport) (e : Editor),
      Ensures (renderAll run fuel report) e (fun _ => True) fun result e' =>
        (∀ total, result = .ok total → Loses [] e e') ∧
        ∀ p, result = .error (.panic p) → PanicsAtTurn run p e ∧ ∃ j, Loses [j] e e' := by
  induction fuel with
  | zero =>
      intro report e
      refine ⟨fun _ _ => trivial, ?_⟩
      cases hq : e.queue.jobs with
      | nil =>
          rw [renderAll_of_nil hq]
          exact ⟨fun _ _ => loses_refl e, by simp⟩
      | cons j rest =>
          rw [renderAll_zero hq report]
          simp
  | succ fuel ih =>
      intro report e
      cases hq : e.queue.jobs with
      | nil =>
          refine ⟨fun _ _ => trivial, ?_⟩
          rw [renderAll_of_nil hq]
          exact ⟨fun _ _ => loses_refl e, by simp⟩
      | cons j rest =>
          have htaken : Loses [] e (e.take j rest) :=
            loses_of_told (.taken j) (by simp) {} rfl rfl
          have hturn : Ensures (deliver run j) (e.take j rest) (fun _ => True) fun result e' =>
              result = (deliver run j (e.take j rest)).result ∧
              e' = (deliver run j (e.take j rest)).last := ⟨fun _ _ => trivial, rfl, rfl⟩
          obtain ⟨-, hended, hleft⟩ := deliver_loses hrun j (e.take j rest)
          rw [renderAll, ensures_bind, ensures_get, next_ok, hq]
          dsimp only
          rw [ensures_bind, ensures_modify, next_ok, ensures_bind]
          refine hturn.mono (fun _ _ => trivial) fun result e' h => ?_
          obtain ⟨hresult, rfl⟩ := h
          rw [← hresult] at hended hleft
          cases result with
          | error halted =>
              refine ⟨by simp, fun p hp => ⟨.now hq ?_, j, htaken.trans (hleft p hp)⟩⟩
              rw [← deliver_panics_iff, ← hresult]
              exact hp
          | ok one =>
              have hdealt := htaken.trans (hended one rfl)
              rw [next_ok]
              refine (ih _ _).mono (fun _ _ => trivial) fun result e'' hrest => ?_
              refine ⟨fun total ht => hdealt.trans (hrest.1 total ht), fun p hp => ?_⟩
              obtain ⟨hturn, k, hlost⟩ := hrest.2 p hp
              exact ⟨.later hq hresult.symm hturn, k, hdealt.trans hlost⟩

/-! ### Draining -/

/-- What a drain answers is how the rendering ended. -/
theorem drainQueue_renders (hidle : e.queue.keeper = .idle) {fuel : Nat}
    {rendering : Course Editor Halt RenderReport}
    (hrendering : renderAll run fuel {} (e.keep .draining) = rendering) :
    (drainQueue run fuel e).last = rendering.last.keep .idle ∧
    (drainQueue run fuel e).result = match rendering.result with
      | .ok report => .ok (.rendered report)
      | .error (.panic p) => .ok (.panicked p.message)
      | .error h => .error h := by
  suffices h : Ensures (drainQueue run fuel) e (fun _ => True) fun result e' =>
      e' = rendering.last.keep .idle ∧ result = match rendering.result with
        | .ok report => .ok (.rendered report)
        | .error (.panic p) => .ok (.panicked p.message)
        | .error h => .error h from h.2
  unfold drainQueue renderAnswer
  rw [ensures_bind, ensures_get, next_ok, hidle]
  dsimp only
  rw [ensures_bind, ensures_modify, next_ok, ensures_bind, ensures_catching, ensures_ensuring]
  refine ⟨fun _ _ => trivial, ?_⟩
  beta_reduce
  rw [hrendering]
  match rendering.result with
  | .ok _ | .error (.panic _) =>
    dsimp only
    rw [next_ok, ensures_pure]
    exact ⟨rfl, rfl⟩
  | .error (.emptyMark _) | .error .outOfFuel => exact ⟨rfl, rfl⟩

/-- The turns that ended are those that were reported and those that were lost. -/
theorem length_dealt (evs : List Event) : (jobsOf Event.dealt? evs).length =
    (reportOf evs).applied + (reportOf evs).discarded + (jobsOf Event.lost? evs).length := by
  induction evs with
  | nil => rfl
  | cons ev rest ih =>
      rw [jobsOf_cons, jobsOf_cons, List.length_append, List.length_append, ih]
      cases ev <;> simp [reportOf, List.countP_cons, Event.isApplied, Event.isDiscarded,
        Event.dealt?, Event.lost?] <;> omega

/-- Of what a drain takes off the queue all is reported, but for what is lost. -/
theorem drain_accounts (he : e.Reachable) (hidle : e.queue.keeper = .idle) (fuel : Nat)
    {evs : List Event} (hj : (perform fuel .drain e).last.journal = evs ++ e.journal) :
    (jobsOf Event.taken? evs).length =
      (reportOf evs).applied + (reportOf evs).discarded + (jobsOf Event.lost? evs).length := by
  have hlast : (perform fuel .drain e).last.Reachable := he.last fuel .drain
  have hkeeper : (perform fuel .drain e).last.queue.keeper = .idle := by
    rw [show (perform fuel .drain e).last = _ from (drainQueue_renders hidle rfl).1]
    rfl
  have hbefore := he.accounted.taken
  have hafter := hlast.accounted.taken
  rw [he.fit.turn (by simp [hidle])] at hbefore
  rw [hlast.fit.turn (by simp [hkeeper]), hj, jobsOf_append, jobsOf_append, hbefore] at hafter
  have htaken : jobsOf Event.taken? evs = jobsOf Event.dealt? evs := by simpa using hafter
  rw [htaken, length_dealt]

/-! ### All of it -/

/-- **What panics of the surroundings do.**  At every moment of every session, whatever resolvers
and surfaces do when they are called:

- A pass returns an outcome, or its surface panicked when asked and the panic leaves it; otherwise
  the whole session is broken off.  What is counted meanwhile is its outcome, if it has one, and
  those of the passes inside its callbacks.  If a resolver panics, the pass has failed.
- A drain renders until the queue is empty and reports every change it took off, or it comes to a
  change whose surface panics when asked.  Then the panic leaves it, and that change is lost:
  neither applied nor discarded. -/
theorem panics_leave_by_asking {e : Editor} (he : e.Reachable) {fuel : Nat} (hfuel : e.load ≤ fuel) :
    (∀ r, let course := reconcile (execute fuel) r e
      (∃ evs, course.last.journal = evs ++ e.journal ∧
        endings evs = course.result.toOption.toList ++ replies evs ∧
        course.last.metrics.counters = e.metrics.counters.after (endings evs)) ∧
      (∀ p, course.result = .error (.panic p) ↔
        ∃ id s wanted, Compares (execute fuel) e r id s wanted ∧
          (asking (execute fuel) e r id s).result = .error (.panic p)) ∧
      (∀ id s p, Enters e r id s → (classifying (execute fuel) e r id s).result = .error (.panic p) →
        course.result = .ok (.failed (.classifierPanicked p.message))) ∧
      ∀ halted, course.result = .error halted →
        (∃ p, halted = .panic p) ∨ ∃ m, halted = .emptyMark m) ∧
    (e.queue.keeper = .idle → let course := perform fuel .drain e
      (∀ p, PanicsAtTurn (execute fuel) p (e.keep .draining) →
        course.result = .ok (.panicked p.message)) ∧
      ∃ evs, course.last.journal = evs ++ e.journal ∧
        ((∃ report, course.result = .ok (.rendered report) ∧ course.last.queue.jobs = [] ∧
            jobsOf Event.lost? evs = [] ∧
            report.applied + report.discarded = (jobsOf Event.taken? evs).length) ∨
          (∃ p j, PanicsAtTurn (execute fuel) p (e.keep .draining) ∧
            course.result = .ok (.panicked p.message) ∧ jobsOf Event.lost? evs = [j] ∧
            (reportOf evs).applied + (reportOf evs).discarded + 1 =
              (jobsOf Event.taken? evs).length) ∨
          ∃ m, course.result = .error (.emptyMark m))) := by
  have hrun := execute_commanding fuel
  refine ⟨fun r => ?_, fun hidle => ?_⟩
  · refine ⟨reconcile_counts fuel r e, fun p => reconcile_panics_iff hrun he r, ?_, ?_⟩
    · intro id s p henters hpanic
      rw [henters.result, hpanic]
    · intro halted hresult
      have hspends := (reconcile_spends (execute_fueled fuel) hfuel r).2.1
      cases halted with
      | panic p => exact Or.inl ⟨p, rfl⟩
      | emptyMark m => exact Or.inr ⟨m, rfl⟩
      | outOfFuel => exact absurd hresult hspends
  · intro course
    have hfit : Fit (e.keep .draining) :=
      (Step.keep (by simp [hidle]) (by simp) (he.fit.turn (by simp [hidle]))).fit he.fit
    have hrenders : course.last = _ ∧ course.result = _ := drainQueue_renders hidle rfl
    obtain ⟨hlast, hresult⟩ := hrenders
    have hspends : course.result ≠ .error .outOfFuel :=
      (drainQueue_spends (execute_fueled fuel) hfuel).2.1
    have hpanics := (renderAll_panics hrun fuel {} (e.keep .draining)).2
    obtain ⟨hruns, hrendered⟩ := (drainQueue_spec hrun he.fit fuel).2
    obtain ⟨evs, hj, -⟩ := (hruns.1 he.fit).2.2.journal
    have haccounts := drain_accounts he hidle fuel hj
    -- what the rendering lost, read off the journal the drain leaves
    have hlost : ∀ js, Loses js (e.keep .draining)
        (renderAll (execute fuel) fuel {} (e.keep .draining)).last →
          jobsOf Event.lost? evs = js := by
      intro js hloses
      obtain ⟨-, -, evs', hj', hjs⟩ := hloses hfit rfl
      have hsame : evs' ++ e.journal = evs ++ e.journal := by
        rw [← hj, show (drainQueue (execute fuel) fuel e).last = _ from hlast]
        exact hj'.symm
      rw [← List.append_cancel_right hsame]
      exact hjs
    have hleaves : ∀ p, PanicsAtTurn (execute fuel) p (e.keep .draining) →
        course.result = .ok (.panicked p.message) := by
      intro p hp
      rcases hp.result fuel {} with hpanic | hout
      · rw [hresult, hpanic]
      · rw [hout] at hresult
        exact absurd hresult hspends
    refine ⟨hleaves, evs, hj, ?_⟩
    match hends : (renderAll (execute fuel) fuel {} (e.keep .draining)).result with
    | .ok report =>
      rw [hends] at hresult hpanics
      have hnone := hlost [] (hpanics.1 report rfl)
      obtain ⟨hempty, -, evs', hj', hreport⟩ := hrendered report hresult
      rw [List.append_cancel_right (hj'.symm.trans hj)] at hreport
      refine Or.inl ⟨report, hresult, hempty, hnone, ?_⟩
      rw [hnone, ← hreport] at haccounts
      exact haccounts.symm
    | .error (.panic p) =>
      rw [hends] at hpanics
      obtain ⟨hturn, j, hloses⟩ := hpanics.2 p rfl
      have hone := hlost [j] hloses
      rw [hone] at haccounts
      exact Or.inr (Or.inl ⟨p, j, hturn, hleaves p hturn, hone, haccounts.symm⟩)
    | .error (.emptyMark m) =>
      rw [hends] at hresult
      exact Or.inr (Or.inr ⟨m, hresult⟩)
    | .error .outOfFuel =>
      rw [hends] at hresult
      exact absurd hresult hspends

open OneNumber TwoViews

/-- A resolver panics, and the view of one of two changes does when it is given it. -/
theorem panics_contained_twoChanges :
    let e := (blank.converse 20 [.surface "left" [] [[.panic (.text "no brush")]] false,
      .install ⟨1⟩ "left" (.table []) true [[.panic (.text "no style")]],
      .token "token" none, .target "left" ⟨1⟩ "left",
      .dispatch "left" (.ok change), .dispatch "left" (.ok change)]).2
    (reconcile (execute 20) request e).result = .ok (.failed (.classifierPanicked "no style")) ∧
      (perform 20 .drain e).result = .ok (.rendered ⟨2, 0⟩) ∧
      ∃ evs, (perform 20 .drain e).last.journal = evs ++ e.journal ∧
        (jobsOf Event.taken? evs).length = 2 := by
  intro e
  have he : e.Reachable := (Editor.Reachable.new _ _ _).converse 20 _
  have hload : e.load ≤ 20 := by
    unfold e
    cbv
  have hclassifying :
      (classifying (execute 20) e request 0 slot).result = .error (.panic (.text "no style")) := by
    unfold e
    simp only [classifying, wantedHighlights, Policy.classifyTree_eq_auction]
    cbv
  have hrendered : (perform 20 .drain e).result = .ok (.rendered ⟨2, 0⟩) := by
    unfold e
    cbv
  obtain ⟨hpass, hdrain⟩ := panics_leave_by_asking he hload
  obtain ⟨-, evs, hj, hends⟩ := hdrain rfl
  refine ⟨(hpass request).2.2.1 0 slot _ ⟨rfl, rfl⟩ hclassifying, hrendered, evs, hj, ?_⟩
  rcases hends with ⟨report, hreport, -, -, htaken⟩ | ⟨p, j, -, hpanicked, -⟩ | ⟨m, hbroken⟩
  · rw [hrendered] at hreport
    cases hreport
    exact htaken.symm
  · rw [hrendered] at hpanicked
    cases hpanicked
  · rw [hrendered] at hbroken
    cases hbroken

/-- A surface panics when it is asked at the turn of a change: the drain is left by the panic, with
one change lost and one still queued.  Another one panics when a pass asks it, and no outcome is
counted. -/
theorem left_by_panic_twoViews :
    let e := (blank.converse 20 [.surface "left" [] [] false,
      .surface "right" [[.panic (.text "view lost")]] [] false,
      .target "left" ⟨1⟩ "left", .target "right" ⟨2⟩ "right",
      .dispatch "right" (.ok change), .dispatch "left" (.ok change)]).2
    let asked := installed [[.panic (.text "view lost")]]
    (perform 20 .drain e).result = .ok (.panicked "view lost") ∧
      (perform 20 .drain e).last.queue.jobs.length = 1 ∧
      reportOf (perform 20 .drain e).last.journal = ⟨0, 0⟩ ∧
      jobsOf Event.lost? (perform 20 .drain e).last.journal =
        [⟨⟨⟨2⟩, 1, ⟨1, []⟩⟩, change⟩] ∧
      (reconcile (execute 1) request asked).result = .error (.panic (.text "view lost")) ∧
      (reconcile (execute 1) request asked).last.metrics.counters = {} := by
  refine ⟨by cbv, by cbv, by cbv, by cbv, ?_⟩
  simp only [reconcile, passInside, wantedHighlights, Policy.classifyTree_eq_auction]
  cbv

end Highlighting
