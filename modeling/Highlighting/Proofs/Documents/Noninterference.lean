/-
Documents do not interfere.

A session with several documents is compared with the one in which only the commands
of one document and those on the queue are left.  Step by step the two editors stay
related: a command of the document, or on the queue, is carried out in both, and one
of another document in the first alone.

There is one way in which documents do meet.  They wait in one queue, and a surface
that panics when asked for its view at the turn of a change breaks the rendering off:
the changes behind it stay in the queue.  So the comparison is made for sessions in
which no change of another document is lost.
-/
import Highlighting.Proofs.Documents.Companions
import Highlighting.Proofs.Documents.Outsiders
import Highlighting.Proofs.Editor.Fuel
import Highlighting.Proofs.Published
import Mathlib

namespace Highlighting

open Act EditorM

variable {o : Ownership} {d : DocumentId} {ρ : Link} {e f : Editor}

/-! ### Rendering the queue -/

section Rendering

variable {run run' : Script → EditorM Unit}

theorem renderAll_of_nil (h : e.queue.jobs = []) (fuel : Nat) (report : RenderReport) :
    renderAll run fuel report e = ⟨[], .ok report, e⟩ := by
  rw [renderAll, get_bind_apply, h]
  rfl

theorem renderAll_zero {j : Job} {rest : List Job} (h : e.queue.jobs = j :: rest)
    (report : RenderReport) : (renderAll run 0 report e).result = .error .outOfFuel := by
  rw [renderAll, get_bind_apply, h]
  rfl

theorem renderAll_succ {j : Job} {rest : List Job} (h : e.queue.jobs = j :: rest) (fuel : Nat)
    (report : RenderReport) : renderAll run (fuel + 1) report e =
      (deliver run j >>= fun r => renderAll run fuel (report.add r)) (e.take j rest) := by
  rw [renderAll, get_bind_apply, h]
  rfl

/-- A panic leaves the turn of a change only when it is lost. -/
theorem lost_of_deliver_panic (run : Script → EditorM Unit) (j : Job) (e : Editor) {p : Payload}
    (h : (deliver run j e).result = .error (.panic p)) :
    .lost j ∈ (deliver run j e).last.journal := by
  have hspec : Ensures (deliver run j) e (fun _ => True) fun r e' =>
      ∀ p, r = .error (.panic p) → .lost j ∈ e'.journal := by
    have hany : ∀ {α : Type} (x : EditorM α) (e : Editor),
        Ensures x e (fun _ => True) fun _ _ => True := fun _ _ => ⟨fun _ _ => trivial, trivial⟩
    unfold deliver
    rw [ensures_bind, ensures_attempt]
    refine (hany _ e).mono (fun _ h => h) fun r e' _ => ?_
    rw [next_ok]
    match r with
    | .ok true =>
      dsimp only
      rw [ensures_bind, ensures_catching]
      refine (hany _ e').mono (fun _ h => h) fun r' e'' _ => ?_
      -- what is caught here does not leave as a panic
      match r' with
      | .ok _ | .error (.panic _) | .error (.emptyMark _) | .error .outOfFuel => simp
    | .ok false =>
      dsimp only
      rw [ensures_bind, EditorM.log, ensures_modify, next_ok, ensures_pure]
      simp
    | .error h =>
      dsimp only
      rw [ensures_bind, EditorM.log, ensures_modify, next_ok, ensures_halt]
      simp
  exact hspec.2 p h

/-- How a rendering is broken off, if it is. -/
def Caught {α : Type} (c : Course Editor Halt α) : Prop :=
  ∀ h, c.result = .error h → ∃ p, h = .panic p

/-- The change that was lost, if an event tells of that. -/
def Event.lost? : Event → Option Job
  | lost j => some j
  | _ => none

/-- The changes whose turn was broken off before it was known whether their target was there. -/
def Editor.lostJobs (e : Editor) : List Job := e.journal.filterMap Event.lost?

theorem Editor.mem_lostJobs {j : Job} : j ∈ e.lostJobs ↔ .lost j ∈ e.journal := by
  rw [Editor.lostJobs, List.mem_filterMap]
  constructor
  · rintro ⟨ev, hev, hj⟩
    cases ev <;> simp_all [Event.lost?]
  · exact fun h => ⟨_, h, rfl⟩

/-- No change of another document was lost. -/
def NoneLost (d : DocumentId) (e : Editor) : Prop := ∀ j ∈ e.lostJobs, j.target.doc = d

/-- **The queue is rendered the same as without the others**, if none of theirs is lost.  The
induction is on the fuel of the editor with all documents, one unit for each turn. -/
theorem renderAll_agree (hrun : Companions o d run run') (hout : ∀ own, Outsiders o d own run)
    (fuel : Nat) : ∀ {ρ e f} (fuel' : Nat) (report report' : RenderReport), Related o d ρ e f →
      Caught (renderAll run fuel report e) → NoneLost d (renderAll run fuel report e).last →
      Agree o d ρ (fun _ _ => True) (renderAll run fuel report e)
        (renderAll run' fuel' report' f) := by
  induction fuel with
  | zero =>
      intro ρ e f fuel' report report' hrel _ _
      cases hq : e.queue.jobs with
      | nil =>
          rw [renderAll_of_nil hq, renderAll_of_nil (hrel.jobs_nil hq)]
          exact fun _ _ => ⟨ρ, le_rfl, hrel, .ok trivial⟩
      | cons j rest => exact fun hfuel _ => absurd (renderAll_zero hq report) hfuel
  | succ fuel ih =>
      intro ρ e f fuel' report report' hrel hcaught hlost
      cases hq : e.queue.jobs with
      | nil =>
          rw [renderAll_of_nil hq, renderAll_of_nil (hrel.jobs_nil hq)]
          exact fun _ _ => ⟨ρ, le_rfl, hrel, .ok trivial⟩
      | cons j rest =>
          rw [renderAll_succ hq] at hcaught hlost ⊢
          by_cases hdoc : j.target.doc = d
          · -- a turn of the document, in both editors
            obtain ⟨k, rest', hq', hjk, htaken⟩ := hrel.jobs_cons hq hdoc
            cases fuel' with
            | zero => exact fun _ hfuel' => absurd (renderAll_zero hq' report') hfuel'
            | succ fuel' =>
                rw [renderAll_succ hq']
                refine (deliver_inStep hrun hjk _ _ _ le_rfl htaken).bind
                  fun ρ' seen a b e' f' _ hdelivered _ hrel' => ?_
                rw [bind_of_ok hdelivered] at hcaught hlost
                exact ih fuel' _ _ hrel' hcaught hlost
          · -- a turn of another document, in the first editor alone
            have htaken := hrel.take_foreign hq hdoc
            have haway := hrel.apart.jobs j (by rw [hq]; exact List.mem_cons_self) hdoc
            have hforeign := (deliver_foreign (hout ρ.Has) hdoc haway.surface.2 (e.take j rest)).2
            rcases hdelivered : deliver run j (e.take j rest) with ⟨seen, r, e'⟩
            rw [hdelivered] at hforeign
            cases r with
            | ok one =>
                rw [bind_of_ok hdelivered] at hcaught hlost ⊢
                exact ih fuel' _ _ (htaken.foreign hforeign) hcaught hlost
            | error h =>
                rw [bind_of_error hdelivered] at hcaught hlost
                obtain ⟨p, rfl⟩ := hcaught h rfl
                have hmem := lost_of_deliver_panic run j (e.take j rest) (p := p)
                  (by rw [hdelivered])
                rw [hdelivered] at hmem
                exact absurd (hlost j (Editor.mem_lostJobs.mpr hmem)) hdoc

/-- The answer is there only if a panic was all that broke the rendering off. -/
theorem caught_of_renderAnswer {x : EditorM RenderReport} {a : Answer}
    (h : (renderAnswer x e).result = .ok a) :
    Caught (x e) ∧ (renderAnswer x e).last = (x e).last := by
  have hx : Ensures x e (fun _ => True) fun r e' => (x e).result = r ∧ e' = (x e).last :=
    ⟨fun _ _ => trivial, rfl, rfl⟩
  have hspec : Ensures (renderAnswer x) e (fun _ => True) fun r e' =>
      r = .ok a → Caught (x e) ∧ e' = (x e).last := by
    unfold renderAnswer
    rw [ensures_bind, ensures_catching]
    refine hx.mono (fun _ h => h) fun r e' hr => ?_
    obtain ⟨hr, rfl⟩ := hr
    unfold Caught
    rw [hr]
    match r with
    | .ok _ | .error (.panic _) | .error (.emptyMark _) | .error .outOfFuel => simp
  exact hspec.2 h

theorem renderAnswer_agree {x x' : EditorM RenderReport}
    (h : Agree o d ρ (fun _ _ => True) (x e) (x' f)) :
    Agree o d ρ Any (renderAnswer x e) (renderAnswer x' f) := by
  refine h.catching.bind fun ρ' _ a b e' f' _ _ hmatch hrel => ?_
  cases hmatch <;> exact fun _ _ => ⟨ρ', le_rfl, hrel, .ok trivial⟩

/-- Rendering with the queue taken away and put back, or dropped, in the end. -/
theorem render_agree (hrun : Companions o d run run') (hout : ∀ own, Outsiders o d own run)
    (fuel fuel' : Nat) {close : Editor → Editor} (hrel : Related o d ρ e f)
    (hclose : ∀ ρ' e f, Related o d ρ' e f → Related o d ρ' (close e) (close f))
    (hjournal : ∀ e, (close e).journal = e.journal) {a : Answer}
    (hok :
      (renderAnswer (ensuring (renderAll run fuel {}) close) (e.keep .draining)).result = .ok a)
    (hlost : NoneLost d
      (renderAnswer (ensuring (renderAll run fuel {}) close) (e.keep .draining)).last) :
    Agree o d ρ Any (renderAnswer (ensuring (renderAll run fuel {}) close) (e.keep .draining))
      (renderAnswer (ensuring (renderAll run' fuel' {}) close) (f.keep .draining)) := by
  obtain ⟨hcaught, hlast⟩ := caught_of_renderAnswer hok
  rw [hlast] at hlost
  have hnone : NoneLost d (renderAll run fuel {} (e.keep .draining)).last := by
    intro j hj
    rw [Editor.mem_lostJobs] at hj
    refine hlost j (Editor.mem_lostJobs.mpr ?_)
    change _ ∈ (close _).journal
    rwa [hjournal]
  refine renderAnswer_agree (Agree.ensuring ?_ fun ρ' e f _ hrel => hclose ρ' e f hrel)
  exact renderAll_agree hrun hout fuel fuel' {} {} (hrel.keep .draining) hcaught hnone

/-- **A command on the queue agrees**, if it is carried out and nothing of others is lost. -/
theorem performWith_shared (hrun : Companions o d run run') (hout : ∀ own, Outsiders o d own run)
    (fuel fuel' : Nat) {c : Command} (hc : c.isShared = true) (hrel : Related o d ρ e f)
    {a : Answer} (hok : (performWith run fuel c e).result = .ok a)
    (hlost : NoneLost d (performWith run fuel c e).last) :
    Agree o d ρ Any (performWith run fuel c e) (performWith run' fuel' c f) := by
  cases c with
  | drain =>
      simp only [performWith, drainQueue, get_bind_apply] at hok hlost ⊢
      rw [hrel.keeper]
      cases hkeeper : e.queue.keeper with
      | idle =>
          simp only [hkeeper, modify_bind_apply] at hok hlost
          exact render_agree hrun hout fuel fuel' hrel (fun ρ' e f hrel => hrel.keep .idle)
            (fun _ => rfl) hok hlost
      | draining | thread | gone => exact fun _ _ => ⟨ρ, le_rfl, hrel, .ok trivial⟩
  | dropQueue =>
      simp only [performWith, get_bind_apply]
      rw [hrel.keeper]
      split
      · exact fun _ _ => ⟨ρ, le_rfl, hrel.dropQueue, .ok trivial⟩
      · exact fun _ _ => ⟨ρ, le_rfl, hrel, .ok trivial⟩
  | finish =>
      have hgone := hrel.letGo
      simp only [performWith, finishQueue, modify_bind_apply, get_bind_apply] at hok hlost ⊢
      rw [hgone.keeper]
      cases hkeeper : e.queue.keeper with
      | idle | thread =>
          simp only [hkeeper, modify_bind_apply] at hok hlost
          exact render_agree hrun hout fuel fuel' hgone (fun ρ' e f hrel => hrel.dropQueue)
            (fun _ => rfl) hok hlost
      | draining | gone => exact fun _ _ => ⟨ρ, le_rfl, hgone, .ok trivial⟩
  | _ => exact absurd hc (by simp [Command.isShared])

end Rendering

/-! ### Sessions -/

/-- A session is carried out to its end. -/
def Editor.Completes (e : Editor) (fuel : Nat) (script : Script) : Prop :=
  (e.converse fuel script).1.isOk = true

theorem Editor.completes_cons {fuel : Nat} {c : Command} {rest : Script} :
    e.Completes fuel (c :: rest) ↔
      (∃ a, (perform fuel c e).result = .ok a) ∧ (perform fuel c e).last.Completes fuel rest := by
  unfold Editor.Completes
  rw [Editor.converse]
  rcases perform fuel c e with ⟨seen, halted | a, e'⟩
  · simp [Except.isOk, Except.toBool]
  · rcases hrest : e'.converse fuel rest with ⟨halted | log, last⟩ <;>
      simp [hrest, Except.map, Except.isOk, Except.toBool]

theorem Editor.converse_cons {fuel : Nat} {c : Command} (rest : Script) {a : Answer}
    (h : (perform fuel c e).result = .ok a) :
    (e.converse fuel (c :: rest)).2 = ((perform fuel c e).last.converse fuel rest).2 := by
  rw [Editor.converse]
  rcases hrun : perform fuel c e with ⟨seen, halted | b, e'⟩
  · rw [hrun] at h
    cases h
  · rfl

/-- The beginning of a session that is carried out to its end is. -/
theorem Editor.Completes.append {fuel : Nat} {pre rest : Script} :
    ∀ {e : Editor}, e.Completes fuel (pre ++ rest) → e.Completes fuel pre ∧
      (e.converse fuel (pre ++ rest)).2 = ((e.converse fuel pre).2.converse fuel rest).2 := by
  induction pre with
  | nil => exact fun _ => ⟨rfl, rfl⟩
  | cons c pre ih =>
      intro e h
      rw [List.cons_append, Editor.completes_cons] at h
      obtain ⟨⟨a, ha⟩, hrest⟩ := h
      obtain ⟨hpre, hlast⟩ := ih hrest
      refine ⟨Editor.completes_cons.mpr ⟨⟨a, ha⟩, hpre⟩, ?_⟩
      rw [List.cons_append, Editor.converse_cons _ ha, Editor.converse_cons _ ha, hlast]

/-- Nothing is ever taken out of the journal. -/
theorem NoneLost.of_converse (hfit : Fit e) (fuel : Nat) (script : Script)
    (h : NoneLost d (e.converse fuel script).2) : NoneLost d e := by
  obtain ⟨evs, hjournal, -⟩ := ((e.converse_runs fuel script).1 hfit).2.2.journal
  intro j hj
  rw [Editor.mem_lostJobs] at hj
  refine h j (Editor.mem_lostJobs.mpr ?_)
  rw [hjournal]
  exact List.mem_append_right _ hj

theorem related_new (policy : Policy) (table : StyleTable) (thread : Bool) :
    Related o d (fun _ _ _ => False) (.new policy table thread) (.new policy table thread) where
  policy := rfl
  baseTable := rfl
  coordinating := rfl
  keeper := rfl
  bound _ _ _ h := h.elim
  unique _ _ _ _ _ h := h.elim
  cancelled _ h := absurd h List.not_mem_nil
  parts _ _ _ h := h.elim
  documents := .none
  surfaceNames _ _ := .none
  tokenNames _ _ := .none
  targetNames _ _ := .none
  jobs := .nil
  deeds := rfl
  apart :=
    { bound := fun _ _ ⟨_, h⟩ => h.elim
      cancelled := fun _ h => absurd h List.not_mem_nil
      documents := fun _ _ _ h => nomatch h
      slots := fun _ _ h => nomatch h
      surfaceNames := fun _ _ _ h => nomatch h
      tokenNames := fun _ _ _ h => nomatch h
      targetNames := fun _ _ _ h => nomatch h
      jobs := fun _ h => absurd h List.not_mem_nil
      surfaces := fun _ _ h => nomatch h
      resolvers := fun _ _ h => nomatch h }

/-- **The two sessions go side by side.**  The induction is on the session with all documents: what
it keeps is that the editors are related. -/
theorem converse_related (fuel fuel' : Nat) {script : Script} :
    ∀ {ρ e f}, Related o d ρ e f → Fit e →
      (∀ c ∈ script, c.isShared = true ∨ ∃ x, c.actsOn o x = true) →
      e.Completes fuel script → NoneLost d (e.converse fuel script).2 →
      f.load + weightOfScript (script.filter (Command.isKept o d)) ≤ fuel' + 1 →
      f.Completes fuel' (script.filter (Command.isKept o d)) ∧
        ∃ ρ', Related o d ρ' (e.converse fuel script).2
          (f.converse fuel' (script.filter (Command.isKept o d))).2 := by
  induction script with
  | nil => exact fun hrel _ _ _ _ _ => ⟨rfl, _, hrel⟩
  | cons c rest ih =>
      intro ρ e f hrel hfit howned hcompletes hlost hload
      rw [List.forall_mem_cons] at howned
      rw [Editor.completes_cons] at hcompletes
      obtain ⟨⟨a, ha⟩, hrest⟩ := hcompletes
      rw [Editor.converse_cons rest ha] at hlost ⊢
      have hfit' : Fit (perform fuel c e).last := ((perform_keeps fuel c e).2.1 hfit).1
      by_cases hkept : c.isKept o d = true
      · -- a command of the document, or on the queue, is carried out in both editors
        rw [List.filter_cons_of_pos hkept] at hload ⊢
        rw [weightOfScript] at hload
        obtain ⟨-, hfueled, hspent⟩ := perform_spends (e := f) fuel' c (by omega)
        have hagree : Agree o d ρ Any (perform fuel c e) (perform fuel' c f) := by
          have hrun := execute_companions (o := o) (d := d) fuel fuel'
          rw [Command.isKept, Bool.or_eq_true] at hkept
          rcases hkept with hshared | hacts
          · exact performWith_shared hrun (fun _ => execute_outsiders fuel) fuel fuel' hshared
              hrel ha (.of_converse hfit' fuel rest hlost)
          · exact performWith_inStep hrun fuel fuel' hacts ρ e f le_rfl hrel
        obtain ⟨ρ', -, hrel', hmatch⟩ := hagree (by simp [ha]) hfueled
        rw [ha] at hmatch
        generalize hb : (perform fuel' c f).result = r at hmatch
        cases hmatch with
        | @ok _ b _ =>
            obtain ⟨hdone, hall⟩ := ih hrel' hfit' howned.2 hrest hlost (by omega)
            rw [Editor.converse_cons _ hb]
            exact ⟨Editor.completes_cons.mpr ⟨⟨b, hb⟩, hdone⟩, hall⟩
      · -- one of another document in the first editor alone
        rw [List.filter_cons_of_neg hkept] at hload ⊢
        rw [Command.isKept, Bool.or_eq_true, not_or] at hkept
        obtain ⟨x, hacts⟩ := howned.1.resolve_left hkept.1
        have hx : x ≠ d := fun heq => hkept.2 (heq ▸ hacts)
        have hforeign : Foreign o d ρ.Has e (perform fuel c e).last :=
          (performWith_foreign (execute_outsiders fuel) fuel hx hacts e).2
        exact ih (hrel.foreign hforeign) hfit' howned.2 hrest hlost hload

/-- **Documents do not interfere, unless a change of one is lost.**  In a session every command
concerns the queue, or acts on one document alone, and so do its scripts; each surface, token and
target belongs to one document.  If the session is carried out to its end, and no panic of a surface
of another document, asked at the turn of a change, broke a rendering off, then at every moment of
it all that can be read of the document and all that happened to it, the ends of its passes and the
changes its surface was given, are the same as in the session without the commands of others. -/
theorem documents_noninterference (o : Ownership) (d : DocumentId) (policy : Policy)
    (table : StyleTable) (thread : Bool) (script : Script) {fuel fuel' : Nat}
    (howned : ∀ c ∈ script, c.isShared = true ∨ ∃ x, c.actsOn o x = true)
    (hcompletes : (Editor.new policy table thread).Completes fuel script)
    (hlost : ∀ j ∈ ((Editor.new policy table thread).converse fuel script).2.lostJobs,
      j.target.doc = d)
    (hfuel : weightOfScript (script.filter (Command.isKept o d)) ≤ fuel') :
    ∀ pre, pre <+: script →
      let whole := (Editor.new policy table thread).converse fuel pre
      let alone := (Editor.new policy table thread).converse fuel' (pre.filter (Command.isKept o d))
      alone.1.isOk = true ∧ alone.2.sight d = whole.2.sight d ∧
        alone.2.deeds d = whole.2.deeds d := by
  rintro pre ⟨rest, rfl⟩
  have hreach := (Editor.Reachable.new policy table thread).converse fuel pre
  obtain ⟨hpre, hlast⟩ := hcompletes.append
  have hnone : NoneLost d ((Editor.new policy table thread).converse fuel pre).2 := by
    refine .of_converse hreach.fit fuel rest ?_
    rw [← hlast]
    exact hlost
  have hweight : weightOfScript (pre.filter (Command.isKept o d)) ≤ fuel' := by
    rw [List.filter_append, weightOfScript_eq_sum, List.map_append, List.sum_append] at hfuel
    rw [weightOfScript_eq_sum]
    omega
  have hload : (Editor.new policy table thread).load = 0 := rfl
  obtain ⟨hdone, ρ, hrel⟩ := converse_related fuel fuel' (related_new policy table thread)
    (fit_new policy table thread) (fun c hc => howned c (List.mem_append_left _ hc)) hpre hnone
    (by omega)
  exact ⟨hdone, hrel.sight, hrel.deeds⟩

/-! ### Two views

What is called "left" belongs to one document and all else to another one.
-/

namespace TwoViews

open OneNumber

def owner (name : String) : DocumentId := if name = "left" then ⟨1⟩ else ⟨2⟩

def ownership : Ownership := ⟨owner, owner, owner⟩

def change : Delta := ⟨[highlight], []⟩

def blank : Editor := .new .default .default false

/-- A pass over each document, on the right one with the view asked for and on the left one with a
token cancelled before, and then a change for each.  The script is what the right surface runs when
it is asked for the change. -/
def commands (atTurn : Script) : Script :=
  [.surface "left" [] [] false, .surface "right" [[.dispose "right"], atTurn] [] false,
    .install ⟨1⟩ "left" (.table []) false [], .install ⟨2⟩ "right" (.table []) false [],
    .token "left" none, .cancel "left",
    .reconcile ⟨2⟩ tree none, .reconcile ⟨1⟩ tree (some "left"),
    .target "left" ⟨1⟩ "left", .target "right" ⟨2⟩ "right",
    .dispatch "right" (.ok change), .dispatch "left" (.ok change), .drain]

/-- The commands without those of the document on the right. -/
def left (atTurn : Script) : Script := (commands atTurn).filter (Command.isKept ownership ⟨1⟩)

theorem left_eq (atTurn : Script) :
    left atTurn =
      [.surface "left" [] [] false, .install ⟨1⟩ "left" (.table []) false [],
        .token "left" none, .cancel "left", .reconcile ⟨1⟩ tree (some "left"),
        .target "left" ⟨1⟩ "left", .dispatch "left" (.ok change), .drain] :=
  rfl

theorem owned_of_all {script : Script} (h : script.all (fun c =>
    c.isShared || c.actsOn ownership ⟨1⟩ || c.actsOn ownership ⟨2⟩) = true) :
    ∀ c ∈ script, c.isShared = true ∨ ∃ x, c.actsOn ownership x = true := by
  intro c hc
  have hone := List.all_eq_true.mp h c hc
  simp only [Bool.or_eq_true] at hone
  rcases hone with (hshared | hleft) | hright
  · exact Or.inl hshared
  · exact Or.inr ⟨⟨1⟩, hleft⟩
  · exact Or.inr ⟨⟨2⟩, hright⟩

end TwoViews

open TwoViews

/-- The right view is gone when its change has its turn. -/
theorem noninterference_twoViews :
    (blank.converse 20 (commands [])).2.sight ⟨1⟩ = ⟨true, some [], some false⟩ ∧
    (blank.converse 20 (commands [])).2.deeds ⟨1⟩ =
      [.applied "left" change, .ended (.cancelled .classified)] ∧
    (blank.converse 20 (left [])).1.isOk = true ∧
    (blank.converse 20 (left [])).2.sight ⟨1⟩ = (blank.converse 20 (commands [])).2.sight ⟨1⟩ ∧
    (blank.converse 20 (left [])).2.deeds ⟨1⟩ = (blank.converse 20 (commands [])).2.deeds ⟨1⟩ := by
  have hrun : blank.Completes 20 (commands []) ∧
      (blank.converse 20 (commands [])).2.lostJobs = [] ∧
      (blank.converse 20 (commands [])).2.sight ⟨1⟩ = ⟨true, some [], some false⟩ ∧
      (blank.converse 20 (commands [])).2.deeds ⟨1⟩ =
        [.applied "left" change, .ended (.cancelled .classified)] := by
    simp only [Editor.Completes, commands, Editor.converse, perform, performWith, reconcileAnswer,
      reconcile, passInside, wantedHighlights, Policy.classifyTree_eq_auction]
    cbv
  obtain ⟨hdone, hlost, hsight, hdeeds⟩ := hrun
  refine ⟨hsight, hdeeds, ?_⟩
  exact documents_noninterference ownership ⟨1⟩ .default .default false (commands [])
    (owned_of_all (by cbv)) hdone (by rw [show Editor.new _ _ _ = blank from rfl, hlost]; simp)
    (by cbv) (commands []) (List.prefix_refl _)

/-- The right surface panics when its change has its turn, and the left one is not given its own. -/
theorem change_behind_panic :
    (∀ c ∈ commands [.panic (.text "view lost")],
      c.isShared = true ∨ ∃ x, c.actsOn ownership x = true) ∧
    (blank.converse 20 (commands [.panic (.text "view lost")])).1.isOk = true ∧
    (blank.converse 20 (commands [.panic (.text "view lost")])).2.deeds ⟨1⟩ =
      [.ended (.cancelled .classified)] ∧
    (blank.converse 20 (left [.panic (.text "view lost")])).2.deeds ⟨1⟩ =
      [.applied "left" change, .ended (.cancelled .classified)] := by
  refine ⟨owned_of_all (by cbv), ?_⟩
  simp only [left_eq, commands, Editor.converse, perform, performWith, reconcileAnswer, reconcile,
    passInside, wantedHighlights, Policy.classifyTree_eq_auction]
  cbv

end Highlighting
