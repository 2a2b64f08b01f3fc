/-
Screens follow the highlights of their documents.

A surface sees changes only, one after the other.  One that carries each of them
out on what it shows, beginning with nothing, never has to take off what it does
not show, and once it has got all there is to get it shows exactly the highlights
of the document.

Each change is made from the list behind the gate to the next such list, and they
are queued in the order in which they are made.  So all changes queued for a slot,
carried out in turn, lead to the list behind its gate.  Those that were delivered
come first among them, and those still on their way are the rest.
-/
import Highlighting.Proofs.Editor.Jobs
import Highlighting.Proofs.Published
import Mathlib

namespace Highlighting

/-! ### Carrying out changes in turn -/

/-- What is shown after some changes, each carried out on what was shown before it. -/
def screen (ds : List Delta) : List Highlight := ds.foldl (fun shown d => d.paint shown) []

theorem screen_concat (ds : List Delta) (d : Delta) : screen (ds ++ [d]) = d.paint (screen ds) := by
  simp [screen]

/-- Each removal of a change, in turn, finds its highlight. -/
def Delta.Finds (d : Delta) (shown : List Highlight) : Prop :=
  ∀ gone h more, d.remove = gone ++ h :: more → h ∈ gone.foldl List.erase shown

theorem Delta.finds_of_subperm {d : Delta} {shown : List Highlight} (h : d.remove.Subperm shown) :
    d.Finds shown := by
  intro gone x more hremove
  rw [← List.diff_eq_foldl, ← List.count_pos_iff, List.count_diff]
  have hcount := h.count_le x
  rw [hremove, List.count_append, List.count_cons_self] at hcount
  omega

/-- Changes that lead to a list, none of which takes off what is not there. -/
structure Replays (ds : List Delta) (value : List Highlight) : Prop where
  shown : screen ds = value
  held : ∀ before d after, ds = before ++ d :: after → d.remove.Subperm (screen before)

theorem replays_nil : Replays [] [] := ⟨rfl, by simp⟩

/-- One more change, made from what is shown. -/
theorem Replays.concat {ds : List Delta} {value : List Highlight} (h : Replays ds value) {d : Delta}
    (hd : d.remove.Subperm value) : Replays (ds ++ [d]) (d.paint value) := by
  constructor
  · rw [screen_concat, h.shown]
  · intro before d' after heq
    rcases List.eq_nil_or_concat after with rfl | ⟨after', last, rfl⟩
    · obtain ⟨rfl, hlast⟩ := List.append_inj_left' heq rfl, List.append_inj_right' heq rfl
      cases hlast
      rw [h.shown]
      exact hd
    · have hinit : ds = before ++ d' :: after' := by
        rw [List.concat_eq_append, ← List.cons_append, ← List.append_assoc] at heq
        exact List.append_inj_left' heq rfl
      exact h.held before d' after' hinit

/-! ### Changes for one target -/

/-- The changes of some jobs that go to a target. -/
def deltasFor (t : Target) (js : List Job) : List Delta := (js.filter (·.target = t)).map (·.delta)

theorem deltasFor_append (t : Target) (js ks : List Job) :
    deltasFor t (js ++ ks) = deltasFor t js ++ deltasFor t ks := by
  simp [deltasFor]

theorem deltasFor_eq_nil {t : Target} {js : List Job} (h : ∀ j ∈ js, j.target ≠ t) :
    deltasFor t js = [] := by
  rw [deltasFor, List.filter_eq_nil_iff.mpr (by simpa using h), List.map_nil]

theorem mem_jobsOf_queued {j : Job} {evs : List Event} (h : j ∈ jobsOf Event.queued? evs) :
    .queued j ∈ evs := by
  obtain ⟨ev, hev, hj⟩ := List.mem_filterMap.mp (List.mem_reverse.mp h)
  cases ev <;> simp_all [Event.queued?]

namespace Editor

/-- All changes ever queued for a target. -/
def changes (e : Editor) (t : Target) : List Delta := deltasFor t (jobsOf Event.queued? e.journal)

theorem changes_of_append {e e' : Editor} {evs : List Event} {t : Target}
    (hj : e'.journal = evs ++ e.journal) (h : ∀ j, .queued j ∈ evs → j.target ≠ t) :
    e'.changes t = e.changes t := by
  rw [changes, changes, hj, jobsOf_append, deltasFor_append,
    deltasFor_eq_nil fun j hjob => h j (mem_jobsOf_queued hjob), List.append_nil]

/-- A pass that succeeds queues its change, if it is one and there is a queue. -/
theorem changes_settle (e : Editor) (id : Nat) (t : Target) (r : Request) (wanted : List Highlight)
    (d : Delta) (next : List Highlight) : (e.settle id t r wanted d next).changes t =
      e.changes t ++ if d.isEmpty || e.queue.isClosed then [] else [d] := by
  rw [changes, journal_settle, jobsOf_append, deltasFor_append]
  refine congrArg (e.changes t ++ ·) ?_
  cases hempty : d.isEmpty <;> cases hclosed : e.queue.isClosed <;>
    simp [settling, sent, hempty, hclosed, deltasFor, jobsOf, Event.queued?, List.filterMap_cons]

end Editor

/-! ### The list behind the gate is what its changes lead to -/

/-- While the queue is there, all changes queued for a slot lead to its highlights. -/
structure Replayed (e : Editor) : Prop where
  /-- Nothing was ever queued for a slot that is yet to come. -/
  known : ∀ j, .queued j ∈ e.journal → j.target.lifetime.own < e.tokens.scopes
  slots : e.queue.keeper ≠ .gone → ∀ (id : Nat) (s : Slot), e.slots[id]? = some s →
    Replays (e.changes s.target) s.gate.value

section Step

variable {e e' : Editor}

theorem Replayed.of_quiet (h : Replayed e) (hquiet : Quiet e e') : Replayed e' := by
  obtain ⟨evs, hj, -, hqueued⟩ := hquiet.journal
  constructor
  · intro j hmem
    rw [hj] at hmem
    rcases List.mem_append.mp hmem with hmem | hmem
    · exact (hqueued j hmem).2
    · exact Nat.lt_of_lt_of_le (h.known j hmem) hquiet.scopes
  · intro hk id s' hs'
    obtain ⟨s, b, hs, rfl⟩ := hquiet.slots id s' hs'
    have hmem : s.target ∈ e.targets := List.mem_map_of_mem (List.mem_of_getElem? hs)
    have hsame : e'.changes s.target = e.changes s.target :=
      Editor.changes_of_append hj fun j hmem' heq => (hqueued j hmem').1 (heq ▸ hmem)
    show Replays (e'.changes s.target) s.gate.value
    rw [hsame]
    exact h.slots (fun hgone => hk (hquiet.gone hgone)) id s hs

theorem Replayed.install (h : Replayed e) (doc : DocumentId) (surface : Nat) (r : Resolver) :
    Replayed (e.install doc surface r) := by
  obtain ⟨evs, hj, htorn⟩ := journal_install e doc surface r
  have hnone : ∀ j, .queued j ∉ evs := by
    intro j hmem
    obtain ⟨t, ht⟩ := htorn _ hmem
    cases ht
  constructor
  · intro j hmem
    rw [hj] at hmem
    rcases List.mem_append.mp hmem with hmem | hmem
    · exact absurd hmem (hnone j)
    · rw [scopes_install]
      exact Nat.lt_succ_of_lt (h.known j hmem)
  · intro hk id s hs
    rw [queue_install] at hk
    rw [Editor.changes_of_append hj fun j hmem => absurd hmem (hnone j)]
    rw [slots_install] at hs
    rcases Nat.lt_or_ge id e.slots.length with hlt | hge
    · rw [List.getElem?_append_left hlt] at hs
      exact h.slots hk id s hs
    · -- the life of the fresh slot is new, so nothing was queued for it
      rw [List.getElem?_append_right hge] at hs
      cases List.mem_singleton.mp (List.mem_of_getElem? hs)
      have hempty : e.changes (Slot.fresh e doc surface).target = [] := by
        refine deltasFor_eq_nil fun j hjob heq => ?_
        have hlt := h.known j (mem_jobsOf_queued hjob)
        rw [heq] at hlt
        exact Nat.lt_irrefl _ hlt
      rw [hempty]
      exact replays_nil

theorem Replayed.settle (h : Replayed e) (hfit : Fit e) (hshown : Shown e) {id : Nat} {s : Slot}
    {r : Request} {wanted : List Highlight} {d : Delta} (hs : e.slots[id]? = some s)
    (hd : d = .between s.gate.value wanted) :
    Replayed (e.settle id s.target r wanted d (d.apply s.gate.value)) := by
  set settled := e.settle id s.target r wanted d (d.apply s.gate.value) with hsettled
  have hj : settled.journal = _ ++ e.journal :=
    Editor.journal_settle e id s.target r wanted d (d.apply s.gate.value)
  have hqueued : ∀ j,
      .queued j ∈ e.settling id s.target r wanted d (d.apply s.gate.value) →
        j = ⟨s.target, d⟩ := by
    intro j hmem
    rcases Editor.mem_settling hmem with ⟨o, heq, -⟩ | heq | heq <;> cases heq
    rfl
  constructor
  · intro j hmem
    rw [hsettled, (sameLives_settle e id _ r wanted d _).scopes]
    rw [hj] at hmem
    rcases List.mem_append.mp hmem with hmem | hmem
    · rw [hqueued j hmem]
      exact hfit.made _ (List.mem_map_of_mem (List.mem_of_getElem? hs))
    · exact h.known j hmem
  · intro hk id' s' hs'
    rw [hsettled, keeper_settle] at hk
    rw [hsettled, Editor.slots_settle, List.getElem?_modify] at hs'
    by_cases hid : id = id'
    · subst hid
      rw [hs] at hs'
      simp only [if_true] at hs'
      cases hs'
      show Replays (settled.changes s.target) (d.apply s.gate.value)
      cases hempty : d.isEmpty with
      | true =>
          rw [hsettled, Editor.changes_settle, hempty, Bool.true_or, if_pos rfl, List.append_nil,
            Delta.apply_of_isEmpty hempty (hshown.slots id s hs).ordered]
          exact h.slots hk id s hs
      | false =>
          have hopen : e.queue.isClosed = false := by simpa [RenderQueue.isClosed] using hk
          rw [hsettled, Editor.changes_settle, hempty, hopen, Delta.apply_eq_paint]
          refine (h.slots hk id s hs).concat ?_
          rw [hd]
          exact (Delta.between_remove_sublist _ _).subperm
    · have hs'' : e.slots[id']? = some s' := by simpa [hid] using hs'
      rw [Editor.changes_of_append hj fun j hmem => by
        rw [hqueued j hmem]
        exact hfit.target_ne hs hs'' hid]
      exact h.slots hk id' s' hs''

theorem Step.replayed (hstep : Step e e') (hfit : Fit e) (hshown : Shown e) (h : Replayed e) :
    Replayed e' := by
  rcases hstep.quiet_or hfit with hquiet | ⟨doc, surface, r, rfl⟩ |
    ⟨id, s, r, wanted, d, hs, -, hd, rfl⟩
  · exact h.of_quiet hquiet
  · exact h.install doc surface r
  · exact h.settle hfit hshown hs hd

end Step

theorem replayed_new (policy : Policy) (table : StyleTable) (thread : Bool) :
    Replayed (.new policy table thread) where
  known := by simp [Editor.new]
  slots := by simp [Editor.new]

theorem Editor.Reachable.replayed {e : Editor} (h : e.Reachable) : Replayed e :=
  (h.invariant (I := fun e => Shown e ∧ Replayed e)
    (fun policy table thread => ⟨shown_new policy table thread, replayed_new policy table thread⟩)
    fun _ _ hfit hI hstep => ⟨hstep.shown hfit hI.1, hstep.replayed hfit hI.1 hI.2⟩).2.2

theorem Editor.Reachable.accounted {e : Editor} (h : e.Reachable) : Accounted e :=
  (h.invariant accounted_new fun _ _ _ hI hstep => hstep.accounted hI).2

/-! ### What was delivered, and what is on its way -/

namespace Editor

/-- The changes for a target that were handed over, earliest first. -/
def delivered (e : Editor) (t : Target) : List Delta :=
  deltasFor t (jobsOf Event.applied? e.journal)

/-- The changes for a target that are on their way: the one whose turn it is, if it is for this
target, and those in the queue. -/
def pending (e : Editor) (t : Target) : List Delta :=
  deltasFor t ((turnOf e.journal).toList ++ e.queue.jobs)

/-- Every job for a target that had its turn found the target there. -/
def FoundLive (e : Editor) (t : Target) : Prop :=
  ∀ j : Job, j.target = t → .discarded j ∉ e.journal ∧ .lost j ∉ e.journal

end Editor

/-- If nothing for a target was discarded or lost, what was dealt with was handed over. -/
theorem deltasFor_dealt {t : Target} {evs : List Event}
    (h : ∀ j : Job, j.target = t → .discarded j ∉ evs ∧ .lost j ∉ evs) :
    deltasFor t (jobsOf Event.dealt? evs) = deltasFor t (jobsOf Event.applied? evs) := by
  induction evs with
  | nil => rfl
  | cons ev past ih =>
      have hpast : ∀ j : Job, j.target = t → .discarded j ∉ past ∧ .lost j ∉ past := fun j hj =>
        ⟨fun hmem => (h j hj).1 (List.mem_cons_of_mem _ hmem),
          fun hmem => (h j hj).2 (List.mem_cons_of_mem _ hmem)⟩
      rw [jobsOf_cons, jobsOf_cons, deltasFor_append, deltasFor_append, ih hpast]
      congr 1
      cases ev with
      | discarded j =>
          refine deltasFor_eq_nil fun j' hj' heq => ?_
          cases List.mem_singleton.mp hj'
          exact (h j heq).1 List.mem_cons_self
      | lost j =>
          refine deltasFor_eq_nil fun j' hj' heq => ?_
          cases List.mem_singleton.mp hj'
          exact (h j heq).2 List.mem_cons_self
      | _ => rfl

theorem Accounted.changes_eq {e : Editor} (h : Accounted e) (hk : e.queue.keeper ≠ .gone)
    {t : Target} (hlive : e.FoundLive t) : e.changes t = e.delivered t ++ e.pending t := by
  rw [Editor.changes, h.queued hk, h.taken, List.append_assoc, deltasFor_append,
    deltasFor_dealt hlive]
  rfl

/-- **Screens follow the highlights.**  As long as the queue is there and no job for a slot found
the target gone, no change delivered for the slot takes off what the screen does not show, and the
screen, once it has got the changes still on their way, shows exactly the highlights everybody
reads.  Right after the queue was drained it shows them already. -/
theorem screen_eq_published {e : Editor} (he : e.Reachable) {doc : DocumentId} {id : Nat} {s : Slot}
    (hslot : e.slot? doc = some (id, s)) (hkeeper : e.queue.keeper ≠ .gone)
    (hlive : e.FoundLive s.target) :
    (∀ (before : List Delta) (d : Delta) (after : List Delta),
      e.delivered s.target = before ++ d :: after → d.Finds (screen before)) ∧
    e.published? doc = some ((e.pending s.target).foldl (fun shown d => d.paint shown)
      (screen (e.delivered s.target))) ∧
    ∀ (e₀ : Editor) (fuel : Nat) (report : RenderReport), e₀.Reachable →
      (perform fuel .drain e₀).result = .ok (.rendered report) → e = (perform fuel .drain e₀).last →
        e.published? doc = some (screen (e.delivered s.target)) := by
  have hs := (Editor.slot?_eq_some.mp hslot).2
  have hreplays : Replays (e.delivered s.target ++ e.pending s.target) s.gate.value := by
    rw [← he.accounted.changes_eq hkeeper hlive]
    exact he.replayed.slots hkeeper id s hs
  have hpublished :
      e.published? doc = some (screen (e.delivered s.target ++ e.pending s.target)) := by
    rw [hreplays.shown, Editor.published?, hslot, Option.map_some,
      (he.shown.slots id s hs).snapshot]
  refine ⟨fun before d after hbefore => ?_, ?_, fun e₀ fuel report he₀ hresult hlast => ?_⟩
  · refine Delta.finds_of_subperm (hreplays.held before d (after ++ e.pending s.target) ?_)
    rw [hbefore, List.append_assoc, List.cons_append]
  · rw [hpublished, screen, List.foldl_append]
    rfl
  · have hrendered : Rendered e₀ (perform fuel .drain e₀).result (perform fuel .drain e₀).last :=
      (drainQueue_spec (execute_commanding fuel) he₀.fit fuel).2.2
    obtain ⟨hjobs, hturn, -⟩ := hrendered report hresult
    have hpending : e.pending s.target = [] := by
      rw [hlast, Editor.pending, hjobs, hturn]
      rfl
    rw [hpublished, hpending, List.append_nil]

open OneNumber

/-! ### A number that becomes a pattern

The digits of the one number are put between slashes, and the view is told of it; then they are
deleted, and of that it is still to be told.
-/

namespace OneNumber

def slashed : SyntaxTree := { root := .leaf { kind := .literal .regex, span := some ⟨0, 4⟩ } }

def deleted : SyntaxTree := { root := .leaf { kind := .unit, span := some ⟨0, 0⟩ } }

def pattern : Highlight := ⟨⟨0, 4, .regexp, by decide⟩, StyleTable.default.style .regexp⟩

/-- The slot with these highlights. -/
def slotWith (hs : List Highlight) : Slot := { slot with gate := ⟨hs, false⟩, snapshot := hs }

/-- The document after a pass over a tree. -/
def repassed (e : Editor) (t : SyntaxTree) : Editor :=
  (perform 1 (.reconcile ⟨1⟩ t (some "token")) e).last

/-- Both the number and the pattern rendered. -/
def drained : Course Editor Halt Answer :=
  perform 1 .drain (repassed (perform 1 .drain (repassed (installed []) tree)).last slashed)

def waiting : Editor := repassed drained.last deleted

theorem reachable_drained : drained.last.Reachable :=
  ((((reachable_installed []).last 1 _).last 1 _).last 1 _).last 1 _

theorem drained_eq :
    drained.result = .ok (.rendered { applied := 1 }) ∧
    drained.last.slot? ⟨1⟩ = some (0, slotWith [pattern]) ∧
    drained.last.queue.keeper = .idle ∧
    drained.last.delivered slot.target = [⟨[highlight], []⟩, ⟨[pattern], [highlight]⟩] ∧
    drained.last.journal.all (fun ev => decide (ev.dealt? = ev.applied?)) = true := by
  simp only [drained, repassed, perform, performWith, reconcileAnswer, reconcile, passInside,
    wantedHighlights, Policy.classifyTree_eq_auction, Editor.recordPass]
  generalize Metrics.record = record
  refine ⟨?_, ?_, ?_, ?_, ?_⟩ <;> cbv

theorem waiting_eq :
    waiting.slot? ⟨1⟩ = some (0, slotWith []) ∧
    waiting.queue.keeper = .idle ∧
    waiting.delivered slot.target = [⟨[highlight], []⟩, ⟨[pattern], [highlight]⟩] ∧
    waiting.pending slot.target = [⟨[], [pattern]⟩] ∧
    waiting.journal.all (fun ev => decide (ev.dealt? = ev.applied?)) = true := by
  simp only [waiting, drained, repassed, perform, performWith, reconcileAnswer, reconcile,
    passInside, wantedHighlights, Policy.classifyTree_eq_auction, Editor.recordPass]
  generalize Metrics.record = record
  refine ⟨?_, ?_, ?_, ?_, ?_⟩ <;> cbv

theorem foundLive_of_all {e : Editor}
    (h : e.journal.all (fun ev => decide (ev.dealt? = ev.applied?)) = true) (t : Target) :
    e.FoundLive t := by
  have hdealt : ∀ ev ∈ e.journal, ev.dealt? = ev.applied? := by simpa using h
  intro j _
  constructor
  · intro hmem
    cases hdealt _ hmem
  · intro hmem
    cases hdealt _ hmem

end OneNumber

/-- The view shows the pattern, and once it is told of the last change it will show nothing. -/
theorem screen_oneNumber :
    drained.last.delivered slot.target = [⟨[highlight], []⟩, ⟨[pattern], [highlight]⟩] ∧
    drained.last.published? ⟨1⟩ = some (screen (drained.last.delivered slot.target)) ∧
    waiting.slot? ⟨1⟩ = some (0, slotWith []) ∧ waiting.queue.keeper ≠ .gone ∧
    waiting.FoundLive slot.target ∧
    waiting.delivered slot.target = drained.last.delivered slot.target ∧
    waiting.pending slot.target = [⟨[], [pattern]⟩] ∧
    Delta.Finds ⟨[pattern], [highlight]⟩ (screen [⟨[highlight], []⟩]) ∧
    waiting.published? ⟨1⟩ =
      some (Delta.paint ⟨[], [pattern]⟩ (screen (waiting.delivered slot.target))) := by
  obtain ⟨hresult, hslot, hkeeper, hdelivered, hdealt⟩ := drained_eq
  obtain ⟨hslot', hkeeper', hdelivered', hpending, hdealt'⟩ := waiting_eq
  have hthere : drained.last.queue.keeper ≠ .gone := by
    rw [hkeeper]
    simp
  have hthere' : waiting.queue.keeper ≠ .gone := by
    rw [hkeeper']
    simp
  have hlive' := foundLive_of_all hdealt' slot.target
  have hpublished := (screen_eq_published reachable_drained hslot hthere
    (foundLive_of_all hdealt slot.target)).2.2 _ 1 _
    ((((reachable_installed []).last 1 _).last 1 _).last 1 _) hresult rfl
  obtain ⟨hfinds, hpublished', -⟩ :=
    screen_eq_published (reachable_drained.last 1 _) hslot' hthere' hlive'
  change ∀ before d after, waiting.delivered slot.target = before ++ d :: after →
    d.Finds (screen before) at hfinds
  change waiting.published? ⟨1⟩ = some ((waiting.pending slot.target).foldl _
    (screen (waiting.delivered slot.target))) at hpublished'
  rw [hpending] at hpublished'
  exact ⟨hdelivered, hpublished, hslot', hthere', hlive', hdelivered'.trans hdelivered.symm,
    hpending, hfinds [⟨[highlight], []⟩] _ [] hdelivered', hpublished'⟩

end Highlighting
