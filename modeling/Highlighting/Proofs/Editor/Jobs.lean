/-
What becomes of jobs.

The journal tells of every job when it was queued, when its turn came, and how the
turn ended.  As long as the queue is there nothing gets lost in between and nothing
overtakes: the jobs that were queued are those that had their turn, then the one
whose turn it is, then those that wait, in the order in which they were queued.

`Flows` says so from one moment to a later one, whatever was in the queue at first.
Every step keeps to it, so all that commands do does, and for an editor that began
with an empty queue it is the invariant `Accounted`.
-/
import Highlighting.Proofs.Editor.Settle

namespace Highlighting

namespace Event

/-- The job that was queued, if an event tells of that. -/
def queued? : Event → Option Job
  | queued j => some j
  | _ => none

/-- The job whose turn began with an event. -/
def taken? : Event → Option Job
  | taken j => some j
  | _ => none

/-- The job whose turn ended with an event. -/
def dealt? : Event → Option Job
  | applied _ j | discarded j | lost j => some j
  | _ => none

/-- The job that was handed to its surface, if an event tells of that. -/
def applied? : Event → Option Job
  | applied _ j => some j
  | _ => none

/-- Whether an event tells of no job. -/
def IsCalm (ev : Event) : Prop := ev.queued? = none ∧ ev.isTurn = false

theorem IsCalm.taken? {ev : Event} (h : ev.IsCalm) : ev.taken? = none := by
  obtain ⟨-, h⟩ := h
  cases ev <;> simp_all [isTurn, Event.taken?]

theorem IsCalm.dealt? {ev : Event} (h : ev.IsCalm) : ev.dealt? = none := by
  obtain ⟨-, h⟩ := h
  cases ev <;> simp_all [isTurn, Event.dealt?]

theorem isCalm_of_isIdle {ev : Event} (h : ev.isIdle = true) : ev.IsCalm := by
  refine ⟨?_, not_isTurn_of_isIdle h⟩
  cases ev <;> simp_all [isIdle, queued?]

end Event

/-- The jobs some events tell of, earliest first; the events are latest first. -/
def jobsOf (f : Event → Option Job) (evs : List Event) : List Job := (evs.filterMap f).reverse

theorem jobsOf_append (f : Event → Option Job) (evs past : List Event) :
    jobsOf f (evs ++ past) = jobsOf f past ++ jobsOf f evs := by
  simp [jobsOf]

theorem jobsOf_cons (f : Event → Option Job) (ev : Event) (past : List Event) :
    jobsOf f (ev :: past) = jobsOf f past ++ (f ev).toList := by
  cases h : f ev <;> simp [jobsOf, h]

theorem jobsOf_eq_nil {f : Event → Option Job} {evs : List Event} (h : ∀ ev ∈ evs, f ev = none) :
    jobsOf f evs = [] := by
  rw [jobsOf, List.filterMap_eq_nil_iff.mpr h, List.reverse_nil]

/-- Every job is accounted for. -/
structure Accounted (e : Editor) : Prop where
  queued : e.queue.keeper ≠ .gone →
    jobsOf Event.queued? e.journal = jobsOf Event.taken? e.journal ++ e.queue.jobs
  taken : jobsOf Event.taken? e.journal =
    jobsOf Event.dealt? e.journal ++ (turnOf e.journal).toList

theorem accounted_new (policy : Policy) (table : StyleTable) (thread : Bool) :
    Accounted (.new policy table thread) := ⟨fun _ => rfl, rfl⟩

/-! ### From one moment to a later one -/

/-- What became of jobs meanwhile: those that waited and those that were queued since had their turn
or wait, in this order, and every turn that came is over or still goes on. -/
def Flows (e e' : Editor) : Prop :=
  ∃ evs, e'.journal = evs ++ e.journal ∧
    (e'.queue.keeper ≠ .gone → e.queue.keeper ≠ .gone ∧
      e.queue.jobs ++ jobsOf Event.queued? evs = jobsOf Event.taken? evs ++ e'.queue.jobs) ∧
    (turnOf e.journal).toList ++ jobsOf Event.taken? evs =
      jobsOf Event.dealt? evs ++ (turnOf e'.journal).toList

section Flow

variable {e e' e'' : Editor}

theorem Flows.trans (h : Flows e e') (h' : Flows e' e'') : Flows e e'' := by
  obtain ⟨evs, hj, hqueue, hturn⟩ := h
  obtain ⟨evs', hj', hqueue', hturn'⟩ := h'
  refine ⟨evs' ++ evs, by rw [hj', hj, List.append_assoc], fun hk => ?_, ?_⟩
  · obtain ⟨hk', hjobs'⟩ := hqueue' hk
    obtain ⟨hk, hjobs⟩ := hqueue hk'
    refine ⟨hk, ?_⟩
    rw [jobsOf_append, jobsOf_append, ← List.append_assoc, hjobs, List.append_assoc, hjobs',
      List.append_assoc]
  · rw [jobsOf_append, jobsOf_append, ← List.append_assoc, hturn, List.append_assoc, hturn',
      List.append_assoc]

/-- An editor stays accounted for. -/
theorem Flows.accounted (h : Flows e e') (he : Accounted e) : Accounted e' := by
  obtain ⟨evs, hj, hqueue, hturn⟩ := h
  constructor
  · intro hk
    obtain ⟨hk, hjobs⟩ := hqueue hk
    rw [hj, jobsOf_append, jobsOf_append, he.queued hk, List.append_assoc, hjobs, List.append_assoc]
  · have hj' := congrArg turnOf hj
    rw [hj, jobsOf_append, jobsOf_append, he.taken, List.append_assoc, hturn, List.append_assoc,
      hj']

/-! ### One step -/

theorem flows_of_calm (evs : List Event) (hj : e'.journal = evs ++ e.journal)
    (hcalm : ∀ ev ∈ evs, ev.IsCalm)
    (hqueue : e'.queue.keeper ≠ .gone → e.queue.keeper ≠ .gone ∧ e'.queue.jobs = e.queue.jobs) :
    Flows e e' := by
  have hqueued := jobsOf_eq_nil fun ev hev => (hcalm ev hev).1
  have htaken := jobsOf_eq_nil fun ev hev => (hcalm ev hev).taken?
  have hdealt := jobsOf_eq_nil fun ev hev => (hcalm ev hev).dealt?
  refine ⟨evs, hj, fun hk => ?_, ?_⟩
  · obtain ⟨hk, hjobs⟩ := hqueue hk
    rw [hqueued, htaken, List.append_nil, hjobs]
    exact ⟨hk, rfl⟩
  · rw [hj, htaken, hdealt, turnOf_append fun ev hev => (hcalm ev hev).2, List.append_nil]
    rfl

/-- The queue is as it was, and what there is to tell is of no job. -/
theorem flows_tell (event : Event) (hqueued : event.queued? = none) (hturn : event.isTurn = false)
    (hj : e'.journal = event :: e.journal) (hqueue : e'.queue = e.queue) : Flows e e' :=
  flows_of_calm [event] hj (by simpa using ⟨hqueued, hturn⟩)
    fun hk => by rw [hqueue] at hk ⊢; exact ⟨hk, rfl⟩

theorem flows_same (hj : e'.journal = e.journal) (hqueue : e'.queue = e.queue) : Flows e e' :=
  flows_of_calm [] hj (by simp) fun hk => by rw [hqueue] at hk ⊢; exact ⟨hk, rfl⟩

/-- A job is put at the end of the queue. -/
theorem flows_push (e : Editor) (j : Job) :
    Flows e ({ e with queue := e.queue.push j }.log (.queued j)) := by
  refine ⟨[.queued j], rfl, fun hk => ⟨hk, ?_⟩, ?_⟩
  · simp [jobsOf, Event.queued?, Event.taken?, RenderQueue.push]
  · rw [Editor.journal_log, turnOf_cons rfl]
    exact List.append_nil _

theorem flows_dispatch (e : Editor) (j : Job) : Flows e (e.dispatch j) := by
  unfold Editor.dispatch
  split
  · exact flows_same rfl rfl
  · exact flows_push e j

theorem flows_settle (e : Editor) (id : Nat) (t : Target) (r : Request) (wanted : List Highlight)
    (d : Delta) (next : List Highlight) : Flows e (e.settle id t r wanted d next) := by
  have hreplaced : Flows e ((e.modifySlot id fun s =>
      { s with gate := s.gate.set next, snapshot := next }).log (.settled id wanted)) :=
    flows_tell (.settled id wanted) rfl rfl rfl rfl
  have hpublished : Flows e (e.publish id t wanted d next).2 := by
    unfold Editor.publish
    split
    · exact hreplaced
    · exact hreplaced.trans (flows_dispatch _ _)
  exact hpublished.trans
    (flows_tell (.ended (some id) r (e.publish id t wanted d next).1) rfl rfl rfl rfl)

theorem flows_tearDown (e : Editor) (id : Nat) : Flows e (e.tearDown id) := by
  unfold Editor.tearDown
  split
  · exact flows_tell (.tornDown _) rfl rfl rfl rfl
  · exact flows_same rfl rfl

theorem flows_install (e : Editor) (doc : DocumentId) (surface : Nat) (r : Resolver) :
    Flows e (e.install doc surface r) := by
  have hadded : Flows e (e.addSlot doc surface r) := flows_same rfl rfl
  unfold Editor.install
  split
  · exact hadded.trans (flows_tearDown _ _)
  · exact hadded

theorem flows_uninstall (e : Editor) (doc : DocumentId) : Flows e (e.uninstall doc).2 := by
  unfold Editor.uninstall
  split
  · have hforgotten : Flows e { e with documents := e.documents.erase doc } := flows_same rfl rfl
    exact hforgotten.trans (flows_tearDown _ _)
  · exact flows_same rfl rfl

/-- The turn of the first job in the queue begins. -/
theorem flows_take {j : Job} {rest : List Job} (hq : e.queue.jobs = j :: rest)
    (hturn : turnOf e.journal = none) : Flows e (e.take j rest) := by
  refine ⟨[.taken j], rfl, fun hk => ⟨hk, ?_⟩, ?_⟩
  · rw [hq]
    simp [jobsOf, Event.queued?, Event.taken?, Editor.take]
  · rw [hturn]
    simp [jobsOf, Event.taken?, Event.dealt?, Editor.take, turnOf]

/-- The turn of a job ends. -/
theorem flows_deal {j : Job} {ending : Event} (hturn : turnOf e.journal = some j)
    (hdealt : ending.dealt? = some j) : Flows e (e.log ending) := by
  have hqueued : ending.queued? = none := by cases ending <;> simp_all [Event.dealt?, Event.queued?]
  have htaken : ending.taken? = none := by cases ending <;> simp_all [Event.dealt?, Event.taken?]
  have hover : turnOf (ending :: e.journal) = none := by
    cases ending <;> simp_all [Event.dealt?, turnOf]
  refine ⟨[ending], rfl, fun hk => ⟨hk, ?_⟩, ?_⟩
  · simp [jobsOf, hqueued, htaken]
  · rw [Editor.journal_log, hover, hturn]
    simp [jobsOf, hdealt, htaken]

theorem turnOf_of_handedOver {surface : String} {j : Job} {past : List Event}
    (h : HandedOver surface j past) : turnOf past = some j := by
  obtain ⟨query, before, rfl, hquery, -, -⟩ := h
  rw [turnOf_append hquery, turnOf]

theorem Step.flows (hstep : Step e e') : Flows e e' := by
  have hleft : ∀ id, Flows e (e.leaveGate id) := fun id => flows_same rfl rfl
  cases hstep with
  | outside ho =>
      obtain ⟨evs, hj, hidle⟩ := ho.journal
      exact flows_of_calm evs hj (fun ev hev => Event.isCalm_of_isIdle (hidle ev hev))
        fun hk => by rw [ho.queue] at hk ⊢; exact ⟨hk, rfl⟩
  | install doc surface r => exact flows_install e doc surface r
  | uninstall doc => exact flows_uninstall e doc
  | @enter id => exact flows_tell (.entered id) rfl rfl rfl rfl
  | @refuse slot r o => exact flows_tell (.ended slot r o) rfl rfl rfl rfl
  | settle => exact flows_settle e _ _ _ _ _ _
  | @abort id r o => exact (hleft id).trans (flows_tell (.ended (some id) r o) rfl rfl rfl rfl)
  | unwind id r => exact (hleft id).trans (flows_tell (.unwound id r) rfl rfl rfl rfl)
  | leave id => exact hleft id
  | send => exact flows_dispatch e _
  | take _ hq hturn => exact flows_take hq hturn
  | skip _ hq hturn => exact (flows_take hq hturn).trans (flows_deal rfl rfl)
  | hand hover => exact flows_deal (turnOf_of_handedOver hover) rfl
  | discard hturn => exact flows_deal hturn rfl
  | lose hturn => exact flows_deal hturn rfl
  | keep hfrom => exact flows_of_calm [] rfl (by simp) fun _ => ⟨hfrom, rfl⟩
  | dropQueue => exact flows_of_calm [] rfl (by simp) fun hk => absurd rfl hk

theorem Step.accounted (hstep : Step e e') (h : Accounted e) : Accounted e' :=
  hstep.flows.accounted h

/-! ### Many steps -/

theorem Steps.flows (h : Steps e e') : Flows e e' := by
  induction h with
  | refl => exact flows_same rfl rfl
  | tail _ hstep ih => exact ih.trans hstep.flows

end Flow

end Highlighting
