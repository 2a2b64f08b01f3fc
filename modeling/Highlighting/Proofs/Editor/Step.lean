/-
What can happen to an editor from one look at it to the next.

Commands run inside commands to any depth, and what the surroundings get to see is
a state in the middle of several of them.  Between two such moments little can
happen, and `Step` lists it.  All that commands do is made of steps, so what is
true of a new editor and kept by every step is true whenever somebody looks.

A step says what changes, under conditions on the state alone; it does not say
whose doing it is.  A pass that has called the surroundings in the meantime needs
to know more, namely that nobody touched the slot whose gate it is in.  That is
`Grows`; what a turn of the queue relies on is `Still`.
-/
import Highlighting.Editor.Session
import Highlighting.Proofs.Classification
import Highlighting.Proofs.Course
import Mathlib

namespace Highlighting

/-! ### Reading the journal -/

namespace Event

/-- Whether an event tells of no slot and of no job. -/
def isIdle : Event → Bool
  | asked .. | resolved .. | answered .. | reported .. => true
  | _ => false

/-- Whether the turn of a job begins or ends with an event. -/
def isTurn : Event → Bool
  | taken _ | applied .. | discarded _ | lost _ => true
  | _ => false

theorem not_isTurn_of_isIdle {ev : Event} (h : ev.isIdle = true) : ev.isTurn = false := by
  cases ev <;> simp_all [isIdle, isTurn]

end Event

/-- The job whose turn it is: it was taken, and no event tells what became of it. -/
def turnOf : List Event → Option Job
  | [] => none
  | .taken j :: _ => some j
  | .applied .. :: _ | .discarded _ :: _ | .lost _ :: _ => none
  | _ :: past => turnOf past

theorem turnOf_cons {ev : Event} (h : ev.isTurn = false) (past : List Event) :
    turnOf (ev :: past) = turnOf past := by
  cases ev <;> simp_all [turnOf, Event.isTurn]

theorem turnOf_append {evs : List Event} (h : ∀ ev ∈ evs, ev.isTurn = false) (past : List Event) :
    turnOf (evs ++ past) = turnOf past := by
  induction evs with
  | nil => rfl
  | cons ev evs ih =>
      rw [List.cons_append, turnOf_cons (h ev List.mem_cons_self)]
      exact ih fun ev' h' => h ev' (List.mem_cons_of_mem _ h')

/-- A slot with a pass in its gate. -/
def Slot.entered (s : Slot) : Slot := { s with gate := { s.gate with busy := true } }

namespace Editor

/-- The targets of all slots there ever were. -/
def targets (e : Editor) : List Target := e.slots.map (·.target)

/-- The tables of a resolver, from call to call. -/
def tablesOf (e : Editor) (resolver : Nat) : Nat → StyleTable :=
  (e.resolvers.map (·.tables)).getD resolver fun _ => ⟨fun _ => .plain⟩

/-- How many times a resolver was called. -/
def callsOf (e : Editor) (resolver : Nat) : Nat := (e.resolvers.map (·.calls)).getD resolver 0

theorem tablesOf_eq {e : Editor} {resolver : Nat} {r : Resolver}
    (h : e.resolvers[resolver]? = some r) : e.tablesOf resolver = r.tables := by
  rw [tablesOf, List.getD_eq_getElem?_getD, List.getElem?_map, h]
  rfl

theorem callsOf_eq {e : Editor} {resolver : Nat} {r : Resolver}
    (h : e.resolvers[resolver]? = some r) : e.callsOf resolver = r.calls := by
  rw [callsOf, List.getD_eq_getElem?_getD, List.getElem?_map, h]
  rfl

/-- What a tree should have, by the answers a resolver gave from its call `n` on. -/
def Finds (e : Editor) (resolver n : Nat) (tree : SyntaxTree) (wanted : List Highlight) : Prop :=
  Styled (e.tablesOf resolver) n (e.callsOf resolver) (e.policy.classifyTree tree).marks wanted

theorem Finds.ordered {e : Editor} {resolver n : Nat} {tree : SyntaxTree} {wanted : List Highlight}
    (h : e.Finds resolver n tree wanted) : Ordered wanted :=
  Styled.ordered h (e.policy.classifyTree_ordered tree)

/-- A scope of a token or a target that goes by a name. -/
def Named (e : Editor) (n : Nat) : Prop :=
  (∃ name t, e.tokenNames.get? name = some t ∧ n ∈ t.lineage.scopes) ∨
    ∃ name t, e.targetNames.get? name = some t ∧ n = t.lifetime.own

/-- The end of a pass that succeeds: the highlights are replaced, the change is sent off, and the
gate is free again. -/
def settle (e : Editor) (id : Nat) (t : Target) (r : Request) (wanted : List Highlight) (d : Delta)
    (next : List Highlight) : Editor :=
  let ended := e.publish id t wanted d next
  ((ended.2.worked r.token unitsPublish).leaveGate id).recordPass (some id) r ended.1

/-- What is told of a change that is sent off; without a receiver, nothing. -/
def sent (e : Editor) (j : Job) : List Event := if e.queue.isClosed then [] else [.queued j]

theorem journal_dispatch (e : Editor) (j : Job) :
    (e.dispatch j).journal = e.sent j ++ e.journal := by
  unfold dispatch sent
  split <;> rfl

theorem mem_sent {e : Editor} {ev : Event} {j : Job} (h : ev ∈ e.sent j) : ev = .queued j := by
  unfold sent at h
  split at h
  · simp at h
  · simpa using h

theorem queue_dispatch (e : Editor) (j : Job) :
    (e.dispatch j).queue = if e.queue.isClosed then e.queue else e.queue.push j := by
  unfold dispatch
  split <;> rfl

theorem slots_dispatch (e : Editor) (j : Job) : (e.dispatch j).slots = e.slots := by
  unfold dispatch
  split <;> rfl

theorem policy_dispatch (e : Editor) (j : Job) : (e.dispatch j).policy = e.policy := by
  unfold dispatch
  split <;> rfl

section Settle

variable (e : Editor) (id : Nat) (t : Target) (r : Request) (wanted : List Highlight) (d : Delta)
  (next : List Highlight)

theorem publish_isSuccess : (e.publish id t wanted d next).1.isSuccess = true := by
  unfold publish
  split <;> rfl

theorem policy_settle : (e.settle id t r wanted d next).policy = e.policy := by
  show (e.publish id t wanted d next).2.policy = _
  unfold publish
  split
  · rfl
  · exact policy_dispatch _ _

theorem slots_settle : (e.settle id t r wanted d next).slots =
    e.slots.modify id fun s => { s with gate := ⟨next, false⟩, snapshot := next } := by
  have hpub : (e.publish id t wanted d next).2.slots =
      e.slots.modify id fun s => { s with gate := s.gate.set next, snapshot := next } := by
    unfold publish
    split
    · rfl
    · exact slots_dispatch _ _
  show (e.publish id t wanted d next).2.slots.modify id (fun s => { s with gate := s.gate.leave }) =
    _
  rw [hpub, List.modify_modify_eq]
  rfl

/-- What is told of the end of a pass that succeeds. -/
def settling : List Event :=
  .ended (some id) r (e.publish id t wanted d next).1 ::
    ((if d.isEmpty then [] else e.sent ⟨t, d⟩) ++ [.settled id wanted])

theorem journal_settle : (e.settle id t r wanted d next).journal =
    e.settling id t r wanted d next ++ e.journal := by
  show _ :: (e.publish id t wanted d next).2.journal = _
  rw [settling, List.cons_append, List.append_assoc]
  congr 1
  unfold publish
  split
  · rfl
  · exact journal_dispatch _ _

variable {e id t r wanted d next} in
theorem mem_settling {ev : Event} (h : ev ∈ e.settling id t r wanted d next) :
    (∃ o, ev = .ended (some id) r o ∧ o.isSuccess = true) ∨ ev = .queued ⟨t, d⟩ ∨
      ev = .settled id wanted := by
  rcases List.mem_cons.mp h with rfl | h
  · exact Or.inl ⟨_, rfl, publish_isSuccess e id t wanted d next⟩
  · rcases List.mem_append.mp h with h | h
    · split at h
      · exact absurd h List.not_mem_nil
      · exact Or.inr (Or.inl (mem_sent h))
    · exact Or.inr (Or.inr (List.mem_singleton.mp h))

variable {e id t r wanted d next} in
theorem not_isTurn_of_mem_settling {ev : Event} (h : ev ∈ e.settling id t r wanted d next) :
    ev.isTurn = false := by
  rcases mem_settling h with ⟨o, rfl, -⟩ | rfl | rfl <;> rfl

theorem queue_settle : (e.settle id t r wanted d next).queue =
    if d.isEmpty || e.queue.isClosed then e.queue else e.queue.push ⟨t, d⟩ := by
  show (e.publish id t wanted d next).2.queue = _
  unfold publish
  split
  · rename_i hd
    rw [hd]
    rfl
  · rename_i hd
    rw [Bool.not_eq_true] at hd
    rw [hd, Bool.false_or]
    exact queue_dispatch _ _

end Settle

end Editor

/-! ### The steps -/

/-- Something that concerns no slot and no job. -/
structure Outside (e e' : Editor) : Prop where
  policy : e'.policy = e.policy := by rfl
  slots : e'.slots = e.slots := by rfl
  documents : e'.documents = e.documents := by rfl
  queue : e'.queue = e.queue := by rfl
  /-- Resolvers may be called; they keep their tables. -/
  tables : e'.resolvers.map (·.tables) = e.resolvers.map (·.tables) := by rfl
  calls : ∀ resolver, e.callsOf resolver ≤ e'.callsOf resolver := by exact fun _ => Nat.le_refl _
  /-- Surfaces may be declared; those there are keep their names. -/
  surfaces : e.surfaces.map (·.name) <+: e'.surfaces.map (·.name) := by exact List.prefix_refl _
  scopes : e.tokens.scopes ≤ e'.tokens.scopes := by exact Nat.le_refl _
  /-- A name is given to something new, or to a part of what has one. -/
  named : ∀ n, e'.Named n → e.Named n ∨ e.tokens.scopes ≤ n ∧ n < e'.tokens.scopes := by
    exact fun _ h => Or.inl h
  stays : ∀ n ∈ e.tokens.cancelled, n ∈ e'.tokens.cancelled := by exact fun _ h => h
  /-- Only what has a name is cancelled. -/
  cancelled : ∀ n ∈ e'.tokens.cancelled, n ∈ e.tokens.cancelled ∨ e.Named n := by
    exact fun _ h => Or.inl h
  journal : ∃ evs, e'.journal = evs ++ e.journal ∧ ∀ ev ∈ evs, ev.isIdle = true := by
    exact ⟨[], rfl, by simp⟩

/-- The past of a job handed to a surface: its turn came while its target was still there, nothing
else had a turn meanwhile, and all that happened did so after the surface was asked. -/
def HandedOver (surface : String) (j : Job) (past : List Event) : Prop :=
  ∃ query before, past = query ++ .taken j :: before ∧ (∀ ev ∈ query, ev.isTurn = false) ∧
    .tornDown j.target ∉ before ∧
    (query = [] ∨ ∃ during, query = during ++ [.asked surface j.target.doc])

/-- What can happen between two looks at an editor. -/
inductive Step : Editor → Editor → Prop where
  | outside {e e' : Editor} (h : Outside e e') : Step e e'
  | install (e : Editor) (doc : DocumentId) (surface : Nat) (r : Resolver) :
      Step e (e.install doc surface r)
  | uninstall (e : Editor) (doc : DocumentId) : Step e (e.uninstall doc).2
  /-- A pass enters a gate. -/
  | enter {e : Editor} {id : Nat} {s : Slot} (hs : e.slots[id]? = some s)
      (hfree : s.gate.busy = false) : Step e (e.enterGate id s.entered.gate)
  /-- A request finds no document, or a pass in its gate. -/
  | refuse (e : Editor) (slot : Option Nat) (r : Request) {o : Outcome}
      (ho : o.isSuccess = false) (hslot : slot = none ∨ o = .dropped) :
      Step e (e.recordPass slot r o)
  /-- A pass in a gate succeeds with what the tree should have and what is shown. -/
  | settle {e : Editor} {id : Nat} {s : Slot} {r : Request} {wanted : List Highlight} {d : Delta}
      (hs : e.slots[id]? = some s) (hbusy : s.gate.busy = true)
      (hgo : e.isInterrupted r.token s.target = false)
      (hwanted : e.Finds s.resolver 0 r.tree wanted) (hd : d = .between s.gate.value wanted) :
      Step e (e.settle id s.target r wanted d (d.apply s.gate.value))
  /-- A pass in a gate gives up. -/
  | abort (e : Editor) (id : Nat) (r : Request) {o : Outcome} (ho : o.isSuccess = false)
      (hid : id < e.slots.length) : Step e ((e.leaveGate id).recordPass (some id) r o)
  /-- A panic leaves a pass. -/
  | unwind (e : Editor) (id : Nat) (r : Request) (hid : id < e.slots.length) :
      Step e ((e.leaveGate id).log (.unwound id r))
  /-- A pass is broken off for good. -/
  | leave (e : Editor) (id : Nat) : Step e (e.leaveGate id)
  /-- A change is sent off by name, past the coordinator. -/
  | send {e : Editor} {j : Job} (hj : e.Named j.target.lifetime.own) : Step e (e.dispatch j)
  /-- The turn of a job comes. -/
  | take {e : Editor} {j : Job} {rest : List Job} (hkeeper : e.queue.keeper = .draining)
      (hq : e.queue.jobs = j :: rest) (hturn : turnOf e.journal = none)
      (hlife : e.isTornDown j.target = false) : Step e (e.take j rest)
  /-- The turn of a job comes and is over at once, its target being torn down. -/
  | skip {e : Editor} {j : Job} {rest : List Job} (hkeeper : e.queue.keeper = .draining)
      (hq : e.queue.jobs = j :: rest) (hturn : turnOf e.journal = none)
      (hlife : e.isTornDown j.target = true) : Step e ((e.take j rest).log (.discarded j))
  | hand {e : Editor} {j : Job} {surface : String} (h : HandedOver surface j e.journal) :
      Step e (e.log (.applied surface j))
  | discard {e : Editor} {j : Job} (hturn : turnOf e.journal = some j) :
      Step e (e.log (.discarded j))
  | lose {e : Editor} {j : Job} (hturn : turnOf e.journal = some j) : Step e (e.log (.lost j))
  /-- The queue changes hands between turns. -/
  | keep {e : Editor} {k : Keeper} (hfrom : e.queue.keeper ≠ .gone) (hto : k ≠ .gone)
      (hturn : turnOf e.journal = none) : Step e (e.keep k)
  | dropQueue {e : Editor} (hturn : turnOf e.journal = none) :
      Step e { e with queue := .dropped }

/-- A chain of steps. -/
abbrev Steps : Editor → Editor → Prop := Relation.ReflTransGen Step

end Highlighting
