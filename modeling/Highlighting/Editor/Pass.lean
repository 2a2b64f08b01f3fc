/-
Passes over a document.

A pass brings the highlights of a document up to date with its syntax tree.  Only
one can be in the gate of a slot; another one is dropped at once.  Four times it
looks whether its token or the life of the slot was cancelled, and it replaces the
highlights and queues the change only at the very end, so a pass that is broken
off leaves everything as it was.
-/
import Highlighting.Classification
import Highlighting.Editor.Callback

namespace Highlighting

/-- The work a full pass reports, stage by stage. -/
def unitsBegin : UInt32 := 1
def unitsClassify : UInt32 := 5
def unitsSnapshot : UInt32 := 1
def unitsDiff : UInt32 := 2
def unitsPublish : UInt32 := 1

variable (run : Script → EditorM Unit)

/-- The highlights a tree should have, styled by a resolver. -/
def wantedHighlights (resolver : Nat) (tree : SyntaxTree) : EditorM (List Highlight) := do
  let policy := (← Act.get).policy
  (policy.classifyTree tree).marks.mapM fun m => do
    return m.styled (← resolveStyle run resolver m.kind)

/-- Whether a pass with this token on a slot has to stop. -/
def Editor.isInterrupted (e : Editor) (token : Token) (t : Target) : Bool :=
  e.tokens.isCancelled token.lineage || e.isTornDown t

/-- The highlights of a slot as the pass in its gate sees them. -/
def Editor.gateValue (e : Editor) (id : Nat) : List Highlight :=
  match e.slots[id]? with
  | some s => s.gate.value
  | none => []

/-- Replaces the highlights of a slot, the candidates being as given, and queues the change if there
is one. -/
def Editor.publish (e : Editor) (id : Nat) (t : Target) (wanted : List Highlight) (delta : Delta)
    (next : List Highlight) : Outcome × Editor :=
  let e := (e.modifySlot id fun s => { s with gate := s.gate.set next, snapshot := next }).log
    (.settled id wanted)
  if delta.isEmpty then (.unchanged, e)
  else (.published delta.add.length delta.remove.length, e.dispatch ⟨t, delta⟩)

/-- The part of a pass behind classification: what is wanted is compared with what is shown. -/
def reconcileWith (id : Nat) (t : Target) (token : Token) (wanted : List Highlight) :
    EditorM Outcome := do
  EditorM.work token unitsClassify
  if (← Act.get).isInterrupted token t then return .cancelled .classified
  else
    let shown := (← Act.get).gateValue id
    EditorM.work token unitsSnapshot
    if (← Act.get).isInterrupted token t then return .cancelled .snapshotted
    else
      let delta := Delta.between shown wanted
      EditorM.work token unitsDiff
      if (← Act.get).isInterrupted token t then return .cancelled .diffed
      else if !(← isLive run t) then return .targetGone
      else if (← Act.get).isInterrupted token t then return .cancelled .beforeDispatch
      else
        let outcome ← Act.modifyGet (·.publish id t wanted delta (delta.apply shown))
        EditorM.work token unitsPublish
        return outcome

/-- A pass inside the gate of a slot. -/
def passInside (id : Nat) (s : Slot) (r : Request) : EditorM Outcome := do
  EditorM.work r.token unitsBegin
  match ← EditorM.catching (wantedHighlights run s.resolver r.tree) with
  | .error p => return .failed (.classifierPanicked p.message)
  | .ok wanted => reconcileWith run id s.target r.token wanted

/-- Leaves the gate of a slot. -/
def Editor.leaveGate (e : Editor) (id : Nat) : Editor :=
  e.modifySlot id fun s => { s with gate := s.gate.leave }

/-- Counts and records a pass that ended. -/
def Editor.recordPass (e : Editor) (slot : Option Nat) (r : Request) (o : Outcome) : Editor :=
  { e with metrics := e.metrics.record o .zero }.log (.ended slot r o)

/-- Enters the gate of a slot, which is then as given. -/
def Editor.enterGate (e : Editor) (id : Nat) (inside : Gate (List Highlight)) : Editor :=
  (e.modifySlot id fun s => { s with gate := inside }).log (.entered id)

/-- One pass.  A panic that leaves it is recorded, but not counted; the gate is free again. -/
def reconcile (r : Request) : EditorM Outcome := do
  match (← Act.get).slot? r.doc with
  | none =>
    Act.modify (·.recordPass none r .notInstalled)
    return .notInstalled
  | some (id, s) =>
    match s.gate.enter? with
    | none =>
      Act.modify (·.recordPass (some id) r .dropped)
      return .dropped
    | some inside =>
      Act.modify (·.enterGate id inside)
      match ← Act.attempt (Act.ensuring (passInside run id s r) (·.leaveGate id)) with
      | .ok outcome =>
        Act.modify (·.recordPass (some id) r outcome)
        return outcome
      | .error (.panic p) =>
        EditorM.log (.unwound id r)
        Act.halt (.panic p)
      | .error h => Act.halt h

end Highlighting
