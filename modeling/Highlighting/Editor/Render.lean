/-
Rendering what is queued.

Jobs are taken off the queue in order.  Whether the target of a job is still there
is asked right before the change is handed over, since it may have gone while the
job was waiting.  A panic of the surface while it takes a change is caught; one
while it is asked is not, and the job is lost.
-/
import Highlighting.Editor.Callback

namespace Highlighting

variable (run : Script → EditorM Unit)

/-- Hands a job to its surface, or discards it. -/
def deliver (j : Job) : EditorM RenderReport := do
  match ← Act.attempt (isLive run j.target) with
  | .ok true =>
    let _ ← EditorM.catching (applyJob run j)
    return { applied := 1 }
  | .ok false =>
    EditorM.log (.discarded j)
    return { discarded := 1 }
  | .error h =>
    EditorM.log (.lost j)
    Act.halt h

/-- Takes the first job off the queue, leaving the rest. -/
def Editor.take (e : Editor) (job : Job) (rest : List Job) : Editor :=
  { e with queue := { e.queue with jobs := rest } }.log (.taken job)

/-- Delivers jobs until the queue is empty, those that arrive meanwhile included. -/
def renderAll : Nat → RenderReport → EditorM RenderReport
  | fuel, report => do
    match (← Act.get).queue.jobs with
    | [] => return report
    | job :: rest =>
      match fuel with
      | 0 => Act.halt .outOfFuel
      | fuel + 1 =>
        Act.modify (·.take job rest)
        let r ← deliver run job
        renderAll fuel (report.add r)

/-- Gives the queue to a keeper. -/
def Editor.keep (e : Editor) (k : Keeper) : Editor :=
  { e with queue := { e.queue with keeper := k } }

/-- The answer to rendering: the report, or the panic that left it. -/
def renderAnswer (x : EditorM RenderReport) : EditorM Answer := do
  match ← EditorM.catching x with
  | .ok report => return .rendered report
  | .error p => return .panicked p.message

/-- Renders what is queued, if the queue is there to be drained, and puts it back. -/
def drainQueue (fuel : Nat) : EditorM Answer := do
  match (← Act.get).queue.keeper with
  | .idle =>
    Act.modify (·.keep .draining)
    renderAnswer (Act.ensuring (renderAll run fuel {}) (·.keep .idle))
  | _ => return .noQueue

/-- Lets the coordinator go and renders what is queued for the last time. -/
def finishQueue (fuel : Nat) : EditorM Answer := do
  Act.modify fun e => { e with coordinating := false }
  match (← Act.get).queue.keeper with
  | .idle | .thread =>
    Act.modify (·.keep .draining)
    renderAnswer (Act.ensuring (renderAll run fuel {}) fun e => { e with queue := .dropped })
  | _ => return .noQueue

end Highlighting
