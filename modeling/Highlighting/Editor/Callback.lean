/-
Calls of the surroundings.

A surface or a resolver that is called first tells of it, then runs its next
script, and then answers.  `run` carries out a script; every action that may call
the surroundings takes it as an argument.
-/
import Highlighting.Editor

namespace Highlighting

namespace EditorM

def log (event : Event) : EditorM Unit := Act.modify (·.log event)

/-- Reports the work of a pass. -/
def work (t : Token) (units : UInt32) : EditorM Unit := Act.modify (·.worked t units)

/-- Does an action and catches its panic. -/
def catching {α : Type} (x : EditorM α) : EditorM (Except Payload α) := do
  match ← Act.attempt x with
  | .ok a => return .ok a
  | .error (.panic p) => return .error p
  | .error h => Act.halt h

end EditorM

variable (run : Script → EditorM Unit)

/-- Takes the next script of a surface for being asked. -/
def Surface.nextLive (s : Surface) : Surface := { s with onLive := s.onLive.tail }

/-- Takes the next script of a surface for a change. -/
def Surface.nextApply (s : Surface) : Surface := { s with onApply := s.onApply.tail }

/-- Asks a surface whether the view of a document is there.  It answers after its script. -/
def askSurface (id : Nat) (doc : DocumentId) : EditorM Bool := do
  match (← Act.get).surfaces[id]? with
  | none => return false
  | some s =>
    if s.alwaysLive then return true
    else
      EditorM.log (.asked s.name doc)
      Act.modify (·.modifySurface id Surface.nextLive)
      run (s.onLive.headD [])
      return match (← Act.get).surfaces[id]? with
        | some s => !s.disposed
        | none => false

/-- Whether a target is still there.  The surface of one that was torn down is not asked. -/
def isLive (t : Target) : EditorM Bool := do
  if (← Act.get).isTornDown t then return false
  else askSurface run t.surface t.doc

/-- Hands a change to its surface. -/
def applyJob (j : Job) : EditorM Unit := do
  match (← Act.get).surfaces[j.target.surface]? with
  | none => return ()
  | some s =>
    EditorM.log (.applied s.name j)
    Act.modify (·.modifySurface j.target.surface Surface.nextApply)
    run (s.onApply.headD [])

/-- The style a resolver has for a kind at its next call. -/
def Resolver.style (r : Resolver) (kind : Kind) : Style := (r.tables r.calls).style kind

/-- Counts a call of a resolver and takes its next script. -/
def Resolver.next (r : Resolver) : Resolver :=
  { r with onResolve := r.onResolve.tail, calls := r.calls + 1 }

/-- Asks a resolver for the style of a kind. -/
def resolveStyle (id : Nat) (kind : Kind) : EditorM Style := do
  match (← Act.get).resolvers[id]? with
  | none => return .plain
  | some r =>
    if r.scripted then
      EditorM.log (.resolved kind)
      Act.modify (·.modifyResolver id Resolver.next)
      run (r.onResolve.headD [])
      return r.style kind
    else
      Act.modify (·.modifyResolver id Resolver.next)
      return r.style kind

end Highlighting
