/-
How a pass over a document can end.
-/
namespace Highlighting

/-- The points at which a running pass looks whether it was cancelled. -/
inductive Checkpoint where
  | classified | snapshotted | diffed | beforeDispatch
  deriving DecidableEq, Repr

def Checkpoint.all : List Checkpoint := [classified, snapshotted, diffed, beforeDispatch]

def Checkpoint.name : Checkpoint → String
  | classified => "classified"
  | snapshotted => "snapshotted"
  | diffed => "diffed"
  | beforeDispatch => "before_dispatch"

/-- A panic that ended a pass, with its message. -/
inductive PassError where
  | classifierPanicked (text : String)
  | diffPanicked (text : String)
  deriving DecidableEq, Repr

def PassError.message : PassError → String
  | classifierPanicked text => "classification panicked: " ++ text
  | diffPanicked text => "diff panicked: " ++ text

inductive Outcome where
  /-- The highlights were replaced and the change sent to the screen. -/
  | published (added removed : Nat)
  /-- There was nothing to change. -/
  | unchanged
  /-- Another pass was running. -/
  | dropped
  | cancelled (seenAt : Checkpoint)
  | failed (error : PassError)
  /-- The document is not installed. -/
  | notInstalled
  /-- The view was gone before anything could be sent to it. -/
  | targetGone
  deriving DecidableEq, Repr

/-- Whether the pass ran to its end. -/
def Outcome.isSuccess : Outcome → Bool
  | published _ _ | unchanged => true
  | _ => false

end Highlighting
