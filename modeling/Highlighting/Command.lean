/-
What can be asked of an editor, and what it answers.

Commands come from outside, or from scripts: the surfaces and style resolvers of
an editor have lists of scripts, and each time one of them is called it runs the
next.  So a command may be carried out in the middle of another one.
-/
import Highlighting.Delta
import Highlighting.Document
import Highlighting.Metrics
import Highlighting.Style.Table
import Highlighting.Task
import Highlighting.Tree.Node

namespace Highlighting

/-- Where the styles of a document come from. -/
inductive StyleChoice where
  /-- One style for every kind. -/
  | constant (s : Style)
  /-- The editor's table with some changes. -/
  | table (changes : List (Kind × Style))
  /-- Tables that are swapped: one for each time a style is asked for. -/
  | swapped (tables : Nat → StyleTable)

inductive Command where
  /-- Declares a surface.  One that is always live is never asked. -/
  | surface (name : String) (onLive onApply : List (List Command)) (alwaysLive : Bool)
  /-- From now on the surface says that its view is gone. -/
  | dispose (surface : String)
  /-- From now on the surface says that its view is there. -/
  | revive (surface : String)
  | token (name : String) (parent : Option String)
  | cancel (token : String)
  | worked (token : String) (units : UInt32)
  /-- Installs a document.  A scripted resolver tells of each call and runs its next script. -/
  | install (doc : DocumentId) (surface : String) (styles : StyleChoice)
      (scripted : Bool) (onResolve : List (List Command))
  | uninstall (doc : DocumentId)
  | isInstalled (doc : DocumentId)
  | published (doc : DocumentId)
  | state (doc : DocumentId)
  | metrics
  | debug
  | reconcile (doc : DocumentId) (tree : SyntaxTree) (token : Option String)
  | target (name : String) (doc : DocumentId) (surface : String)
  | cancelTarget (target : String)
  | targetInfo (target : String)
  /-- Sends a change on its way, unless it was to hold a mark of no length. -/
  | dispatch (target : String) (delta : Except Mark.Empty Delta)
  | isClosed
  | drain
  | dropQueue
  /-- Lets the coordinator go and renders what is queued to the end. -/
  | finish
  | panic (payload : Payload)

/-- Commands to be carried out one after the other. -/
abbrev Script := List Command

/-- The name of a command in the record of what scripts did. -/
def Command.name : Command → String
  | surface .. => "surface"
  | dispose .. => "dispose"
  | revive .. => "revive"
  | token .. => "token"
  | cancel .. => "cancel"
  | worked .. => "worked"
  | install .. => "install"
  | uninstall .. => "uninstall"
  | isInstalled .. => "is_installed"
  | published .. => "published"
  | state .. => "state"
  | metrics => "metrics"
  | debug => "debug"
  | reconcile .. => "reconcile"
  | target .. => "target"
  | cancelTarget .. => "target_cancel"
  | targetInfo .. => "target_info"
  | dispatch .. => "dispatch"
  | isClosed => "is_closed"
  | drain => "drain"
  | dropQueue => "drop_queue"
  | finish => "finish"
  | panic .. => "panic"

mutual

/-- How many commands there are in a command, itself and those of its scripts. -/
def Command.weight : Command → Nat
  | .surface _ onLive onApply _ => 1 + weightOfScripts onLive + weightOfScripts onApply
  | .install _ _ _ _ onResolve => 1 + weightOfScripts onResolve
  | _ => 1

/-- How many commands there are in a script. -/
def weightOfScript : List Command → Nat
  | [] => 0
  | c :: rest => c.weight + weightOfScript rest

/-- How many commands there are in several scripts. -/
def weightOfScripts : List (List Command) → Nat
  | [] => 0
  | s :: rest => weightOfScript s + weightOfScripts rest

end

/-- What became of the jobs of a queue. -/
structure RenderReport where
  /-- Changes handed to their surface. -/
  applied : Nat := 0
  /-- Changes whose target was gone. -/
  discarded : Nat := 0
  deriving DecidableEq, Repr

def RenderReport.add (r s : RenderReport) : RenderReport :=
  ⟨r.applied + s.applied, r.discarded + s.discarded⟩

inductive Answer where
  | done
  | yesNo (b : Bool)
  /-- The highlights of a document, if it is installed. -/
  | published (highlights : Option (List Highlight))
  /-- Whether a pass is running, if the document is installed. -/
  | running (busy : Option Bool)
  | metrics (counters : Counters) (hasAverage : Bool)
  | text (s : String)
  /-- A pass ended; `work` is what its token shows. -/
  | passed (outcome : Outcome) (work : UInt32)
  /-- A panic left a pass. -/
  | unwound (message : String) (work : UInt32)
  | target (doc : DocumentId) (tornDown live : Bool) (text : String)
  | dispatched (closed : Bool)
  | rendered (report : RenderReport)
  | panicked (message : String)
  | noCoordinator
  | noDispatcher
  | noQueue
  /-- There is nothing of that name. -/
  | unknown (name : String)
  deriving DecidableEq

end Highlighting
