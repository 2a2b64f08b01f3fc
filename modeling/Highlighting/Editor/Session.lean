/-
Carrying out commands.

`perform` carries out one command and `execute` a script.  Scripts run inside
callbacks, inside other commands, and so on; every level down uses up one unit of
fuel.  The surroundings can look at the editor whenever one of their scripts is
running: when it begins, and after each of its commands.  The commands of a
session are finite in number and each is carried out at most once, so the number
of all of them is fuel enough, for the depth as well as for the jobs of one drain.
-/
import Highlighting.Editor.Pass
import Highlighting.Editor.Render

namespace Highlighting

namespace Editor

def declareSurface (e : Editor) (name : String) (s : Surface) : Editor :=
  { e with
    surfaces := e.surfaces ++ [s]
    surfaceNames := e.surfaceNames.set name e.surfaces.length }

def setDisposed (e : Editor) (id : Nat) (b : Bool) : Editor :=
  e.modifySurface id fun s => { s with disposed := b }

def nameToken (e : Editor) (name : String) (made : Token × Tokens) : Editor :=
  { e with tokens := made.2, tokenNames := e.tokenNames.set name made.1 }

def nameTarget (e : Editor) (name : String) (doc : DocumentId) (surface : Nat) : Editor :=
  let (lifetime, tokens) := e.tokens.newScope
  { e with tokens := tokens, targetNames := e.targetNames.set name ⟨doc, surface, lifetime⟩ }

/-- The tables of a document with these styles, from call to call. -/
def tablesFor (e : Editor) : StyleChoice → Nat → StyleTable
  | .constant s => fun _ => ⟨fun _ => s⟩
  | .table changes => fun _ => e.baseTable.setAll changes
  | .swapped tables => tables

/-- The highlights of an installed document, for everybody to read. -/
def published? (e : Editor) (doc : DocumentId) : Option (List Highlight) :=
  (e.slot? doc).map fun s => s.2.snapshot

end Editor

namespace EditorM

/-- Goes on with the thing under a name, or answers that there is none. -/
def named {α : Type} (find : Editor → Option α) (name : String) (k : α → EditorM Answer) :
    EditorM Answer := do
  match find (← Act.get) with
  | some a => k a
  | none => return .unknown name

def withSurface (name : String) (k : Nat → EditorM Answer) : EditorM Answer :=
  named (·.surfaceNames.get? name) name k

def withToken (name : String) (k : Token → EditorM Answer) : EditorM Answer :=
  named (·.tokenNames.get? name) name k

def withTarget (name : String) (k : Target → EditorM Answer) : EditorM Answer :=
  named (·.targetNames.get? name) name k

/-- Changes the editor and has nothing to tell. -/
def alter (f : Editor → Editor) : EditorM Answer := do
  Act.modify f
  return .done

/-- Goes on if there is a coordinator. -/
def coordinated (x : EditorM Answer) : EditorM Answer := do
  if (← Act.get).coordinating then x else return .noCoordinator

/-- Goes on if there is a dispatcher. -/
def dispatching (x : EditorM Answer) : EditorM Answer := do
  if (← Act.get).coordinating then x else return .noDispatcher

end EditorM

open EditorM

variable (run : Script → EditorM Unit)

/-- Runs a pass and answers how it ended and what its token shows. -/
def reconcileAnswer (doc : DocumentId) (tree : SyntaxTree) (token : Token) : EditorM Answer := do
  let result ← catching (reconcile run ⟨doc, tree, token⟩)
  let work := (← Act.get).tokens.workDone token
  match result with
  | .ok outcome => return .passed outcome work
  | .error p => return .unwound p.message work

/-- Tells all about a target, asking its surface if need be. -/
def targetAnswer (t : Target) : EditorM Answer := do
  let tornDown := (← Act.get).isTornDown t
  let live ← isLive run t
  return .target t.doc tornDown live ((← Act.get).describeTarget t)

/-- Carries out one command; `run` carries out scripts, and `fuel` bounds the jobs of a drain. -/
def performWith (fuel : Nat) : Command → EditorM Answer
  | .surface name onLive onApply alwaysLive =>
    alter (·.declareSurface name
      { name := name, alwaysLive := alwaysLive, onLive := onLive, onApply := onApply })
  | .dispose name => withSurface name fun id => alter (·.setDisposed id true)
  | .revive name => withSurface name fun id => alter (·.setDisposed id false)
  | .token name none => alter fun e => e.nameToken name e.tokens.new
  | .token name (some parent) => withToken parent fun t =>
    alter fun e => e.nameToken name (e.tokens.child t)
  | .cancel name => withToken name fun t =>
    alter fun e => { e with tokens := e.tokens.cancel t.lineage }
  | .worked name units => withToken name fun t => do
    Act.modify fun e => (e.worked t units).log (.reported t units)
    return .yesNo ((← Act.get).tokens.isCancelled t.lineage)
  | .install doc surface styles scripted onResolve =>
    coordinated <| withSurface surface fun id =>
      alter fun e => e.install doc id { tables := e.tablesFor styles, scripted, onResolve }
  | .uninstall doc => coordinated do return .yesNo (← Act.modifyGet (·.uninstall doc))
  | .isInstalled doc => coordinated do return .yesNo ((← Act.get).documents.contains doc)
  | .published doc => coordinated do
    return .published ((← Act.get).published? doc)
  | .state doc => coordinated do
    return .running (((← Act.get).slot? doc).map fun s => s.2.gate.busy)
  | .metrics => coordinated do
    let m := (← Act.get).metrics
    return .metrics m.counters m.passMillis.isSome
  | .debug => coordinated do return .text (← Act.get).describe
  | .reconcile doc tree (some name) => coordinated <| withToken name fun t =>
    reconcileAnswer run doc tree t
  | .reconcile doc tree none => coordinated do
    let t ← Act.modifyGet fun e => (e.tokens.new.1, { e with tokens := e.tokens.new.2 })
    reconcileAnswer run doc tree t
  | .target name doc surface => withSurface surface fun id => alter (·.nameTarget name doc id)
  | .cancelTarget name => withTarget name fun t =>
    alter fun e => { e with tokens := e.tokens.cancel t.lifetime }
  | .targetInfo name => withTarget name (targetAnswer run)
  | .dispatch _ (.error e) => Act.halt (.emptyMark e)
  | .dispatch name (.ok delta) => withTarget name fun t => dispatching do
    let closed := (← Act.get).queue.isClosed
    Act.modify (·.dispatch ⟨t, delta⟩)
    return .dispatched closed
  | .isClosed => dispatching do return .yesNo (← Act.get).queue.isClosed
  | .drain => drainQueue run fuel
  | .dropQueue => do
    if (← Act.get).queue.keeper = .idle then
      Act.modify fun e => { e with queue := .dropped }
      return .yesNo true
    else return .yesNo false
  | .finish => finishQueue run fuel
  | .panic p => Act.halt (.panic p)

/-- Carries out a script inside a callback and records each answer. -/
def execute : Nat → Script → EditorM Unit
  | 0, script => do
    Act.look
    if script.isEmpty then return () else Act.halt .outOfFuel
  | fuel + 1, script => do
    Act.look
    script.forM fun c => do
      let answer ← performWith (execute fuel) fuel c
      log (.answered c.name answer)
      Act.look

/-- Carries out one command. -/
def perform (fuel : Nat) (c : Command) : EditorM Answer :=
  performWith (execute fuel) fuel c

/-- The events since the journal had a certain length, in the order in which they happened. -/
def Editor.eventsSince (e : Editor) (n : Nat) : List Event :=
  (e.journal.take (e.journal.length - n)).reverse

/-- Carries out commands from outside; each answer comes with what happened meanwhile.  One that is
broken off ends it all. -/
def Editor.converse (fuel : Nat) (e : Editor) :
    Script → Except Halt (List (Answer × List Event)) × Editor
  | [] => (.ok [], e)
  | c :: rest =>
    match perform fuel c e with
    | ⟨_, .error h, e'⟩ => (.error h, e')
    | ⟨_, .ok answer, e'⟩ =>
      let (log, last) := e'.converse fuel rest
      (log.map ((answer, e'.eventsSince e.journal.length) :: ·), last)

/-- A new editor; its queue may be rendered by a thread of its own. -/
def Editor.new (policy : Policy) (table : StyleTable) (renderThread : Bool) : Editor where
  policy := policy
  baseTable := table
  queue := { keeper := if renderThread then .thread else .idle }

/-- A whole session: the answers to its commands and what can be seen from outside meanwhile, or
why it was broken off. -/
def session (policy : Policy) (table : StyleTable) (renderThread : Bool) (script : Script) :
    Except Halt (List (Answer × List Event)) :=
  let (log, _) := (Editor.new policy table renderThread).converse (weightOfScript script) script
  log.map (·.map fun (answer, events) => (answer, events.filter Event.isShown))

end Highlighting
