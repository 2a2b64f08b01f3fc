/-
An editor with highlighted documents.

The coordinator holds a slot per installed document.  A slot guards its
highlights with a gate and keeps a copy that can be read at any time; it lives
until the document is uninstalled or installed anew.  Changes wait in a queue
until they are rendered.  Slots are never thrown away: a pass may still be
running on one that was torn down, so documents point into the list of all slots
there ever were.

The journal records what happened, the latest first.
-/
import Highlighting.Act
import Highlighting.Command
import Highlighting.Gate
import Highlighting.Rule
import Highlighting.Token

namespace Highlighting

/-- Where changes are shown.  `onLive` and `onApply` are the scripts still to run. -/
structure Surface where
  name : String
  alwaysLive : Bool
  disposed : Bool := false
  onLive : List Script
  onApply : List Script

/-- What gives the kinds of a document their styles. -/
structure Resolver where
  /-- The table it goes by, from call to call. -/
  tables : Nat → StyleTable
  scripted : Bool
  onResolve : List Script
  /-- How many times it was called. -/
  calls : Nat := 0

/-- Where a change goes, and the scope that ends when it may no longer go there. -/
structure Target where
  doc : DocumentId
  surface : Nat
  lifetime : Lineage
  deriving DecidableEq, Repr

/-- A change on its way to the screen. -/
structure Job where
  target : Target
  delta : Delta
  deriving DecidableEq

/-- The state of one installed document. -/
structure Slot where
  target : Target
  resolver : Nat
  /-- The highlights, to be replaced only by the pass that is in. -/
  gate : Gate (List Highlight) := ⟨[], false⟩
  /-- The highlights for everybody else. -/
  snapshot : List Highlight := []

/-- Who has the receiving end of the queue. -/
inductive Keeper where
  | idle
  /-- It is being drained. -/
  | draining
  /-- A thread of its own renders what comes. -/
  | thread
  /-- It was dropped. -/
  | gone
  deriving DecidableEq, Repr

structure RenderQueue where
  keeper : Keeper := .idle
  jobs : List Job := []

namespace RenderQueue

def isClosed (q : RenderQueue) : Bool := q.keeper = .gone

/-- Puts a job at the end. -/
def push (q : RenderQueue) (j : Job) : RenderQueue := { q with jobs := q.jobs ++ [j] }

def dropped : RenderQueue := { keeper := .gone }

end RenderQueue

/-- A request to bring a document up to date. -/
structure Request where
  doc : DocumentId
  tree : SyntaxTree
  token : Token

/-- Something that happened. -/
inductive Event where
  /-- A surface was asked whether the view of a document is there. -/
  | asked (surface : String) (doc : DocumentId)
  /-- A change was handed to a surface. -/
  | applied (surface : String) (job : Job)
  /-- A scripted resolver was asked for the style of a kind. -/
  | resolved (kind : Kind)
  /-- A script carried out a command. -/
  | answered (command : String) (answer : Answer)
  /-- The life of the slot with this target ended. -/
  | tornDown (target : Target)
  /-- A pass entered the gate of a slot. -/
  | entered (slot : Nat)
  /-- A pass ended, on a slot if there was one. -/
  | ended (slot : Option Nat) (request : Request) (outcome : Outcome)
  /-- A pass replaced the highlights of a slot, with these as its candidates. -/
  | settled (slot : Nat) (wanted : List Highlight)
  /-- A panic left a pass. -/
  | unwound (slot : Nat) (request : Request)
  | queued (job : Job)
  /-- The turn of a change came: it was taken off the queue. -/
  | taken (job : Job)
  /-- A change was dropped at its turn, its target being gone. -/
  | discarded (job : Job)
  /-- The turn of a change was broken off before it was known whether its target was there. -/
  | lost (job : Job)
  /-- Work was reported on a token, other than by a pass. -/
  | reported (token : Token) (units : UInt32)

/-- Whether an event is a call of the surroundings or an answer to a script. -/
def Event.isShown : Event → Bool
  | asked .. | applied .. | resolved .. | answered .. => true
  | _ => false

structure Editor where
  policy : Policy
  /-- The styles documents have unless they ask for others. -/
  baseTable : StyleTable
  tokens : Tokens := .empty
  surfaces : List Surface := []
  resolvers : List Resolver := []
  /-- All slots there ever were. -/
  slots : List Slot := []
  /-- The slots of the documents that are installed. -/
  documents : Registry DocumentId Nat := .empty
  metrics : Metrics := .empty
  queue : RenderQueue := {}
  /-- Whether the coordinator and its dispatcher are still there. -/
  coordinating : Bool := true
  surfaceNames : Registry String Nat := .empty
  tokenNames : Registry String Token := .empty
  targetNames : Registry String Target := .empty
  journal : List Event := []

/-- Why a command was broken off.  Only a panic is ever caught. -/
inductive Halt where
  | panic (payload : Payload)
  /-- A change was to hold a mark of no length. -/
  | emptyMark (e : Mark.Empty)
  | outOfFuel
  deriving DecidableEq, Repr

/-- An action of the editor. -/
abbrev EditorM := Act Editor Halt

namespace Editor

def log (e : Editor) (event : Event) : Editor := { e with journal := event :: e.journal }

@[simp] theorem journal_log (e : Editor) (event : Event) :
    (e.log event).journal = event :: e.journal := rfl

@[simp] theorem slots_log (e : Editor) (event : Event) : (e.log event).slots = e.slots := rfl

@[simp] theorem documents_log (e : Editor) (event : Event) :
    (e.log event).documents = e.documents := rfl

@[simp] theorem tokens_log (e : Editor) (event : Event) : (e.log event).tokens = e.tokens := rfl

@[simp] theorem queue_log (e : Editor) (event : Event) : (e.log event).queue = e.queue := rfl

/-- The slot of an installed document, with its number. -/
def slot? (e : Editor) (doc : DocumentId) : Option (Nat × Slot) := do
  let id ← e.documents.get? doc
  return (id, ← e.slots[id]?)

def modifySlot (e : Editor) (id : Nat) (f : Slot → Slot) : Editor :=
  { e with slots := e.slots.modify id f }

theorem getElem?_modifySlot (e : Editor) (id : Nat) (f : Slot → Slot) (i : Nat) :
    (e.modifySlot id f).slots[i]? = if id = i then e.slots[i]?.map f else e.slots[i]? := by
  unfold modifySlot
  rw [List.getElem?_modify]
  split
  · rfl
  · simp

def modifySurface (e : Editor) (id : Nat) (f : Surface → Surface) : Editor :=
  { e with surfaces := e.surfaces.modify id f }

def modifyResolver (e : Editor) (id : Nat) (f : Resolver → Resolver) : Editor :=
  { e with resolvers := e.resolvers.modify id f }

def isTornDown (e : Editor) (t : Target) : Bool := e.tokens.isCancelled t.lifetime

/-- Ends the life of a slot. -/
def tearDown (e : Editor) (id : Nat) : Editor :=
  match e.slots[id]? with
  | some s => { e with tokens := e.tokens.cancel s.target.lifetime }.log (.tornDown s.target)
  | none => e

/-- A fresh slot for a document, with a life of its own. -/
def addSlot (e : Editor) (doc : DocumentId) (surface : Nat) (r : Resolver) : Editor :=
  let (lifetime, tokens) := e.tokens.newScope
  let slot : Slot := { target := ⟨doc, surface, lifetime⟩, resolver := e.resolvers.length }
  { e with
    tokens := tokens
    resolvers := e.resolvers ++ [r]
    slots := e.slots ++ [slot]
    documents := e.documents.set doc e.slots.length }

/-- Installs a document in a fresh slot; one it had before is torn down. -/
def install (e : Editor) (doc : DocumentId) (surface : Nat) (r : Resolver) : Editor :=
  match e.documents.get? doc with
  | some id => (e.addSlot doc surface r).tearDown id
  | none => e.addSlot doc surface r

/-- Forgets a document, if it is installed, and tears its slot down. -/
def uninstall (e : Editor) (doc : DocumentId) : Bool × Editor :=
  match e.documents.get? doc with
  | some id => (true, { e with documents := e.documents.erase doc }.tearDown id)
  | none => (false, e)

/-- Work is reported on a token. -/
def worked (e : Editor) (t : Token) (units : UInt32) : Editor :=
  { e with tokens := e.tokens.worked t units }

/-- Puts a change into the queue.  Without a receiver it is lost. -/
def dispatch (e : Editor) (j : Job) : Editor :=
  if e.queue.isClosed then e else { e with queue := e.queue.push j }.log (.queued j)

/-! ### Descriptions -/

/-- A description of the coordinator. -/
def describe (e : Editor) : String :=
  let order := ", ".intercalate (e.policy.order.map Rule.title)
  "Coordinator \x7b installed: " ++ toString e.documents.size ++
    ", classifier: Classifier \x7b policy: ClassifierPolicy \x7b order: [" ++ order ++
    "] \x7d \x7d, .. \x7d"

/-- A description of a target. -/
def describeTarget (e : Editor) (t : Target) : String :=
  "RenderTarget \x7b doc: DocumentId(" ++ toString t.doc.value ++ "), torn_down: " ++
    toString (e.isTornDown t) ++ ", .. \x7d"

end Editor

end Highlighting
