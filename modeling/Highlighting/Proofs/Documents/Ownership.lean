/-
Whose doing a command is.

Several documents live in one editor: they share its queue and its metrics, and the
numbers of their slots, surfaces and scopes come from the same counters.  When each
surface, token and target belongs to one document, a command acts on that document
alone if all it names belongs to it, and so do the commands of its scripts.  Draining
the queue and giving it up are nobody's own.

What can be told of a document is whether it is installed, what it shows, whether a
pass is in, and what happened to it: how its passes ended, and which changes its
surface was given.
-/
import Highlighting.Editor.Session

namespace Highlighting

/-- The documents that surfaces, tokens and targets belong to, by name. -/
structure Ownership where
  surface : String → DocumentId
  token : String → DocumentId
  target : String → DocumentId

mutual

/-- Whether a command acts on no document but this one, and neither do its scripts. -/
def Command.actsOn (o : Ownership) (d : DocumentId) : Command → Bool
  | .surface name onLive onApply _ =>
    o.surface name = d && scriptsActOn o d onLive && scriptsActOn o d onApply
  | .dispose name | .revive name => o.surface name = d
  | .token name parent => o.token name = d && parent.all (o.token · = d)
  | .cancel name | .worked name _ => o.token name = d
  | .install doc surface _ _ onResolve =>
    doc = d && o.surface surface = d && scriptsActOn o d onResolve
  | .uninstall doc | .isInstalled doc | .published doc | .state doc => doc = d
  | .reconcile doc _ token => doc = d && token.all (o.token · = d)
  | .target name doc surface => o.target name = d && doc = d && o.surface surface = d
  | .cancelTarget name | .targetInfo name | .dispatch name _ => o.target name = d
  | .metrics | .debug | .isClosed | .panic _ => true
  | .drain | .dropQueue | .finish => false

/-- Whether all commands of a script act on no document but this one. -/
def scriptActsOn (o : Ownership) (d : DocumentId) : List Command → Bool
  | [] => true
  | c :: rest => c.actsOn o d && scriptActsOn o d rest

def scriptsActOn (o : Ownership) (d : DocumentId) : List (List Command) → Bool
  | [] => true
  | s :: rest => scriptActsOn o d s && scriptsActOn o d rest

end

theorem scriptActsOn_iff {o : Ownership} {d : DocumentId} {script : Script} :
    scriptActsOn o d script = true ↔ ∀ c ∈ script, c.actsOn o d = true := by
  induction script with
  | nil => simp [scriptActsOn]
  | cons c rest ih => simp [scriptActsOn, ih]

theorem scriptActsOn_headD {o : Ownership} {d : DocumentId} {scripts : List Script}
    (h : scriptsActOn o d scripts = true) : scriptActsOn o d (scripts.headD []) = true := by
  cases scripts with
  | nil => rfl
  | cons s rest =>
      rw [scriptsActOn, Bool.and_eq_true] at h
      exact h.1

theorem scriptsActOn_tail {o : Ownership} {d : DocumentId} {scripts : List Script}
    (h : scriptsActOn o d scripts = true) : scriptsActOn o d scripts.tail = true := by
  cases scripts with
  | nil => rfl
  | cons s rest =>
      rw [scriptsActOn, Bool.and_eq_true] at h
      exact h.2

/-- Whether a command concerns the queue as a whole. -/
def Command.isShared : Command → Bool
  | .drain | .dropQueue | .finish => true
  | _ => false

/-- Whether a command stays when those of other documents are left out. -/
def Command.isKept (o : Ownership) (d : DocumentId) (c : Command) : Bool :=
  c.isShared || c.actsOn o d

def Surface.actsOn (o : Ownership) (d : DocumentId) (s : Surface) : Prop :=
  scriptsActOn o d s.onLive = true ∧ scriptsActOn o d s.onApply = true

def Resolver.actsOn (o : Ownership) (d : DocumentId) (r : Resolver) : Prop :=
  scriptsActOn o d r.onResolve = true

section

variable {o : Ownership} {x : DocumentId} {s : Surface}

theorem Surface.actsOn.nextLive (h : s.actsOn o x) : s.nextLive.actsOn o x :=
  ⟨scriptsActOn_tail h.1, h.2⟩

theorem Surface.actsOn.nextApply (h : s.actsOn o x) : s.nextApply.actsOn o x :=
  ⟨h.1, scriptsActOn_tail h.2⟩

end

/-! ### What can be told of a document -/

/-- Something that happened to a document. -/
inductive Deed where
  | ended (outcome : Outcome)
  /-- A panic left a pass. -/
  | unwound
  | applied (surface : String) (delta : Delta)
  deriving DecidableEq

/-- What an event tells of a document. -/
def Event.deed? (d : DocumentId) : Event → Option Deed
  | ended _ r o => if r.doc = d then some (.ended o) else none
  | unwound _ r => if r.doc = d then some .unwound else none
  | applied surface j => if j.target.doc = d then some (.applied surface j.delta) else none
  | _ => none

/-- What happened to a document, the latest first. -/
def Editor.deeds (e : Editor) (d : DocumentId) : List Deed := e.journal.filterMap (Event.deed? d)

/-- What can be read of a document. -/
structure Sight where
  installed : Bool
  published : Option (List Highlight)
  /-- Whether a pass is running, if the document is installed. -/
  running : Option Bool
  deriving DecidableEq

def Editor.sight (e : Editor) (d : DocumentId) : Sight where
  installed := e.documents.contains d
  published := e.published? d
  running := (e.slot? d).map fun s => s.2.gate.busy

end Highlighting
