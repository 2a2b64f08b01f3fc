/-
Tokens: cancellation and progress.

A token can be cancelled, and counts the work reported through it.  Cancelling
reaches every token made as a child of it, however far down; it never reaches up
or sideways.  That is left to a library of handles, of which there is one here: a
handle carries the line of scopes it stands in, its own first, and is cancelled
when any of them is.  Progress is apart from that: a meter is shared by a token and
its copies only.
-/
import Highlighting.Registry

namespace Highlighting

/-! ### Cancellation -/

/-- A library for cancellation: handles, and the state behind all of them. -/
class Cancellation (σ : Type) (κ : outParam Type) where
  /-- There are no handles yet. -/
  start : σ
  /-- A handle with nothing above it. -/
  root : σ → κ × σ
  /-- A handle right below another one. -/
  below : σ → κ → κ × σ
  cancel : σ → κ → σ
  isCancelled : σ → κ → Bool

/-- A place in the tree of cancellation: the scopes from here up to the root. -/
structure Lineage where
  own : Nat
  above : List Nat := []
  deriving DecidableEq, Repr

def Lineage.scopes (l : Lineage) : List Nat := l.own :: l.above

structure Scopes where
  /-- The number of scopes so far; they are numbered from zero. -/
  count : Nat := 0
  /-- The scopes cancelled so far. -/
  cancelled : List Nat := []
  deriving DecidableEq, Repr

instance : Cancellation Scopes Lineage where
  start := {}
  root s := (⟨s.count, []⟩, { s with count := s.count + 1 })
  below s l := (⟨s.count, l.scopes⟩, { s with count := s.count + 1 })
  cancel s l := { s with cancelled := l.own :: s.cancelled }
  isCancelled s l := l.scopes.any s.cancelled.contains

/-! ### Tokens -/

/-- A handle, and the number of the meter that goes with it. -/
structure Token (κ : Type := Lineage) where
  lineage : κ
  meter : Nat
  deriving DecidableEq, Repr

/-- The state behind all tokens. -/
structure Tokens (σ : Type := Scopes) where
  cancellation : σ
  /-- What the meters show. -/
  meters : List UInt32 := []
  deriving DecidableEq, Repr

namespace Tokens

variable {σ κ : Type}

/-- What has been reported through a token and its copies. -/
def workDone (ts : Tokens σ) (t : Token κ) : UInt32 := ts.meters[t.meter]?.getD 0

/-- Reports some work; the sum wraps. -/
def worked (ts : Tokens σ) (t : Token κ) (units : UInt32) : Tokens σ :=
  { ts with meters := ts.meters.modify t.meter (· + units) }

/-- A token for a handle, with nothing done yet. -/
def wrap (ts : Tokens σ) (l : κ) : Token κ × Tokens σ :=
  (⟨l, ts.meters.length⟩, { ts with meters := ts.meters ++ [0] })

variable [Cancellation σ κ]

def empty : Tokens σ := ⟨Cancellation.start, []⟩

def isCancelled (ts : Tokens σ) (l : κ) : Bool := Cancellation.isCancelled ts.cancellation l

def cancel (ts : Tokens σ) (l : κ) : Tokens σ :=
  { ts with cancellation := Cancellation.cancel ts.cancellation l }

/-- A new scope with nothing above it. -/
def newScope (ts : Tokens σ) : κ × Tokens σ :=
  let (l, s) := Cancellation.root ts.cancellation
  (l, { ts with cancellation := s })

/-- A new scope right below another one. -/
def childScope (ts : Tokens σ) (l : κ) : κ × Tokens σ :=
  let (l, s) := Cancellation.below ts.cancellation l
  (l, { ts with cancellation := s })

def new (ts : Tokens σ) : Token κ × Tokens σ :=
  let (l, ts) := ts.newScope
  ts.wrap l

def child (ts : Tokens σ) (t : Token κ) : Token κ × Tokens σ :=
  let (l, ts) := ts.childScope t.lineage
  ts.wrap l

end Tokens

namespace Tokens

/-- The number of scopes handed out. -/
abbrev scopes (ts : Tokens) : Nat := ts.cancellation.count

/-- The scopes cancelled so far. -/
abbrev cancelled (ts : Tokens) : List Nat := ts.cancellation.cancelled

theorem isCancelled_eq (ts : Tokens) (l : Lineage) :
    ts.isCancelled l = l.scopes.any ts.cancelled.contains := rfl

@[simp] theorem cancelled_cancel (ts : Tokens) (l : Lineage) :
    (ts.cancel l).cancelled = l.own :: ts.cancelled := rfl

@[simp] theorem scopes_newScope (ts : Tokens) : ts.newScope.2.scopes = ts.scopes + 1 := rfl

@[simp] theorem meters_newScope (ts : Tokens) : ts.newScope.2.meters = ts.meters := rfl

end Tokens

/-! ### Tokens under names -/

/-- What can be done with tokens that are kept under names. -/
inductive TokenStep where
  | new (name : String)
  | copy (name source : String)
  | child (name parent : String)
  /-- A token with the cancellation of another one and its own progress. -/
  | wrap (name source : String)
  | cancel (name : String)
  /-- Forgets the name; what was made from the token stays. -/
  | drop (name : String)
  | worked (name : String) (units : UInt32)
  /-- Asks whether the token is cancelled. -/
  | poll (name : String)
  deriving DecidableEq, Repr

/-- The tokens that are kept under names, and the state behind them. -/
structure Desk (σ κ : Type) where
  tokens : Tokens σ
  names : Registry String (Token κ) := .empty

namespace Desk

variable {σ κ : Type}

/-- Puts a token made from the state under a name. -/
def put (d : Desk σ κ) (name : String) (made : Token κ × Tokens σ) : Desk σ κ :=
  ⟨made.2, d.names.set name made.1⟩

/-- Does something with the token under a name; without one, nothing. -/
def withToken {α : Type} (d : Desk σ κ) (name : String) (f : Token κ → Option α × Desk σ κ) :
    Option α × Desk σ κ :=
  match d.names.get? name with
  | some t => f t
  | none => (none, d)

variable [Cancellation σ κ]

def empty : Desk σ κ := ⟨.empty, .empty⟩

/-- Does one step.  Those that ask or report answer with a truth value. -/
def step (d : Desk σ κ) : TokenStep → Option Bool × Desk σ κ
  | .new name => (none, d.put name d.tokens.new)
  | .copy name source => d.withToken source fun t => (none, d.put name (t, d.tokens))
  | .child name parent => d.withToken parent fun t => (none, d.put name (d.tokens.child t))
  | .wrap name source => d.withToken source fun t => (none, d.put name (d.tokens.wrap t.lineage))
  | .cancel name => d.withToken name fun t => (none, { d with tokens := d.tokens.cancel t.lineage })
  | .drop name => (some (d.names.contains name), { d with names := d.names.erase name })
  | .worked name units => d.withToken name fun t =>
    (some (d.tokens.isCancelled t.lineage), { d with tokens := d.tokens.worked t units })
  | .poll name => d.withToken name fun t => (some (d.tokens.isCancelled t.lineage), d)

/-- The named tokens, with whether they are cancelled and what was reported through them. -/
def readings (d : Desk σ κ) : List (String × Bool × UInt32) :=
  d.names.entries.map fun (name, t) =>
    (name, d.tokens.isCancelled t.lineage, d.tokens.workDone t)

/-- Does the steps in turn; each answer comes with the readings afterwards. -/
def run (d : Desk σ κ) :
    List TokenStep → List (Option Bool × List (String × Bool × UInt32)) × Desk σ κ
  | [] => ([], d)
  | s :: rest =>
    let (answer, d') := d.step s
    let (log, last) := d'.run rest
    ((answer, d'.readings) :: log, last)

end Desk

/-- A desk whose tokens are cancelled by scopes. -/
abbrev TokenDesk := Desk Scopes Lineage

def TokenDesk.empty : TokenDesk := Desk.empty

end Highlighting
