/-
A gate that lets one in at a time.

The gate guards a value.  Who finds it busy is turned away at once and does not
wait; who is in may read and replace the value until leaving.
-/
namespace Highlighting

structure Gate (α : Type) where
  value : α
  busy : Bool := false
  deriving DecidableEq, Repr

namespace Gate

variable {α : Type}

/-- The gate with somebody in, unless there is already. -/
def enter? (g : Gate α) : Option (Gate α) :=
  if g.busy then none else some { g with busy := true }

def leave (g : Gate α) : Gate α := { g with busy := false }

def set (g : Gate α) (a : α) : Gate α := { g with value := a }

/-- What can be asked of a gate by one who may be in and by somebody else. -/
inductive Request (α : Type) where
  | enter
  /-- Somebody else enters and leaves at once. -/
  | visit
  | set (a : α)
  | get
  | leave

inductive Reply (α : Type) where
  | entered (a : α)
  | refused
  | value (a : α)
  | left
  /-- The one who asks is not in. -/
  | notHeld
  deriving DecidableEq, Repr

def ask (g : Gate α) : Request α → Reply α × Gate α
  | .enter =>
    match g.enter? with
    | some inside => (.entered g.value, inside)
    | none => (.refused, g)
  | .visit =>
    match g.enter? with
    | some inside => (.entered g.value, inside.leave)
    | none => (.refused, g)
  | .set a => if g.busy then (.value a, g.set a) else (.notHeld, g)
  | .get => if g.busy then (.value g.value, g) else (.notHeld, g)
  | .leave => if g.busy then (.left, g.leave) else (.notHeld, g)

/-- Asks in turn; each reply comes with whether the gate is busy afterwards. -/
def run (g : Gate α) : List (Request α) → List (Reply α × Bool) × Gate α
  | [] => ([], g)
  | r :: rest =>
    let (reply, g') := g.ask r
    let (log, last) := g'.run rest
    ((reply, g'.busy) :: log, last)

end Gate

end Highlighting
