/-
Counts of how passes ended, and how long the successful ones took.

Counters are sixty-four bits wide and wrap.  The duration is smoothed: each
successful pass moves the average a fifth of the way towards its own.
-/
import Highlighting.Duration
import Highlighting.Outcome

namespace Highlighting

structure Counters where
  published : UInt64 := 0
  unchanged : UInt64 := 0
  dropped : UInt64 := 0
  cancelled : UInt64 := 0
  failed : UInt64 := 0
  notInstalled : UInt64 := 0
  targetGone : UInt64 := 0
  /-- Highlights added by all published passes together. -/
  added : UInt64 := 0
  /-- Highlights removed by all published passes together. -/
  removed : UInt64 := 0
  deriving DecidableEq, Repr

namespace Counters

/-- Passes that ran to their end, whether or not they changed anything. -/
def completed (c : Counters) : UInt64 := c.published + c.unchanged

def record (c : Counters) : Outcome → Counters
  | .published added removed =>
    { c with
      published := c.published + 1
      added := c.added + UInt64.ofNat added
      removed := c.removed + UInt64.ofNat removed }
  | .unchanged => { c with unchanged := c.unchanged + 1 }
  | .dropped => { c with dropped := c.dropped + 1 }
  | .cancelled _ => { c with cancelled := c.cancelled + 1 }
  | .failed _ => { c with failed := c.failed + 1 }
  | .notInstalled => { c with notInstalled := c.notInstalled + 1 }
  | .targetGone => { c with targetGone := c.targetGone + 1 }

end Counters

/-- The weight of the latest pass in the average. -/
def smoothing : Float := 0.2

/-- The average after one more value; the first value is the average of itself. -/
def smooth (average : Option Float) (next : Float) : Float :=
  match average with
  | none => next
  | some value => smoothing * next + (1.0 - smoothing) * value

structure Metrics where
  counters : Counters := {}
  /-- Smoothed duration of the successful passes in milliseconds, if there were any. -/
  passMillis : Option Float := none

namespace Metrics

def empty : Metrics := {}

/-- Counts one more pass.  Only successful ones enter the average. -/
def record (m : Metrics) (o : Outcome) (elapsed : Duration) : Metrics where
  counters := m.counters.record o
  passMillis := if o.isSuccess then some (smooth m.passMillis elapsed.toMillis) else m.passMillis

/-- The smoothed duration of the successful passes, if there were any. -/
def averagePass (m : Metrics) : Except Duration.Unrepresentable (Option Duration) :=
  match m.passMillis with
  | none => .ok none
  | some ms => some <$> Duration.ofMillis ms

end Metrics

end Highlighting
