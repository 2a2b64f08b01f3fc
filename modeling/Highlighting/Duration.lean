/-
Durations in nanoseconds, and their passage through floating point.

Averages are kept as floating-point milliseconds.  Going back, the exact value
of the number of seconds is rounded to the nearest nanosecond, and one halfway
between two goes to the even one.
-/
namespace Highlighting

structure Duration where
  secs : UInt64
  nanos : UInt32
  deriving DecidableEq, Repr

/-- The quotient rounded to the nearest natural number, halves to the even one. -/
def roundDiv (num den : Nat) : Nat :=
  let q := num / den
  let r := 2 * (num % den)
  if den < r || (r == den && q % 2 == 1) then q + 1 else q

/-- A finite number of at least zero: `mantissa`, moved left by `exponent` binary places and right
by 1075. -/
structure Binary where
  mantissa : Nat
  exponent : Nat

/-- The exact value of a number of at least zero; there is none for infinity and for no number. -/
def Binary.ofFloat? (x : Float) : Option Binary :=
  let bits := x.toBits.toNat
  let exponent := (bits >>> 52) % 2048
  let fraction := bits % (1 <<< 52)
  if exponent = 2047 then none
  else if exponent = 0 then some ⟨fraction, 1⟩
  else some ⟨(1 <<< 52) + fraction, exponent⟩

namespace Duration

/-- The reason a number of seconds is no duration. -/
inductive Unrepresentable where
  | tooLong
  deriving DecidableEq, Repr

def Unrepresentable.message : Unrepresentable → String
  | tooLong => "cannot convert float seconds to Duration: value is either too big or NaN"

def zero : Duration := ⟨0, 0⟩

def nanosPerSecond : Nat := 1000000000

/-- The nearest number of seconds. -/
def toSeconds (d : Duration) : Float :=
  d.secs.toFloat + d.nanos.toFloat / 1e9

def toMillis (d : Duration) : Float := d.toSeconds * 1000.0

/-- The duration of a number of nanoseconds, if its seconds fit. -/
def ofNanos (n : Nat) : Except Unrepresentable Duration :=
  let secs := n / nanosPerSecond
  if secs < UInt64.size then .ok ⟨UInt64.ofNat secs, UInt32.ofNat (n % nanosPerSecond)⟩
  else .error .tooLong

/-- The duration nearest to a number of seconds of at least zero. -/
def ofSeconds (x : Float) : Except Unrepresentable Duration :=
  match Binary.ofFloat? x with
  | none => .error .tooLong
  | some b => ofNanos (roundDiv ((b.mantissa <<< b.exponent) * nanosPerSecond) (1 <<< 1075))

def ofMillis (x : Float) : Except Unrepresentable Duration := ofSeconds (x / 1000.0)

end Duration

end Highlighting
