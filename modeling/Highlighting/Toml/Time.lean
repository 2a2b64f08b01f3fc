/-
The written form of dates and times.

A date and a time may stand alone or together, and together they may have an
offset.  Days must exist, in leap years too; seconds may be left out, and go up
to sixty for the sake of leap seconds.
-/
import Highlighting.Toml.Number

namespace Highlighting.Toml

/-- The number some decimal digits stand for. -/
def decimal? (digits : List Char) : Option Nat :=
  digits.foldlM (fun n c => if isDigit c then some (10 * n + (c.toNat - '0'.toNat)) else none) 0

/-- Whether some digits give a number within bounds. -/
def isBetween (low high : Nat) (digits : List Char) : Bool :=
  match decimal? digits with
  | some n => low ≤ n && n ≤ high
  | none => false

def isLeapYear (year : Nat) : Bool :=
  year % 4 == 0 && (year % 100 != 0 || year % 400 == 0)

def daysIn (year month : Nat) : Nat :=
  match month with
  | 2 => if isLeapYear year then 29 else 28
  | 4 | 6 | 9 | 11 => 30
  | _ => 31

def isDate : List Char → Bool
  | [y₁, y₂, y₃, y₄, '-', m₁, m₂, '-', d₁, d₂] =>
    match decimal? [y₁, y₂, y₃, y₄], decimal? [m₁, m₂] with
    | some year, some month =>
      1 ≤ month && month ≤ 12 && isBetween 1 (daysIn year month) [d₁, d₂]
    | _, _ => false
  | _ => false

/-- What may follow the seconds. -/
def isSubsecond : List Char → Bool
  | [] => true
  | '.' :: r => !r.isEmpty && r.all isDigit
  | _ => false

/-- What may follow the minutes. -/
def isSecond : List Char → Bool
  | [] => true
  | ':' :: s₁ :: s₂ :: r => isBetween 0 60 [s₁, s₂] && isSubsecond r
  | _ => false

def isClock : List Char → Bool
  | h₁ :: h₂ :: ':' :: m₁ :: m₂ :: r =>
    isBetween 0 23 [h₁, h₂] && isBetween 0 59 [m₁, m₂] && isSecond r
  | _ => false

def isOffset : List Char → Bool
  | [] => true
  | ['Z'] | ['z'] => true
  | [sign, h₁, h₂, ':', m₁, m₂] =>
    (sign == '+' || sign == '-') && isBetween 0 23 [h₁, h₂] && isBetween 0 59 [m₁, m₂]
  | _ => false

/-- A clock time with an offset or without. -/
def isZonedClock (s : List Char) : Bool :=
  let onClock (c : Char) : Bool := isDigit c || c == ':' || c == '.'
  isClock (s.takeWhile onClock) && isOffset (s.dropWhile onClock)

def isTime (s : List Char) : Bool :=
  isClock s || isDate s ||
    match s.drop 10 with
    | sep :: r => (sep == 'T' || sep == 't' || sep == ' ') && isDate (s.take 10) && isZonedClock r
    | [] => false

end Highlighting.Toml
