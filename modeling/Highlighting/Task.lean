/-
Work that may panic, and how it ends.
-/
namespace Highlighting

/-- What a panic carries: a message, or something that cannot be shown. -/
inductive Payload where
  | text (message : String)
  | other
  deriving DecidableEq, Repr

def Payload.message : Payload → String
  | text m => m
  | other => "non-string panic payload"

/-- Work that either returns a text or panics. -/
abbrev Work := Except Payload String

namespace Work

inductive Ending where
  | value (text : String)
  | panicked (message : String)
  /-- The work was called off before it started. -/
  | cancelled
  deriving DecidableEq, Repr

/-- Runs the work and catches its panic. -/
def run : Work → Ending
  | .ok v => .value v
  | .error p => .panicked p.message

/-- Calls the work off before it starts. -/
def abort (_ : Work) : Ending := .cancelled

/-- The complaint about a thread name with a zero byte: where the first one is, and all the bytes. -/
def zeroByteMessage (position : Nat) (bytes : List UInt8) : String :=
  "thread name may not contain interior null bytes: NulError(" ++ toString position ++ ", [" ++
    ", ".intercalate (bytes.map fun b => toString b.toNat) ++ "])"

/-- The work on a thread with a name, which it puts before its value.  There is no thread whose
name holds a zero byte. -/
def runOn (thread : String) (w : Work) : Except Payload Ending :=
  let bytes := thread.toUTF8.toList
  match bytes.findIdx? (· == 0) with
  | some i => .error (.text (zeroByteMessage i bytes))
  | none => .ok (run (w.map fun v => thread ++ "/" ++ v))

end Work

end Highlighting
