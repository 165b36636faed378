import WireReplay.Fault.SystemText

/-!
# Input and output faults

Why the system, or a library above it, refused to read, write, connect or open, and the text
that names each reason.
-/

namespace WireReplay

inductive FaultKind
  | connectionRefused
  | connectionReset
  | connectionAborted
  | notConnected
  | brokenPipe
  | timedOut
  | writeZero
  | interrupted
  | wouldBlock
  | unexpectedEof
  | permissionDenied
  | invalidInput
  | other
deriving DecidableEq, Repr, Inhabited

def FaultKind.describe : FaultKind → String
  | connectionRefused => "connection refused"
  | connectionReset => "connection reset"
  | connectionAborted => "connection aborted"
  | notConnected => "not connected"
  | brokenPipe => "broken pipe"
  | timedOut => "timed out"
  | writeZero => "write zero"
  | interrupted => "operation interrupted"
  | wouldBlock => "operation would block"
  | unexpectedEof => "unexpected end of file"
  | permissionDenied => "permission denied"
  | invalidInput => "invalid input parameter"
  | other => "other error"

/-- A fault: a number of the system, a bare kind, or a kind with a text of its own. -/
inductive Fault
  | system (code : Int)
  | bare (kind : FaultKind)
  | custom (kind : FaultKind) (text : String)
deriving DecidableEq, Repr, Inhabited

namespace Fault

def describe : Fault → String
  | system code => s!"{systemText code} (os error {code})"
  | bare kind => kind.describe
  | custom _ text => text

/-- Whether a signal broke the call off before it did anything. -/
def isInterrupted : Fault → Bool
  | system code => code == 4
  | bare kind => kind == .interrupted
  | custom kind _ => kind == .interrupted

def zeroByteInName : Fault :=
  custom .invalidInput "file name contained an unexpected NUL byte"

def notText : Fault := custom .invalidInput "stream did not contain valid UTF-8"

end Fault

end WireReplay
