import WireReplay.Replay.Capture
import WireReplay.Replay.Settings
import WireReplay.Wire.Link

/-!
# The turn of one payload

On an open link the payload is sent whole, and then everything that comes back is captured, until
the peer closes, falls silent or fails, or the run is cancelled.
-/

namespace WireReplay

inductive Verdict
  | closed
  | silent
  | connectFailed (target : String) (fault : Fault)
  | connectTimedOut (target : String) (millis : Nat)
  | writeFailed (fault : Fault)
  | writeTimedOut (millis : Nat)
  | readFailed (fault : Fault)
  | cancelled
deriving DecidableEq, Repr

def cancelledReason : String := "run cancelled"

namespace Verdict

def outcome : Verdict → Outcome
  | closed => .ok
  | silent => .timeout
  | cancelled => .cancelled
  | _ => .ioError

def error : Verdict → Option String
  | closed => none
  | silent => none
  | connectFailed target fault => some (Failure.connectFailed target fault).message
  | connectTimedOut target millis => some (Failure.connectTimedOut target millis).message
  | writeFailed fault => some s!"write failed: {fault.describe}"
  | writeTimedOut millis => some s!"write timed out after {millis} ms"
  | readFailed fault => some s!"read failed: {fault.describe}"
  | cancelled => some cancelledReason

end Verdict

structure Turn where
  /-- None if the turn never ends. -/
  verdict : Option Verdict
  received : Bytes
  clock : Clock
  link : Link

def captureRoom : Nat := 8192

namespace Link

/-- Captures what the peer sends, behind what was `received` before. Every read has the whole
`timeout` to itself. -/
def capture (link : Link) (timeout : Duration) (clock : Clock) (received : Bytes) : Turn :=
  if clock.isCancelled then ⟨some .cancelled, received, clock, link⟩
  else
    match _h : link.read captureRoom ⟨timeout.deadline clock.now, true⟩ clock with
    | ⟨.done [], clock, link⟩ => ⟨some .closed, received, clock, link⟩
    | ⟨.done (byte :: bytes), clock, link⟩ =>
      link.capture timeout clock (received ++ byte :: bytes)
    | ⟨.failed fault, clock, link⟩ => ⟨some (.readFailed fault), received, clock, link⟩
    | ⟨.timedOut, clock, link⟩ => ⟨some .silent, received, clock, link⟩
    | ⟨.cancelled, clock, link⟩ => ⟨some .cancelled, received, clock, link⟩
    | ⟨.never, clock, link⟩ => ⟨none, received, clock, link⟩
termination_by link.backlog
decreasing_by exact backlog_lt_of_read _h (List.cons_ne_nil _ _)

def exchange (link : Link) (data : Bytes) (settings : Replay.Settings) (halfClose : Bool)
    (clock : Clock) : Turn :=
  if clock.isCancelled then ⟨some .cancelled, [], clock, link⟩
  else
    let limit : Limit := ⟨settings.writeTimeout.deadline clock.now, true⟩
    match link.send data halfClose limit clock with
    | ⟨.done (), clock, link⟩ => link.capture settings.readTimeout clock []
    | ⟨.failed fault, clock, link⟩ => ⟨some (.writeFailed fault), [], clock, link⟩
    | ⟨.timedOut, clock, link⟩ =>
      ⟨some (.writeTimedOut settings.writeTimeout.boundedMillis), [], clock, link⟩
    | ⟨.cancelled, clock, link⟩ => ⟨some .cancelled, [], clock, link⟩
    | ⟨.never, clock, link⟩ => ⟨none, [], clock, link⟩

end Link

def Payload.captured (p : Payload) (verdict : Verdict) (received : Bytes) (elapsed : Duration) :
    Capture where
  name := p.name
  sent := p.bytes
  received
  outcome := verdict.outcome
  error := verdict.error
  elapsed

end WireReplay
