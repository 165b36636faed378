import WireReplay.Duration
import WireReplay.Outcome
import WireReplay.Wire.Script

/-!
# Payloads and captures

What goes into a replay and what comes out of it, payload by payload.
-/

namespace WireReplay

/-- A named sequence of bytes that is sent as one test case. -/
structure Payload where
  name : String
  bytes : Bytes
deriving DecidableEq, Repr, Inhabited

structure Capture where
  name : String
  sent : Bytes
  received : Bytes
  outcome : Outcome
  error : Option String
  elapsed : Duration
deriving DecidableEq, Repr, Inhabited

/-- The capture of a payload that never got a turn. -/
def Payload.skipped (p : Payload) (outcome : Outcome) (reason : String) : Capture where
  name := p.name
  sent := p.bytes
  received := []
  outcome
  error := some reason
  elapsed := .ofMillis 0

end WireReplay
