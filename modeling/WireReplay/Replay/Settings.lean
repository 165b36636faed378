import WireReplay.Duration
import WireReplay.Failure

/-!
# Settings of a replay and of a relay

The timeouts and connection habits a replay or a relay is run with.
-/

namespace WireReplay

namespace Replay

structure Settings where
  connectTimeout : Duration := .ofMillis 5000
  /-- Longest silence between two deliveries of a reply. -/
  readTimeout : Duration := .ofMillis 2000
  writeTimeout : Duration := .ofMillis 5000
  freshConnections : Bool := true
  /-- Shut down the write side behind each payload; heeded with fresh connections only. -/
  halfClose : Bool := false
deriving DecidableEq, Repr, Inhabited

namespace Settings

def timeouts (s : Settings) : List (String × Duration) :=
  [("connect timeout", s.connectTimeout), ("read timeout", s.readTimeout),
    ("write timeout", s.writeTimeout)]

/-- The first timeout that is zero, with which every payload would fail at once, is refused. -/
def validate (s : Settings) : Except Failure Unit :=
  match s.timeouts.find? (·.2.isZero) with
  | some (name, _) => .error (.invalidOptions s!"{name} must be greater than 0")
  | none => .ok ()

end Settings

end Replay

namespace Relay

structure Settings where
  connectTimeout : Duration := .ofMillis 5000
  writeTimeout : Duration := .ofMillis 5000
  /-- Longest silence of the peer; `none` waits until it closes. -/
  idleTimeout : Option Duration := some (.ofMillis 2000)
  halfClose : Bool := false
deriving DecidableEq, Repr, Inhabited

end Relay

end WireReplay
