import WireReplay.Log
import WireReplay.Replay.Network

/-!
# A whole run

Payloads are replayed one at a time, in order, and each leaves one capture. A run is a fold over
the payloads: between two of them its state says what became of the line to the target.
-/

namespace WireReplay.Replay

/-- The line to the target, between two payloads. -/
inductive Line
  | fresh
  | unopened
  | shared (link : Link)
  /-- The one connection is gone: no payload gets a turn any more. -/
  | lost (outcome : Outcome) (reason : String)
  /-- A turn never ends, and so neither does the run. -/
  | stuck
deriving DecidableEq, Repr

structure State where
  clock : Clock
  line : Line
  attempts : Nat := 0
  /-- The connections that were opened and are given up, in order. -/
  links : List Link := []
  captures : List Capture := []
  log : List LogLine := []
deriving DecidableEq, Repr

namespace State

def record (s : State) (clock : Clock) (capture : Capture) : State :=
  { s with clock, captures := s.captures ++ [capture] }

def skip (s : State) (p : Payload) (outcome : Outcome) (reason : String) : State :=
  s.record s.clock (p.skipped outcome reason)

def stall (s : State) (clock : Clock) : State := { s with clock, line := .stuck }

def replayFresh (s : State) (net : Network) (settings : Settings) (p : Payload) : State :=
  let dialing := { s with attempts := s.attempts + 1 }
  match net.dial s.attempts settings.connectTimeout s.clock with
  | (.opened link, clock) =>
    let turn := link.exchange p.bytes settings settings.halfClose clock
    let closed := { dialing with links := s.links ++ [turn.link.close] }
    match turn.verdict with
    | some verdict =>
      closed.record turn.clock
        (p.captured verdict turn.received (.ofMillis (turn.clock.now - s.clock.now)))
    | none => closed.stall turn.clock
  | (.refused verdict, clock) =>
    dialing.record clock (p.captured verdict [] (.ofMillis (clock.now - s.clock.now)))
  | (.never, clock) => dialing.stall clock

def warnSkipped (s : State) (net : Network) (p : Payload) (outcome : Outcome) (count : Nat) :
    State :=
  if count = 0 then s
  else
    let ended := s!"Connection to {net.target} ended after '{p.name}' ({outcome.name})"
    { s with log := s.log ++ [.warn s!"{ended}, skipping {count} payloads"] }

/-- Replays a payload on the shared connection. Only a peer that fell silent leaves it fit for
the next payload. The turn began at `started`, and `total` payloads are to be replayed. -/
def replayShared (s : State) (net : Network) (settings : Settings) (total : Nat) (link : Link)
    (started : Nat) (p : Payload) : State :=
  if s.clock.isCancelled then { s with line := .shared link }.skip p .cancelled cancelledReason
  else
    let turn := link.exchange p.bytes settings false s.clock
    match turn.verdict with
    | none => s.stall turn.clock
    | some verdict =>
      let s := s.record turn.clock
        (p.captured verdict turn.received (.ofMillis (turn.clock.now - started)))
      if verdict = .silent then { s with line := .shared turn.link }
      else
        let s := { s with links := s.links ++ [turn.link.close] }
        if verdict = .cancelled then { s with line := .lost .cancelled cancelledReason }
        else
          let reason := s!"connection ended after '{p.name}'"
          { s with line := .lost .connectionClosedEarly reason }.warnSkipped net p verdict.outcome
            (total - s.captures.length)

def replayFirst (s : State) (net : Network) (settings : Settings) (total : Nat) (p : Payload) :
    State :=
  let dialing := { s with attempts := s.attempts + 1 }
  match net.dial s.attempts settings.connectTimeout s.clock with
  | (.opened link, clock) =>
    { dialing with clock }.replayShared net settings total link s.clock.now p
  | (.refused verdict, clock) =>
    let s := dialing.record clock (p.captured verdict [] (.ofMillis (clock.now - s.clock.now)))
    if verdict = .cancelled then { s with line := .lost .cancelled cancelledReason }
    else
      let reason := verdict.error.getD ""
      { s with line := .lost .connectionClosedEarly s!"connection never opened: {reason}" }
  | (.never, clock) => dialing.stall clock

def replay (net : Network) (settings : Settings) (total : Nat) (s : State) (p : Payload) : State :=
  match s.line with
  | .stuck => s
  | .lost outcome reason => s.skip p outcome reason
  | .fresh =>
    if s.clock.isCancelled then s.skip p .cancelled cancelledReason
    else s.replayFresh net settings p
  | .unopened =>
    if s.clock.isCancelled then s.skip p .cancelled cancelledReason
    else s.replayFirst net settings total p
  | .shared link => s.replayShared net settings total link s.clock.now p

def close (s : State) : State :=
  match s.line with
  | .shared link => { s with line := .unopened, links := s.links ++ [link.close] }
  | _ => s

end State

def State.start (net : Network) (settings : Settings) (total : Nat) (cancelAt : Option Nat) :
    State where
  clock := { cancelAt }
  line := if settings.freshConnections then .fresh else .unopened
  log :=
    let habit := if settings.freshConnections then "connection per payload" else "single connection"
    let opening := LogLine.info s!"Replaying {total} payloads against {net.target} ({habit})"
    if settings.halfClose && !settings.freshConnections then
      [opening, .warn "Ignoring half-close while reusing one connection"]
    else [opening]

def State.after (net : Network) (settings : Settings) (total : Nat) (cancelAt : Option Nat)
    (payloads : List Payload) : State :=
  payloads.foldl (State.replay net settings total) (State.start net settings total cancelAt)

structure Account where
  captures : List Capture
  attempts : Nat
  links : List Link
  duration : Nat
  log : List LogLine
deriving DecidableEq, Repr

/-- Replays all payloads, with the run cancelled at `cancelAt`. None if the run never ends. -/
def run (net : Network) (settings : Settings) (payloads : List Payload)
    (cancelAt : Option Nat := none) : Option Account :=
  let s := (State.after net settings payloads.length cancelAt payloads).close
  if s.line = .stuck then none
  else some ⟨s.captures, s.attempts, s.links, s.clock.now, s.log⟩

end WireReplay.Replay
