import WireReplay.Replay.Settings
import WireReplay.Replay.Network

/-!
# Relays

A block of data is sent to a peer, and whatever comes back is passed on to an output as it
arrives. The output is a connection too, of which only the write side is used.
-/

namespace WireReplay.Relay

/-- What a relay moved. It ends well when the peer closes or falls silent. -/
structure Summary where
  sent : Nat
  received : Nat
  outcome : Outcome
deriving DecidableEq, Repr

inductive Finish
  | finished (summary : Summary)
  | failed (fault : Fault)
  | never
deriving DecidableEq, Repr

structure State where
  clock : Clock
  peer : Link
  output : Link
  received : Nat := 0

def room : Nat := 1024

def patience : Limit := ⟨none, false⟩

/-- What ends a wait with such a timeout. A relay heeds no cancellation. -/
def limit (timeout : Option Duration) (clock : Clock) : Limit :=
  ⟨timeout.bind (·.deadline clock.now), false⟩

/-- What a call that did not succeed makes of the relay; a deadline that passed is for the caller
to name. -/
def Finish.ofEnding {β : Type} (timedOut : Finish) : Ending β → Finish
  | .failed fault => .failed fault
  | .timedOut => timedOut
  | _ => .never

def State.passOn (s : State) (bytes : Bytes) : Ending Unit × State :=
  match s.output.send bytes false patience s.clock with
  | ⟨.done (), clock, output⟩ =>
    (.done (), { s with clock, output, received := s.received + bytes.length })
  | ⟨ending, clock, output⟩ => (ending, { s with clock, output })

theorem State.passOn_peer (s : State) (bytes : Bytes) : (s.passOn bytes).2.peer = s.peer := by
  unfold State.passOn
  split <;> rfl

def State.pump (s : State) (sent : Nat) (idle : Option Duration) : Finish × State :=
  match _h : s.peer.read room (limit idle s.clock) s.clock with
  | ⟨.done [], clock, peer⟩ => (.finished ⟨sent, s.received, .ok⟩, { s with clock, peer })
  | ⟨.done (byte :: bytes), clock, peer⟩ =>
    match _hp : { s with clock, peer }.passOn (byte :: bytes) with
    | (.done (), s') => s'.pump sent idle
    | (ending, s') => (.ofEnding .never ending, s')
  | ⟨ending, clock, peer⟩ =>
    (.ofEnding (.finished ⟨sent, s.received, .timeout⟩) ending, { s with clock, peer })
termination_by s.peer.backlog
decreasing_by
  have hb := Link.backlog_lt_of_read _h (List.cons_ne_nil _ _)
  have hp := State.passOn_peer { s with clock, peer } (byte :: bytes)
  rw [_hp] at hp
  exact hp ▸ hb

/-- Relays `data`: sends it whole to the peer, then passes on what comes back. -/
def State.relay (s : State) (data : Bytes) (settings : Settings) : Finish × State :=
  match s.peer.send data settings.halfClose (limit settings.writeTimeout s.clock) s.clock with
  | ⟨.done (), clock, peer⟩ => { s with clock, peer }.pump data.length settings.idleTimeout
  | ⟨ending, clock, peer⟩ =>
    (.ofEnding (.failed (.custom .timedOut
      s!"write timed out after {settings.writeTimeout.boundedMillis} ms")) ending,
      { s with clock, peer })

end WireReplay.Relay

namespace WireReplay

def relay (peer output : PeerScript) (data : Bytes) (settings : Relay.Settings) :
    Relay.Finish × Relay.State :=
  Relay.State.relay { clock := {}, peer := { script := peer }, output := { script := output } }
    data settings

end WireReplay
