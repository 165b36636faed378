import WireReplay.Relay

/-!
# Sending

All of an input is read before anything is connected; then it is relayed to the peer that the
connection leads to.
-/

namespace WireReplay

namespace Link

def gather (link : Link) (clock : Clock) (received : Bytes) : Moved Bytes :=
  match _h : link.read captureRoom Relay.patience clock with
  | ⟨.done [], clock, link⟩ => ⟨.done received, clock, link⟩
  | ⟨.done (byte :: bytes), clock, link⟩ => link.gather clock (received ++ byte :: bytes)
  | ⟨.failed fault, clock, link⟩ => ⟨.failed fault, clock, link⟩
  | ⟨_, clock, link⟩ => ⟨.never, clock, link⟩
termination_by link.backlog
decreasing_by exact backlog_lt_of_read _h (List.cons_ne_nil _ _)

end Link

structure Sent where
  /-- None if it never ends. -/
  result : Option (Except Failure Relay.Summary)
  clock : Clock
  attempts : Nat
  peer : Option Link
  output : Link

namespace Relay

def Finish.result : Finish → Option (Except Failure Summary)
  | .finished summary => some (.ok summary)
  | .failed fault => some (.error (.io fault))
  | .never => none

def sendData (net : Network) (output : Link) (data : Bytes) (settings : Settings) (clock : Clock) :
    Sent :=
  let refused (failure : Failure) (clock : Clock) : Sent :=
    ⟨some (.error failure), clock, 1, none, output⟩
  match (net.peer 0).dial (limit settings.connectTimeout clock) clock with
  | (.done peer, clock) =>
    let (finish, s) := State.relay { clock, peer, output } data settings
    ⟨finish.result, s.clock, 1, some s.peer, s.output⟩
  | (.failed fault, clock) => refused (.connectFailed net.target fault) clock
  | (.timedOut, clock) =>
    refused (.connectTimedOut net.target settings.connectTimeout.boundedMillis) clock
  | (_, clock) => ⟨none, clock, 1, none, output⟩

/-- Sends all of an input and passes what comes back on to an output. -/
def send (net : Network) (input output : PeerScript) (settings : Settings) : Sent :=
  let output : Link := { script := output }
  match Link.gather { script := input } {} [] with
  | ⟨.done data, clock, _⟩ => sendData net output data settings clock
  | ⟨.failed fault, clock, _⟩ => ⟨some (.error (.io fault)), clock, 0, none, output⟩
  | ⟨_, clock, _⟩ => ⟨none, clock, 0, none, output⟩

end Relay

end WireReplay
