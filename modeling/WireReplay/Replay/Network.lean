import WireReplay.Replay.Turn

/-!
# The network

What a run connects to: the peers behind the target, each met by one attempt to connect.
-/

namespace WireReplay

/-- A target and the peers behind it. The `n`th attempt to connect meets the `n`th peer; behind
the last peer the last one is met again, and where there is none, a peer without a script. -/
structure Network where
  target : String
  peers : List PeerScript
deriving Repr

inductive Dialed
  | opened (link : Link)
  | refused (verdict : Verdict)
  | never

namespace Network

def peer (net : Network) (attempt : Nat) : PeerScript :=
  net.peers.getD attempt (net.peers.getLastD {})

def dial (net : Network) (attempt : Nat) (timeout : Duration) (clock : Clock) : Dialed × Clock :=
  match (net.peer attempt).dial ⟨timeout.deadline clock.now, true⟩ clock with
  | (.done link, clock) => (.opened link, clock)
  | (.failed fault, clock) => (.refused (.connectFailed net.target fault), clock)
  | (.timedOut, clock) => (.refused (.connectTimedOut net.target timeout.boundedMillis), clock)
  | (.cancelled, clock) => (.refused .cancelled, clock)
  | (.never, clock) => (.never, clock)

end Network

end WireReplay
