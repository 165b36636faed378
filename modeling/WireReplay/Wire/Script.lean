import WireReplay.Fault
import WireReplay.Text.Utf8

/-!
# Scripts of a peer

What the other end of a connection does, written down beforehand: one list of steps for each kind
of call that can be made on the connection.
-/

namespace WireReplay

inductive Step (α : Type)
  /-- Nothing for some milliseconds after a call first comes to this step. -/
  | delay (ms : Nat)
  /-- Nothing before a fixed moment: a delay to which a call has come. -/
  | notBefore (moment : Nat)
  | cancel
  | hang
  | error (fault : Fault)
  | act (answer : α)
deriving DecidableEq, Repr

inductive Delivery
  | data (bytes : Bytes)
  | eof
  /-- Goes on once so many bytes in all were written to the peer. -/
  | awaitWritten (count : Nat)
  | awaitShutdown
  /-- Delivers all that was written and not yet echoed. -/
  | echo
deriving DecidableEq, Repr

/-- The whole behaviour of a peer on one connection. A write is answered by the number of bytes
accepted, and behind the last step of a list every call but a read succeeds at once. -/
structure PeerScript where
  connect : List (Step Empty) := []
  write : List (Step Nat) := []
  flush : List (Step Unit) := []
  shutdown : List (Step Unit) := []
  read : List (Step Delivery) := []
deriving DecidableEq, Repr

def PeerScript.unreachable : PeerScript := { connect := [.error (.system 101)] }

end WireReplay
