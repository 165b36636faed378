import WireReplay.Failure
import WireReplay.Text.Blank

/-!
# Endpoints

A host and a port that a replay or a relay can be aimed at, and how they are displayed.
-/

namespace WireReplay

structure Endpoint where
  host : String
  port : UInt16
deriving DecidableEq, Repr

namespace Endpoint

def unbracket : List Char → List Char
  | '[' :: rest => if rest.getLast? = some ']' then rest.dropLast else '[' :: rest
  | host => host

/-- The endpoint that is meant by a host, with blanks and brackets around it, and a port. -/
def make (host : String) (port : UInt16) : Except Failure Endpoint :=
  let trimmed := Text.trim host.toList
  if trimmed.isEmpty then .error (.invalidEndpoint "host must not be empty")
  else if port = 0 then .error (.invalidEndpoint "port must be in the range 1-65535")
  else .ok ⟨String.ofList (unbracket trimmed), port⟩

/-- The endpoint as messages show it: a host with colons stands in brackets. -/
def display (e : Endpoint) : String :=
  if ':' ∈ e.host.toList then s!"[{e.host}]:{e.port.toNat}" else s!"{e.host}:{e.port.toNat}"

end Endpoint

end WireReplay
