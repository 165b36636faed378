/-!
# Outcomes

How the turn of one payload, or a relay, ended, as reports name it.
-/

namespace WireReplay

/-- The end of one payload's turn. It is `ok` if the peer closed the connection after its reply, and
`timeout` if nothing more arrived within the read timeout. -/
inductive Outcome
  | ok
  | timeout
  /-- An earlier payload left the shared connection unusable. -/
  | connectionClosedEarly
  | ioError
  | cancelled
deriving DecidableEq, Repr, Inhabited

namespace Outcome

def isOk : Outcome → Bool
  | ok => true
  | _ => false

def name : Outcome → String
  | ok => "ok"
  | timeout => "timeout"
  | connectionClosedEarly => "connection_closed_early"
  | ioError => "io_error"
  | cancelled => "cancelled"

def all : List Outcome := [ok, timeout, connectionClosedEarly, ioError, cancelled]

def ofName? (s : String) : Option Outcome := all.find? (·.name == s)

theorem ofName?_name (o : Outcome) : ofName? o.name = some o := by
  cases o <;> decide

end Outcome

end WireReplay
