/-!
# A virtual clock

Waiting on a connection is a function of three moments: when the awaited thing is ready, when the
wait's own deadline is, and when the run is cancelled. Nothing but waiting takes time.
-/

namespace WireReplay

/-- The present moment, in milliseconds, and the moment of cancellation, if one is settled. -/
structure Clock where
  now : Nat := 0
  cancelAt : Option Nat := none
deriving DecidableEq, Repr, Inhabited

structure Limit where
  deadline : Option Nat
  cancellable : Bool
deriving DecidableEq, Repr, Inhabited

inductive Wake
  | ready
  | timedOut
  | cancelled
  | never
deriving DecidableEq, Repr, Inhabited

namespace Clock

def isCancelled (c : Clock) : Bool := c.cancelAt.any (· ≤ c.now)

def cancel (c : Clock) : Clock :=
  { c with cancelAt := some (c.cancelAt.elim c.now (min c.now)) }

def advance (c : Clock) (t : Nat) : Clock := { c with now := max c.now t }

def heeded (c : Clock) (limit : Limit) : Option Nat :=
  if limit.cancellable then c.cancelAt else none

/--
Waits for the moment `ready`, which for `none` never comes. What is ready needs no wait; an
expired deadline is seen next, then cancellation; of a deadline and a readiness at the same
moment the readiness wins.
-/
def wait (c : Clock) (limit : Limit) (ready : Option Nat) : Wake × Clock :=
  if ready.any (· ≤ c.now) then (.ready, c)
  else if limit.deadline.any (· ≤ c.now) then (.timedOut, c)
  else if (c.heeded limit).any fun k => ready.all (k ≤ ·) && limit.deadline.all (k ≤ ·) then
    (.cancelled, c.advance ((c.heeded limit).getD c.now))
  else match ready, limit.deadline with
    | some t, some d => if t ≤ d then (.ready, c.advance t) else (.timedOut, c.advance d)
    | some t, none => (.ready, c.advance t)
    | none, some d => (.timedOut, c.advance d)
    | none, none => (.never, c)

end Clock

end WireReplay
