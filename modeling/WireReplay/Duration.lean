/-!
# Durations

Lengths of time to the nanosecond, and the whole milliseconds in which clocks, messages and
reports count them.
-/

namespace WireReplay

structure Duration where
  nanos : Nat
deriving DecidableEq, Repr, Inhabited

namespace Duration

def ofMillis (ms : Nat) : Duration := ⟨ms * 1000000⟩

def ofParts (seconds nanos : Nat) : Duration := ⟨seconds * 1000000000 + nanos⟩

def isZero (d : Duration) : Bool := d.nanos == 0

def millis (d : Duration) : Nat := d.nanos / 1000000

def boundedMillis (d : Duration) : Nat := min d.millis (UInt64.size - 1)

/-- The ticks of a millisecond clock that a timeout of this length lasts: a started tick is
waited for to its end. -/
def ticks (d : Duration) : Nat := (d.nanos + 999999) / 1000000

/-- Whether a clock can show the moment at which a timeout of this length ends. If not, it never
ends here. That is an approximation: a timer that cannot count so far ends it after decades. -/
def isMeasurable (d : Duration) : Bool := d.nanos < 0x8000000000000000 * 1000000000

def deadline (d : Duration) (now : Nat) : Option Nat :=
  if d.isMeasurable then some (now + d.ticks) else none

@[simp] theorem millis_ofMillis (ms : Nat) : (ofMillis ms).millis = ms := by
  simp [millis, ofMillis]

@[simp] theorem ticks_ofMillis (ms : Nat) : (ofMillis ms).ticks = ms := by
  simp only [ticks, ofMillis]; omega

end Duration

end WireReplay
