/-!
# UTF-8

Text as bytes and bytes as text. Decoding is a machine that takes one byte at a time; it finds the
characters, and the ill-formed pieces between them, each as long as a character could have gone on.
-/

namespace WireReplay

abbrev Bytes := List UInt8

namespace Text

def bytes (s : String) : Bytes := s.toList.flatMap String.utf8EncodeChar

namespace Utf8

inductive State
  | start
  /-- In a character of which `value` is read: the next byte is in `low` to `high`, and `left`
  more follow it. -/
  | within (value : Nat) (left : Nat) (low high : UInt8)
deriving DecidableEq, Repr

def enter (b : UInt8) : List (Option Char) × State :=
  let value (mask : Nat) := b.toNat % mask
  if b < 0x80 then ([some (Char.ofNat b.toNat)], .start)
  else if b < 0xC2 then ([none], .start)
  else if b < 0xE0 then ([], .within (value 0x20) 0 0x80 0xBF)
  else if b = 0xE0 then ([], .within (value 0x10) 1 0xA0 0xBF)
  else if b = 0xED then ([], .within (value 0x10) 1 0x80 0x9F)
  else if b < 0xF0 then ([], .within (value 0x10) 1 0x80 0xBF)
  else if b = 0xF0 then ([], .within (value 0x08) 2 0x90 0xBF)
  else if b < 0xF4 then ([], .within (value 0x08) 2 0x80 0xBF)
  else if b = 0xF4 then ([], .within (value 0x08) 2 0x80 0x8F)
  else ([none], .start)

/-- Takes one byte. A byte that cannot go on with a character ends an ill-formed piece and is
taken as the first of the next character. -/
def step (b : UInt8) : State → List (Option Char) × State
  | .start => enter b
  | .within value left low high =>
    if low ≤ b ∧ b ≤ high then
      let value := value * 64 + b.toNat % 64
      match left with
      | 0 => ([some (Char.ofNat value)], .start)
      | left + 1 => ([], .within value left 0x80 0xBF)
    else (none :: (enter b).1, (enter b).2)

def scan (state : State) : Bytes → List (Option Char)
  | [] => if state = .start then [] else [none]
  | b :: rest => (step b state).1 ++ scan (step b state).2 rest

end Utf8

def decode? (bs : Bytes) : Option String := do
  let chars ← (Utf8.scan .start bs).mapM id
  return String.ofList chars

def replacement : Char := '\uFFFD'

/-- The text of bytes, each ill-formed piece of which is replaced. -/
def lossy (bs : Bytes) : String :=
  String.ofList ((Utf8.scan .start bs).map (·.getD replacement))

end Text

end WireReplay
