import WireReplay.Command.Invocation

/-!
# Arguments

What can be given on a command line, the spellings of it at each level of the line, and the values
that it takes.
-/

namespace WireReplay.CommandLine

inductive Slot
  | config
  | verbose
  | help
  | version
  | connectTimeout
  | readTimeout
  | writeTimeout
  | idleTimeout
  | reuseConnection
  | halfClose
  | output
  | host
  | port
  | corpus
deriving DecidableEq, Repr

/-- Where on the line a word stands: before the command, or behind one. -/
inductive Level
  | top
  | run
  | send
deriving DecidableEq, Repr

namespace Level

def longNames : Level → List (String × Slot)
  | top => [("config", .config), ("verbose", .verbose), ("help", .help), ("version", .version)]
  | run => [("config", .config), ("verbose", .verbose), ("help", .help),
      ("connect-timeout-ms", .connectTimeout), ("read-timeout-ms", .readTimeout),
      ("write-timeout-ms", .writeTimeout), ("reuse-connection", .reuseConnection),
      ("half-close", .halfClose), ("output", .output)]
  | send => [("config", .config), ("verbose", .verbose), ("help", .help),
      ("connect-timeout-ms", .connectTimeout), ("idle-timeout-ms", .idleTimeout),
      ("half-close", .halfClose)]

def letters : Level → List (Char × Slot)
  | top => [('v', .verbose), ('h', .help), ('V', .version)]
  | run => [('v', .verbose), ('h', .help), ('o', .output)]
  | send => [('v', .verbose), ('h', .help)]

def long? (l : Level) (name : Bytes) : Option Slot :=
  (l.longNames.find? fun entry => Text.bytes entry.1 = name).map (·.2)

def letter? (l : Level) (letter : UInt8) : Option Slot :=
  (l.letters.find? fun entry => entry.1.toNat = letter.toNat).map (·.2)

/-- The arguments of a level without names, in order; each of them is required. -/
def positionals : Level → List Slot
  | top => []
  | run => [.host, .port, .corpus]
  | send => [.host, .port]

end Level

def Slot.isFlag : Slot → Bool
  | verbose => true
  | help => true
  | version => true
  | reuseConnection => true
  | halfClose => true
  | _ => false

def digits? (cs : List Char) : Option Nat :=
  if cs = [] ∨ ¬ cs.all Char.isDigit then none
  else some (cs.foldl (fun n c => n * 10 + (c.toNat - '0'.toNat)) 0)

/-- A number of 64 bits, in front of which a plus sign may stand. -/
def count? (text : String) : Option Nat :=
  let digits := match text.toList with
    | '+' :: rest => rest
    | cs => cs
  (digits? digits).filter (· < UInt64.size)

/-- A number of 16 bits, in front of which a sign may stand. -/
def port? (text : String) : Option UInt16 :=
  let number := match text.toList with
    | '-' :: rest => (digits? rest).filter (· = 0)
    | '+' :: rest => digits? rest
    | cs => digits? cs
  (number.filter (· < UInt16.size)).map UInt16.ofNat

def Slot.check (slot : Slot) (value : Bytes) : Option UsageStop :=
  let number (accepts : String → Bool) : Option UsageStop :=
    match Text.decode? value with
    | none => some .notText
    | some text => if accepts text then none else some .invalidValue
  let path := if value = [] then some .missingValue else none
  let timeout := number fun text => (count? text).any (0 < ·)
  match slot with
  | config => path
  | output => path
  | corpus => path
  | connectTimeout => timeout
  | readTimeout => timeout
  | writeTimeout => timeout
  | idleTimeout => number fun text => (count? text).isSome
  | port => number fun text => (port? text).isSome
  | host => number fun _ => true
  | _ => none

end WireReplay.CommandLine
