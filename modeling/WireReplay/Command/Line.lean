import WireReplay.Command.Argument

/-!
# Command lines

Words on a command line, taken one by one: options and their values, a command, and the arguments
of the command in order. Behind a double dash nothing is an option any more.
-/

namespace WireReplay.CommandLine

/-- What the words taken so far have set. The value of the last slot is looked at only when the
next one is taken, or the line ends. -/
structure Taken where
  given : List (Slot × Bytes) := []
  pending : Option (Slot × Option Bytes) := none
  count : Nat := 0
  isPlain : Bool := false
deriving DecidableEq, Repr

namespace Taken

def value? (t : Taken) (slot : Slot) : Option Bytes := t.given.lookup slot

def isGiven (t : Taken) (slot : Slot) : Bool := (t.value? slot).isSome

def give (t : Taken) (slot : Slot) (value : Bytes) : Except UsageStop Taken :=
  if t.isGiven slot then .error .conflict
  else
    match slot.check value with
    | some stop => .error stop
    | none => .ok { t with given := t.given ++ [(slot, value)] }

def settle (t : Taken) : Except UsageStop Taken :=
  match t.pending with
  | none => .ok t
  | some (_, none) => .error .missingValue
  | some (slot, some value) => { t with pending := none }.give slot value

def raise (t : Taken) (slot : Slot) : Except UsageStop Taken := do
  let t ← t.settle
  match slot with
  | .help => .error .help
  | .version => .error .version
  | slot => t.give slot []

def attach (t : Taken) (slot : Slot) (value : Bytes) : Except UsageStop Taken := do
  (← t.settle).give slot value

def expect (t : Taken) (slot : Slot) : Except UsageStop Taken := do
  return { ← t.settle with pending := some (slot, none) }

def place (t : Taken) (slot : Slot) (value : Bytes) : Except UsageStop Taken := do
  let t ← t.settle
  return { t with pending := some (slot, some value), count := t.count + 1 }

end Taken

def dash : UInt8 := 0x2D

def equals : UInt8 := 0x3D

def splitValue (word : Bytes) : Bytes × Option Bytes :=
  match word.dropWhile (· ≠ equals) with
  | [] => (word, none)
  | _ :: value => (word.takeWhile (· ≠ equals), some value)

def takeLong (level : Level) (t : Taken) (word : Bytes) : Except UsageStop Taken :=
  let (name, value) := splitValue word
  match level.long? name, value with
  | none, _ => .error .unknownArgument
  | some slot, some value => if slot.isFlag then .error .needlessValue else t.attach slot value
  | some slot, none => if slot.isFlag then t.raise slot else t.expect slot

/-- Takes the letters of a word that begins with one dash, which is left out. The value of an
option may follow its letter at once. -/
def takeLetters (level : Level) (t : Taken) : Bytes → Except UsageStop Taken
  | [] => .ok t
  | letter :: rest =>
    match level.letter? letter with
    | none => .error .unknownArgument
    | some slot =>
      if slot.isFlag then do takeLetters level (← t.raise slot) rest
      else
        match rest with
        | [] => t.expect slot
        | next :: others => t.attach slot (if next = equals then others else rest)

def command? (word : Bytes) : Option Level :=
  if word = Text.bytes "run" then some .run
  else if word = Text.bytes "send" then some .send
  else none

def isHelpCommand (word : Bytes) : Bool := word = Text.bytes "help"

def surplus (level : Level) (t : Taken) (word : Bytes) : UsageStop :=
  match level with
  | .top =>
    if t.isPlain && ((command? word).isSome || isHelpCommand word) then .unknownArgument
    else .unknownCommand
  | _ => .unknownArgument

def takePlain (level : Level) (t : Taken) (word : Bytes) : Except UsageStop Taken :=
  match level.positionals[t.count]? with
  | some slot => t.place slot word
  | none => .error (surplus level t word)

def take (level : Level) (t : Taken) (word : Bytes) : Except UsageStop Taken :=
  if t.isPlain then takePlain level t word
  else if word = [dash, dash] then .ok { t with isPlain := true }
  else
    match word with
    | first :: second :: rest =>
      if first = dash then
        if second = dash then takeLong level t rest else takeLetters level t (second :: rest)
      else takeWord
    | _ => takeWord
where
  takeWord : Except UsageStop Taken :=
    match t.pending with
    | some (slot, none) => .ok { t with pending := some (slot, some word) }
    | _ => takePlain level t word

def takeAll (level : Level) (words : List Bytes) : Except UsageStop Taken := do
  let t ← words.foldlM (take level) {}
  let t ← t.settle
  if level.positionals.all t.isGiven then .ok t else .error .missingArgument

def helpStop : List Bytes → UsageStop
  | [] => .help
  | word :: rest =>
    if ((command? word).isSome || isHelpCommand word) && rest = [] then .help else .unknownCommand

def Taken.isExpecting (t : Taken) : Bool := !t.isPlain && t.pending.any (·.2.isNone)

/-- Takes the words up to a command, and then those of the command. Without a command, there must
be another reason to stop. -/
def takeTop (t : Taken) : List Bytes → Except UsageStop (Taken × Level × Taken)
  | [] => do
    let t ← t.settle
    .error (if t.given = [] then .nothingGiven else .missingCommand)
  | word :: words =>
    if t.isPlain || t.isExpecting then do takeTop (← take .top t word) words
    else if isHelpCommand word then .error (helpStop words)
    else
      match command? word with
      | some level => do
        let below ← takeAll level words
        return (← t.settle, level, below)
      | none => do takeTop (← take .top t word) words

def Taken.text (t : Taken) (slot : Slot) : String :=
  ((t.value? slot).bind Text.decode?).getD ""

def Taken.count? (t : Taken) (slot : Slot) : Option Nat :=
  ((t.value? slot).bind Text.decode?).bind CommandLine.count?

def Taken.command (t : Taken) : Level → Command
  | .send => .send {
      host := t.text .host
      port := (port? (t.text .port)).getD 0
      connectTimeout := t.count? .connectTimeout
      idleTimeout := t.count? .idleTimeout
      halfClose := t.isGiven .halfClose }
  | _ => .run {
      host := t.text .host
      port := (port? (t.text .port)).getD 0
      corpus := (t.value? .corpus).getD []
      connectTimeout := t.count? .connectTimeout
      readTimeout := t.count? .readTimeout
      writeTimeout := t.count? .writeTimeout
      reuseConnection := t.isGiven .reuseConnection
      halfClose := t.isGiven .halfClose
      output := t.value? .output }

/-- The invocation that a command line is. Options that all commands share may stand before the
command or behind it; of two configuration files the one behind it counts. -/
def parse (words : List Bytes) : Except UsageStop Invocation := do
  let (top, level, below) ← takeTop {} words
  return {
    command := below.command level
    config := (below.value? .config).or (top.value? .config)
    isVerbose := below.isGiven .verbose || top.isGiven .verbose }

end WireReplay.CommandLine
