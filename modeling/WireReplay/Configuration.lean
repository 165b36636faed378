import WireReplay.Files.Tree
import WireReplay.Replay.Settings
import WireReplay.Toml.Document

/-!
# Configurations

The settings that a configuration text makes. Everything in it may be left out, and what is not
known is ignored.
-/

namespace WireReplay

/-- Timeouts in milliseconds. -/
structure Timeouts where
  connect : Nat := 5000
  read : Nat := 2000
  write : Nat := 5000
deriving DecidableEq, Repr, Inhabited

structure Configuration where
  timeouts : Timeouts := {}
  freshConnections : Bool := true
  halfClose : Bool := false
deriving DecidableEq, Repr, Inhabited

namespace Configuration

def amount? (default : Nat) : Option Toml.Value → Option Nat
  | none => some default
  | some (.integer n) => if 0 ≤ n then some n.toNat else none
  | some _ => none

def truth? (default : Bool) : Option Toml.Value → Option Bool
  | none => some default
  | some (.boolean b) => some b
  | some _ => none

/-- The record that an entry of the whole text is; a missing entry is a record without entries. -/
def record? (root : Toml.Fields) (key : String) : Option (Nat → String → Option Toml.Value) :=
  match root.lookup key with
  | none => some fun _ _ => none
  | some value => value.record?

def ofFields? (root : Toml.Fields) : Option Configuration := do
  let timeouts ← record? root "timeouts"
  let runner ← record? root "runner"
  return {
    timeouts := {
      connect := ← amount? 5000 (timeouts 0 "connect_ms")
      read := ← amount? 2000 (timeouts 1 "read_ms")
      write := ← amount? 5000 (timeouts 2 "write_ms") }
    freshConnections := ← truth? true (runner 0 "per_payload_connection")
    halfClose := ← truth? false (runner 1 "half_close") }

def keyedTimeouts (c : Configuration) : List (String × Nat) :=
  [("connect_ms", c.timeouts.connect), ("read_ms", c.timeouts.read),
    ("write_ms", c.timeouts.write)]

/-- The first timeout that is zero is refused. -/
def validate (c : Configuration) : Except Failure Configuration :=
  match c.keyedTimeouts.find? (·.2 == 0) with
  | some (key, _) => .error (.invalidConfiguration s!"timeouts.{key} must be greater than 0")
  | none => .ok c

def parse (text : String) : Except Failure Configuration :=
  match Toml.parse? text >>= ofFields? with
  | some c => c.validate
  | none => .error .malformedConfiguration

def settings (c : Configuration) : Replay.Settings where
  connectTimeout := .ofMillis c.timeouts.connect
  readTimeout := .ofMillis c.timeouts.read
  writeTimeout := .ofMillis c.timeouts.write
  freshConnections := c.freshConnections
  halfClose := c.halfClose

def ofFile (files : FileTree) (path : Path) : Except Failure Configuration :=
  match files.readText path with
  | .ok text => parse text
  | .error fault => .error (.unreadable path.display fault.describe)

def directoryName : String := "corpus-runner"

/-- The directory of the program's configuration, for users that have a home directory: below
their own choice, where that is an absolute path, or else below the home directory. -/
def directory? (home chosen : Option Path) : Option Path :=
  home.map fun home =>
    let usual := home.join (Text.bytes ".config")
    ((chosen.filter Path.isAbsolute).getD usual).join (Text.bytes directoryName)

def pathIn (directory : Path) : Path := directory.join (Text.bytes "config.toml")

/-- The configuration in the file at the usual path, or the default one where there is none. -/
def ofUsualFile (files : FileTree) (path : Option Path) : Except Failure Configuration :=
  match path.filter files.contains with
  | some path => ofFile files path
  | none => .ok {}

end Configuration

end WireReplay
