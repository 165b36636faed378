import WireReplay.Files.Path

/-!
# Invocations

What a command line asks for: one of two commands with its options, and the options that all
commands share.
-/

namespace WireReplay

/-- Replay a corpus against a host. Timeouts are in milliseconds. -/
structure RunCommand where
  host : String
  port : UInt16
  corpus : Path
  connectTimeout : Option Nat := none
  readTimeout : Option Nat := none
  writeTimeout : Option Nat := none
  reuseConnection : Bool := false
  halfClose : Bool := false
  output : Option Path := none
deriving DecidableEq, Repr

/-- Send the standard input to a host. An idle timeout of 0 waits until the host closes. -/
structure SendCommand where
  host : String
  port : UInt16
  connectTimeout : Option Nat := none
  idleTimeout : Option Nat := none
  halfClose : Bool := false
deriving DecidableEq, Repr

inductive Command
  | run (c : RunCommand)
  | send (c : SendCommand)
deriving DecidableEq, Repr

structure Invocation where
  command : Command
  config : Option Path := none
  isVerbose : Bool := false
deriving DecidableEq, Repr

inductive UsageStop
  | help
  | version
  | nothingGiven
  | missingCommand
  | unknownCommand
  | unknownArgument
  | missingValue
  | needlessValue
  | invalidValue
  | notText
  | missingArgument
  | conflict
deriving DecidableEq, Repr

/-- The exit code: to ask for help or for the version is no error. -/
def UsageStop.exitCode : UsageStop → Nat
  | help => 0
  | version => 0
  | _ => 2

end WireReplay
