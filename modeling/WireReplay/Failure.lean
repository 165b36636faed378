import WireReplay.Fault

/-!
# Failures

Everything that makes a command give up, as a cause, and the one text of each cause. What goes
wrong with a single payload on the wire is no failure but a part of the report.
-/

namespace WireReplay

inductive Failure
  | corpusNotFound (directory : String)
  | unreadable (path reason : String)
  | invalidEndpoint (reason : String)
  | connectFailed (endpoint : String) (fault : Fault)
  | connectTimedOut (endpoint : String) (millis : Nat)
  /-- The configuration is no text of its format, or a value has the wrong type. -/
  | malformedConfiguration
  | invalidConfiguration (reason : String)
  | invalidOptions (reason : String)
  | io (fault : Fault)
  | incomplete (failed total : Nat)
deriving DecidableEq, Repr, Inhabited

namespace Failure

def message : Failure → String
  | corpusNotFound directory => s!"Corpus directory '{directory}' not found"
  | unreadable path reason => s!"Failed to read file '{path}': {reason}"
  | invalidEndpoint reason => s!"Invalid endpoint: {reason}"
  | connectFailed endpoint fault => s!"Failed to connect to {endpoint}: {fault.describe}"
  | connectTimedOut endpoint millis => s!"Connection to {endpoint} timed out after {millis} ms"
  | malformedConfiguration => "Invalid configuration file: TOML parse error"
  | invalidConfiguration reason => s!"Invalid configuration file: {reason}"
  | invalidOptions reason => s!"Invalid options: {reason}"
  | io fault => s!"IO error: {fault.describe}"
  | incomplete failed total => s!"{failed} of {total} payloads did not complete cleanly"

def source : Failure → Option Fault
  | connectFailed _ fault => some fault
  | io fault => some fault
  | _ => none

end Failure

end WireReplay
