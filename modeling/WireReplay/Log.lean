/-!
# Log lines

What a command tells its user besides its output.
-/

namespace WireReplay

inductive Level
  | info
  | warn
  | error
deriving DecidableEq, Repr, Inhabited

def Level.name : Level → String
  | info => "INFO"
  | warn => "WARN"
  | error => "ERROR"

structure LogLine where
  level : Level
  text : String
deriving DecidableEq, Repr, Inhabited

namespace LogLine

def info (text : String) : LogLine := ⟨.info, text⟩

def warn (text : String) : LogLine := ⟨.warn, text⟩

end LogLine

end WireReplay
