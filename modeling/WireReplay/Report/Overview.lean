import WireReplay.Replay.Capture
import WireReplay.Report.Styled

/-!
# The overview of a run

What a terminal shows of a run: a line for each capture, with details below it, and a verdict.
-/

namespace WireReplay.Report

def prependChar (c : Char) : List (List Char) → List (List Char)
  | [] => [[c]]
  | line :: lines => (c :: line) :: lines

/-- The lines of a text; a carriage return before a line feed belongs to the line's end, and no
line follows the last line feed. -/
def textLines : List Char → List (List Char)
  | [] => []
  | '\n' :: rest => [] :: textLines rest
  | '\r' :: '\n' :: rest => [] :: textLines rest
  | c :: rest => prependChar c (textLines rest)

def red : Style := { color := some .red }
def green : Style := { color := some .green }
def yellow : Style := { color := some .yellow }
def dimmed : Style := { isDimmed := true }
def boldRed : Style := { isBold := true, color := some .red }
def boldGreen : Style := { isBold := true, color := some .green }
def boldWhite : Style := { isBold := true, color := some .white }

def mark : Outcome → String × Style
  | .ok => ("✓", green)
  | .timeout => ("…", yellow)
  | .cancelled => ("-", dimmed)
  | .connectionClosedEarly => ("✗", red)
  | .ioError => ("✗", red)

def figures (c : Capture) : String :=
  s!"({c.outcome.name}, {c.sent.length} → {c.received.length} bytes, {c.elapsed.millis} ms)"

/-- The line of a capture with its details: why it failed and, in a verbose overview, what was
received. -/
def captureLines (shows verbose : Bool) (c : Capture) : List String :=
  let (sign, style) := mark c.outcome
  let head := "  " ++ style.paint shows sign ++ " " ++ boldWhite.paint shows c.name ++ " " ++
    dimmed.paint shows (figures c)
  let failure := c.error.toList.map fun text => "      " ++ red.paint shows text
  let received := if verbose then textLines (Text.lossy c.received).toList else []
  head :: failure ++ received.map fun line => "      " ++ dimmed.paint shows (String.ofList line)

def cleanCount (captures : List Capture) : Nat := captures.countP (·.outcome.isOk)

def verdictLine (shows : Bool) (captures : List Capture) : String :=
  let text := s!"{cleanCount captures} of {captures.length} payloads completed cleanly"
  if cleanCount captures = captures.length then
    boldGreen.paint shows "✓" ++ " " ++ boldGreen.paint shows text
  else boldRed.paint shows "✗" ++ " " ++ boldRed.paint shows text

def overview (shows verbose : Bool) (captures : List Capture) : String :=
  let lines := "" :: captures.flatMap (captureLines shows verbose) ++
    ["", verdictLine shows captures, ""]
  String.join (lines.map (· ++ "\n"))

end WireReplay.Report
