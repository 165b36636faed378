/-!
# Styled text

Text with colours and weights for a terminal. A style is switched on in front of a text and all
styles are switched off behind it.
-/

namespace WireReplay

inductive Color
  | red
  | green
  | yellow
  | white
deriving DecidableEq, Repr

structure Style where
  isBold : Bool := false
  isDimmed : Bool := false
  color : Option Color := none
deriving DecidableEq, Repr

namespace Style

def Color.code : Color → String
  | .red => "31"
  | .green => "32"
  | .yellow => "33"
  | .white => "37"

def codes (s : Style) : List String :=
  (if s.isBold then ["1"] else []) ++ (if s.isDimmed then ["2"] else []) ++
    (s.color.map Color.code).toList

def start (s : Style) : List Char :=
  '\x1b' :: '[' :: (String.intercalate ";" s.codes).toList ++ ['m']

def reset : List Char := ['\x1b', '[', '0', 'm']

/-- A text in which a style is switched on again wherever the text itself switches all styles
off. -/
def sustain (s : Style) : List Char → List Char
  | '\x1b' :: '[' :: '0' :: 'm' :: rest => reset ++ s.start ++ sustain s rest
  | c :: rest => c :: sustain s rest
  | [] => []

def paint (s : Style) (shows : Bool) (text : String) : String :=
  if shows then String.ofList (s.start ++ s.sustain text.toList ++ reset) else text

/-- Whether an output shows styles: they can be forced, or else refused, or else switched off, by
the `setting` of an environment variable, and otherwise they are for terminals. -/
def isShown (isTerminal : Bool) (setting : String → Option String) : Bool :=
  let isOn (name : String) : Option Bool := (setting name).map (· ≠ "0")
  if isOn "CLICOLOR_FORCE" = some true then true
  else if (setting "NO_COLOR").isSome then false
  else (isOn "CLICOLOR").getD true && isTerminal

end Style

end WireReplay
