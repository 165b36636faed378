/-!
# Blanks, line ends and comments

What separates the parts of a TOML text without meaning anything.
-/

namespace WireReplay.Toml

/-- Reads one thing from the front of a text and returns it with the rest. -/
abbrev Reader (α : Type) := List Char → Option (α × List Char)

def isBlank (c : Char) : Bool := c == ' ' || c == '\t'

def skipBlanks (s : List Char) : List Char := s.dropWhile isBlank

def isPrintable (c : Char) : Bool := c == '\t' || (' ' ≤ c && c != '\x7f')

/-- The text behind a line end; a carriage return is one only before a line feed. -/
def newline? : List Char → Option (List Char)
  | '\n' :: rest => some rest
  | '\r' :: '\n' :: rest => some rest
  | _ => none

def lineEnd? (s : List Char) : Option (List Char) :=
  let uncommented := match skipBlanks s with
    | '#' :: rest => rest.dropWhile isPrintable
    | rest => rest
  if uncommented.isEmpty then some [] else newline? uncommented

/-- Skips blanks, comments and line ends, as they stand between the items of an array. Comments
end with their line. -/
def skipFiller (inComment : Bool) : List Char → List Char
  | '\n' :: rest => skipFiller false rest
  | '\r' :: '\n' :: rest => skipFiller false rest
  | c :: rest =>
    if inComment then if isPrintable c then skipFiller true rest else c :: rest
    else if isBlank c then skipFiller false rest
    else if c == '#' then skipFiller true rest
    else c :: rest
  | [] => []

end WireReplay.Toml
