import WireReplay.Text.Utf8

/-!
# Paths

Paths are bytes: names with slashes between them. Nothing makes them text but their display.
-/

namespace WireReplay

abbrev Path := Bytes

namespace Path

def slash : UInt8 := 0x2F

def dot : UInt8 := 0x2E

def isAbsolute (p : Path) : Bool := p.head? == some slash

def display (p : Path) : String := Text.lossy p

/-- A path below a directory. An absolute path stands for itself wherever it is joined to. -/
def join (directory p : Path) : Path :=
  if p.isAbsolute || directory.isEmpty then p
  else if directory.getLast? == some slash then directory ++ p
  else directory ++ slash :: p

def parts : Path → List Bytes
  | [] => [[]]
  | b :: rest =>
    match parts rest with
    | [] => []
    | part :: others => if b = slash then [] :: part :: others else (b :: part) :: others

/-- The names of a path: its parts without those that stay where they are. -/
def names (p : Path) : List Bytes := p.parts.filter fun part => part ≠ [] ∧ part ≠ [dot]

def ancestors (p : Path) : List Path :=
  let start : Path := if p.isAbsolute then [slash] else []
  let build (names : List Bytes) : Path := start ++ List.intercalate [slash] names
  (List.range p.names.length).reverse.filterMap fun n =>
    if n = 0 then none else some (build (p.names.take n))

/-- The name of a file without its extension, which begins with the last dot. A dot in front
begins none. -/
def stem (name : Bytes) : Bytes :=
  let behind := name.reverse.takeWhile (· ≠ dot)
  let front := name.take (name.length - behind.length - 1)
  if behind.length = name.length ∨ front = [] then name else front

end Path

end WireReplay
