import WireReplay.Toml.Scalar
import WireReplay.Toml.Table

/-!
# TOML documents

A whole text: pairs of a key and a value, and headers, each with the pairs below it.
-/

namespace WireReplay.Toml

/-- How deep arrays and tables in braces may be nested, and how many parts a key may have. -/
def nestingLimit : Nat := 79

def isBareKeyChar (c : Char) : Bool := c.isAlphanum || c == '-' || c == '_'

def keyPart? (s : List Char) : Option (String × List Char) :=
  match quotedKey? s with
  | some part => some part
  | none =>
    let (word, rest) := s.span isBareKeyChar
    if word.isEmpty then none else some (String.ofList word, rest)

def keyParts? (s : List Char) : Option (List String × List Char) := do
  let (part, rest) ← keyPart? (skipBlanks s)
  match skipBlanks rest with
  | '.' :: rest =>
    if _h : rest.length < s.length then do
      let (parts, rest) ← keyParts? rest
      return (part :: parts, rest)
    else none
  | rest => return ([part], rest)
termination_by s.length

def key? (s : List Char) : Option (List String × List Char) := do
  let (parts, rest) ← keyParts? s
  if parts.length ≤ nestingLimit then some (parts, rest) else none

def pair? (value? : Reader Value) (s : List Char) : Option ((List String × Value) × List Char) := do
  let (key, rest) ← key? s
  let (value, rest) ← value? (skipBlanks (← past? '=' rest))
  return ((key, value), rest)

def items? (value? : Reader Value) (s : List Char) : Option (List Value × List Char) :=
  match skipFiller false s with
  | ']' :: rest => some ([], rest)
  | start => do
    let (item, rest) ← value? start
    match skipFiller false rest with
    | ']' :: rest => return ([item], rest)
    | ',' :: rest =>
      if _h : rest.length < s.length then do
        let (items, rest) ← items? value? rest
        return (item :: items, rest)
      else none
    | _ => none
termination_by s.length

/-- Reads the rest of a table in braces that is not empty. No comma follows the last pair. -/
def pairs? (value? : Reader Value) (s : List Char) :
    Option (List (List String × Value) × List Char) := do
  let (pair, rest) ← pair? value? s
  match skipBlanks rest with
  | '}' :: rest => return ([pair], rest)
  | ',' :: rest =>
    if _h : rest.length < s.length then do
      let (pairs, rest) ← pairs? value? rest
      return (pair :: pairs, rest)
    else none
  | _ => none
termination_by s.length

def braced? (value? : Reader Value) (s : List Char) : Option (Value × List Char) :=
  match skipBlanks s with
  | '}' :: rest => some (.table .braced [], rest)
  | start => do
    let (pairs, rest) ← pairs? value? start
    return (.table .braced (← Fields.insertAll [] pairs), rest)

def value? : Nat → Reader Value
  | 0, s => scalar? s
  | depth + 1, s =>
    match s with
    | '[' :: rest => (items? (value? depth) rest).map fun (items, rest) => (.array items, rest)
    | '{' :: rest => braced? (value? depth) rest
    | s => scalar? s

inductive Line
  | blank
  | pair (key : List String) (value : Value)
  | header (header : Header)
deriving Repr

def headerOf? (make : List String → String → Header) (parts : List String) : Option Header :=
  parts.getLast?.map (make parts.dropLast)

/-- Reads what stands before the end of a line, where a value may go on over several lines. -/
def line? (s : List Char) : Option (Line × List Char) :=
  match skipBlanks s with
  | '[' :: '[' :: rest => do
    let (parts, rest) ← key? rest
    return (.header (← headerOf? .repeated parts), ← past? ']' (← past? ']' rest))
  | '[' :: rest => do
    let (parts, rest) ← key? rest
    return (.header (← headerOf? .single parts), ← past? ']' rest)
  | start =>
    if (lineEnd? start).isSome then some (.blank, start)
    else do
      let ((key, value), rest) ← pair? (value? nestingLimit) start
      return (.pair key value, rest)

def lines? (s : List Char) : Option (List Line) := do
  let (line, rest) ← line? s
  let rest ← lineEnd? rest
  if rest.isEmpty then return [line]
  else if _h : rest.length < s.length then return line :: (← lines? rest)
  else none
termination_by s.length

def sections : List Line → List (List String × Value) × List (Header × List (List String × Value))
  | [] => ([], [])
  | .blank :: lines => sections lines
  | .pair key value :: lines =>
    let (pairs, rest) := sections lines
    ((key, value) :: pairs, rest)
  | .header header :: lines =>
    let (pairs, rest) := sections lines
    ([], (header, pairs) :: rest)

def ofLines? (lines : List Line) : Option Fields := do
  let (pairs, rest) := sections lines
  let root ← Fields.insertAll [] pairs
  rest.foldlM (fun root (header, pairs) => root.addSection pairs header) root

/-- The table that a text describes. A byte order mark may stand in front. -/
def parse? (text : String) : Option Fields := do
  let s := match text.toList with
    | '\uFEFF' :: rest => rest
    | s => s
  ofLines? (← lines? s)

end WireReplay.Toml
