/-!
# JSON

The part of JSON that reports are written in, and its layout: two blanks for each level of depth,
and each item and each field on a line of its own.
-/

namespace WireReplay

inductive Json
  | number (n : Nat)
  | string (s : String)
  | array (items : List Json)
  | object (fields : List (String × Json))
deriving Repr, Inhabited

namespace Json

def hexDigit (n : Nat) : Char := Char.ofNat (if n < 10 then 48 + n else 87 + n)

/-- A character as it stands between quotes: quotes, backslashes and control characters are
escaped, by a letter where there is one for them. -/
def escape (c : Char) : List Char :=
  if c = '"' then ['\\', '"']
  else if c = '\\' then ['\\', '\\']
  else if c = '\n' then ['\\', 'n']
  else if c = '\r' then ['\\', 'r']
  else if c = '\t' then ['\\', 't']
  else if c = '\x08' then ['\\', 'b']
  else if c = '\x0c' then ['\\', 'f']
  else if c.toNat < 32 then ['\\', 'u', '0', '0', hexDigit (c.toNat / 16), hexDigit (c.toNat % 16)]
  else [c]

def quote (s : String) : List Char := '"' :: s.toList.flatMap escape ++ ['"']

def newLine (depth : Nat) : List Char := '\n' :: List.replicate (2 * depth) ' '

mutual

def render (depth : Nat) : Json → List Char
  | number n => (toString n).toList
  | string s => quote s
  | array [] => ['[', ']']
  | array (item :: items) =>
    '[' :: newLine (depth + 1) ++ render (depth + 1) item ++ renderItems (depth + 1) items ++
      newLine depth ++ [']']
  | object [] => ['\x7b', '\x7d']
  | object ((name, value) :: fields) =>
    '\x7b' :: newLine (depth + 1) ++ quote name ++ [':', ' '] ++ render (depth + 1) value ++
      renderFields (depth + 1) fields ++ newLine depth ++ ['\x7d']

def renderItems (depth : Nat) : List Json → List Char
  | [] => []
  | item :: items => ',' :: newLine depth ++ render depth item ++ renderItems depth items

def renderFields (depth : Nat) : List (String × Json) → List Char
  | [] => []
  | (name, value) :: fields =>
    ',' :: newLine depth ++ quote name ++ [':', ' '] ++ render depth value ++
      renderFields depth fields

end

def pretty (j : Json) : String := String.ofList (j.render 0)

end Json

end WireReplay
