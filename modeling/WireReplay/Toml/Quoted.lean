import WireReplay.Toml.Blank

/-!
# Quoted texts

The four ways to quote a text in TOML: in double quotes with escapes, in single quotes as it
stands, and either of them in triple quotes over several lines.
-/

namespace WireReplay.Toml

def hexValue? (c : Char) : Option Nat :=
  if c.isDigit then some (c.toNat - '0'.toNat)
  else if 'a' ≤ c && c ≤ 'f' then some (c.toNat - 'a'.toNat + 10)
  else if 'A' ≤ c && c ≤ 'F' then some (c.toNat - 'A'.toNat + 10)
  else none

def scalarValue? (digits : List Char) : Option Char := do
  let n ← digits.foldlM (fun n c => (n * 16 + ·) <$> hexValue? c) 0
  if h : n.isValidChar then some (Char.ofNatAux n h) else none

def escaped? : Char → Option Char
  | 'b' => some '\x08'
  | 't' => some '\t'
  | 'n' => some '\n'
  | 'f' => some '\x0c'
  | 'r' => some '\r'
  | '"' => some '"'
  | '\\' => some '\\'
  | _ => none

def basic? : Reader (List Char)
  | '"' :: rest => some ([], rest)
  | '\\' :: 'u' :: a :: b :: c :: d :: rest => do
    let x ← scalarValue? [a, b, c, d]
    let (text, rest) ← basic? rest
    return (x :: text, rest)
  | '\\' :: 'U' :: a :: b :: c :: d :: e :: f :: g :: h :: rest => do
    let x ← scalarValue? [a, b, c, d, e, f, g, h]
    let (text, rest) ← basic? rest
    return (x :: text, rest)
  | '\\' :: c :: rest => do
    let x ← escaped? c
    let (text, rest) ← basic? rest
    return (x :: text, rest)
  | c :: rest =>
    if isPrintable c && c != '\\' then do
      let (text, rest) ← basic? rest
      return (c :: text, rest)
    else none
  | [] => none

def literal? : Reader (List Char)
  | '\'' :: rest => some ([], rest)
  | c :: rest =>
    if isPrintable c then do
      let (text, rest) ← literal? rest
      return (c :: text, rest)
    else none
  | [] => none

def endsLine (s : List Char) : Bool := (newline? (skipBlanks s)).isSome

/-- Reads the rest of a text in triple double quotes; up to two quotes before the closing ones
belong to it. A backslash at the end of a line takes the blanks and line ends behind it away,
which are skipped while `trims` holds. -/
def multilineBasic? (trims : Bool) : Reader (List Char)
  | '"' :: '"' :: '"' :: '"' :: '"' :: rest => some (['"', '"'], rest)
  | '"' :: '"' :: '"' :: '"' :: rest => some (['"'], rest)
  | '"' :: '"' :: '"' :: rest => some ([], rest)
  | '\r' :: '\n' :: rest => do
    let (text, rest) ← multilineBasic? trims rest
    return (if trims then text else '\n' :: text, rest)
  | '\n' :: rest => do
    let (text, rest) ← multilineBasic? trims rest
    return (if trims then text else '\n' :: text, rest)
  | '\\' :: 'u' :: a :: b :: c :: d :: rest => do
    let x ← scalarValue? [a, b, c, d]
    let (text, rest) ← multilineBasic? false rest
    return (x :: text, rest)
  | '\\' :: 'U' :: a :: b :: c :: d :: e :: f :: g :: h :: rest => do
    let x ← scalarValue? [a, b, c, d, e, f, g, h]
    let (text, rest) ← multilineBasic? false rest
    return (x :: text, rest)
  | '\\' :: c :: rest =>
    if endsLine (c :: rest) then multilineBasic? true (c :: rest)
    else do
      let x ← escaped? c
      let (text, rest) ← multilineBasic? false rest
      return (x :: text, rest)
  | c :: rest =>
    if trims && isBlank c then multilineBasic? true rest
    else if isPrintable c && c != '\\' then do
      let (text, rest) ← multilineBasic? false rest
      return (c :: text, rest)
    else none
  | [] => none

def multilineLiteral? : Reader (List Char)
  | '\'' :: '\'' :: '\'' :: '\'' :: '\'' :: rest => some (['\'', '\''], rest)
  | '\'' :: '\'' :: '\'' :: '\'' :: rest => some (['\''], rest)
  | '\'' :: '\'' :: '\'' :: rest => some ([], rest)
  | '\r' :: '\n' :: rest => do
    let (text, rest) ← multilineLiteral? rest
    return ('\n' :: text, rest)
  | c :: rest =>
    if isPrintable c || c == '\n' then do
      let (text, rest) ← multilineLiteral? rest
      return (c :: text, rest)
    else none
  | [] => none

/-- A line end right behind opening triple quotes does not belong to the text. -/
def skipNewline (s : List Char) : List Char := (newline? s).getD s

def quotedKey? : Reader String
  | '"' :: rest => (basic? rest).map fun (text, rest) => (String.ofList text, rest)
  | '\'' :: rest => (literal? rest).map fun (text, rest) => (String.ofList text, rest)
  | _ => none

def quoted? : Reader String
  | '"' :: '"' :: '"' :: rest =>
    (multilineBasic? false (skipNewline rest)).map fun (text, rest) => (String.ofList text, rest)
  | '\'' :: '\'' :: '\'' :: rest =>
    (multilineLiteral? (skipNewline rest)).map fun (text, rest) => (String.ofList text, rest)
  | s => quotedKey? s

end WireReplay.Toml
