import WireReplay.Toml.Quoted
import WireReplay.Toml.Value

/-!
# Scalar values

Numbers, truth values, dates and times as a TOML text writes them.
-/

namespace WireReplay.Toml

/-! ## Dates and times -/

def twoDigits? (low high : Nat) : Reader Nat
  | a :: b :: rest => do
    let n := (a.toNat - '0'.toNat) * 10 + (b.toNat - '0'.toNat)
    if a.isDigit && b.isDigit && low ≤ n && n ≤ high then some (n, rest) else none
  | _ => none

def past? (c : Char) : List Char → Option (List Char)
  | d :: rest => if d == c then some rest else none
  | [] => none

def isLeapYear (year : Nat) : Bool := year % 4 == 0 && (year % 100 != 0 || year % 400 == 0)

def daysOfMonth (year month : Nat) : Nat :=
  if month = 2 then if isLeapYear year then 29 else 28
  else if month ∈ [4, 6, 9, 11] then 30 else 31

def date? (s : List Char) : Option (List Char) := do
  let (century, rest) ← twoDigits? 0 99 s
  let (year, rest) ← twoDigits? 0 99 rest
  let (month, rest) ← twoDigits? 1 12 (← past? '-' rest)
  let (day, rest) ← twoDigits? 1 31 (← past? '-' rest)
  if day ≤ daysOfMonth (century * 100 + year) month then some rest else none

def skipFraction : List Char → List Char
  | '.' :: c :: rest => if c.isDigit then rest.dropWhile Char.isDigit else '.' :: c :: rest
  | s => s

def time? (s : List Char) : Option (List Char) := do
  let (_, rest) ← twoDigits? 0 23 s
  let (_, rest) ← twoDigits? 0 59 (← past? ':' rest)
  let (_, rest) ← twoDigits? 0 60 (← past? ':' rest)
  return skipFraction rest

def offset? : List Char → Option (List Char)
  | c :: rest =>
    if c == 'Z' || c == 'z' then some rest
    else if c == '+' || c == '-' then do
      let (_, rest) ← twoDigits? 0 23 rest
      let (_, rest) ← twoDigits? 0 59 (← past? ':' rest)
      return rest
    else none
  | [] => none

/-- The text behind a date, a time of day or both; only both together have an offset. -/
def moment? (s : List Char) : Option (List Char) :=
  match date? s with
  | none => time? s
  | some [] => some []
  | some (c :: rest) =>
    if c == 'T' || c == 't' || c == ' ' then
      match time? rest with
      | some rest => some ((offset? rest).getD rest)
      | none => some (c :: rest)
    else some (c :: rest)

/-! ## Numbers -/

/-- Reads on in digits of a class. A single underscore may stand between two of them. -/
def moreDigits (isDigit : Char → Bool) : List Char → List Char × List Char
  | '_' :: c :: rest =>
    if isDigit c then
      let (digits, rest) := moreDigits isDigit rest
      (c :: digits, rest)
    else ([], '_' :: c :: rest)
  | c :: rest =>
    if isDigit c then
      let (digits, rest) := moreDigits isDigit rest
      (c :: digits, rest)
    else ([], c :: rest)
  | [] => ([], [])

def digits? (isDigit : Char → Bool) : Reader (List Char)
  | c :: rest =>
    if isDigit c then
      let (digits, rest) := moreDigits isDigit rest
      some (c :: digits, rest)
    else none
  | [] => none

def decimal? : Reader (List Char)
  | '0' :: rest => some (['0'], rest)
  | s => digits? Char.isDigit s

def sign : List Char → Bool × List Char
  | '-' :: rest => (true, rest)
  | '+' :: rest => (false, rest)
  | s => (false, s)

def ofDigits (base : Nat) (digits : List Char) : Nat :=
  digits.foldl (fun n c => n * base + (hexValue? c).getD 0) 0

def bounded? (n : Int) : Option Int :=
  if -0x8000000000000000 ≤ n && n < 0x8000000000000000 then some n else none

def integer? : Reader Int
  | '0' :: 'x' :: rest => inBase 16 rest
  | '0' :: 'o' :: rest => inBase 8 rest
  | '0' :: 'b' :: rest => inBase 2 rest
  | s => do
    let (digits, rest) ← decimal? (sign s).2
    let n : Int := ofDigits 10 digits
    return (← bounded? (if (sign s).1 then -n else n), rest)
where
  inBase (base : Nat) (s : List Char) : Option (Int × List Char) := do
    let (digits, rest) ← digits? (fun c => (hexValue? c).any (· < base)) s
    return (← bounded? (ofDigits base digits), rest)

def exponent? : Reader Int
  | c :: s =>
    if c == 'e' || c == 'E' then do
      let (digits, rest) ← digits? Char.isDigit (sign s).2
      let n : Int := ofDigits 10 digits
      return (if (sign s).1 then -n else n, rest)
    else none
  | [] => none

/-- From here on a decimal rounds to infinity in double precision. -/
def floatBound : Nat := Nat.pow 2 1024 - Nat.pow 2 970

def isTooGreat (digits : List Char) (exponent : Int) : Bool :=
  let n := ofDigits 10 digits
  if n = 0 then false
  else if 400 < exponent then true
  else if exponent < -digits.length then false
  else floatBound * Nat.pow 10 (-exponent).toNat ≤ n * Nat.pow 10 exponent.toNat

/-- The text behind a float with a fraction, an exponent or both. One that is too great is
refused, one that is too small is not. -/
def float? (s : List Char) : Option (List Char) := do
  let (isNegative, s) := sign s
  let (whole, rest) ← decimal? s
  let (fraction, exponent, rest) ← match rest with
    | '.' :: rest => do
      let (fraction, rest) ← digits? Char.isDigit rest
      match exponent? rest with
      | some (exponent, rest) => some (fraction, exponent, rest)
      | none => some (fraction, (0 : Int), rest)
    | rest => do
      let (exponent, rest) ← exponent? rest
      some ([], exponent, rest)
  if !isNegative && isTooGreat (whole ++ fraction) (exponent - fraction.length) then none
  else some rest

def pastWord? (word : List Char) (s : List Char) : Option (List Char) :=
  if word.isPrefixOf s then some (s.drop word.length) else none

def special? (s : List Char) : Option (List Char) :=
  let s := (sign s).2
  pastWord? ['i', 'n', 'f'] s <|> pastWord? ['n', 'a', 'n'] s

def consumed (s rest : List Char) : String := String.ofList (s.take (s.length - rest.length))

def scalar? (s : List Char) : Option (Value × List Char) :=
  ((quoted? s).map fun (text, rest) => (.string text, rest)) <|>
  ((moment? s).map fun rest => (.moment (consumed s rest), rest)) <|>
  ((float? s).map fun rest => (.float (consumed s rest), rest)) <|>
  ((special? s).map fun rest => (.float (consumed s rest), rest)) <|>
  ((integer? s).map fun (amount, rest) => (.integer amount, rest)) <|>
  ((pastWord? ['t', 'r', 'u', 'e'] s).map fun rest => (.boolean true, rest)) <|>
  ((pastWord? ['f', 'a', 'l', 's', 'e'] s).map fun rest => (.boolean false, rest))

end WireReplay.Toml
