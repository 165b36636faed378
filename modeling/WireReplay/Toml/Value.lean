/-!
# TOML values

The values that a TOML text can hold. Tables remember how they came to be, since that decides
what a later part of the text may still add to them.
-/

namespace WireReplay.Toml

/-- How a table came to be: by a header of its own, as a parent of a longer header, by a key with
dots, or in braces, where it is written whole. -/
inductive Origin
  | headed
  | implied
  | dotted
  | braced
deriving DecidableEq, Repr

inductive Value
  | string (text : String)
  | integer (amount : Int)
  | float (digits : String)
  | boolean (truth : Bool)
  | moment (digits : String)
  | array (items : List Value)
  | table (origin : Origin) (fields : List (String × Value))
  | tables (items : List (List (String × Value)))
deriving Repr

abbrev Fields := List (String × Value)

namespace Value

/-- A value seen as a record: its entries by position or by name. An array gives them by position,
a table by name, and a date or time is a record without known entries. -/
def record? : Value → Option (Nat → String → Option Value)
  | table _ fields => some fun _ key => fields.lookup key
  | array items => some fun i _ => items[i]?
  | tables items => some fun i _ => items[i]?.map (table .headed)
  | moment _ => some fun _ _ => none
  | _ => none

end Value

end WireReplay.Toml
