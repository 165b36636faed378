import WireReplay.Toml.Value

/-!
# Building tables

What the keys and headers of a TOML text may add to the tables that stand there already. No key
is given twice, and a table that was written in one place is not written again in another.
-/

namespace WireReplay.Toml

namespace Fields

def set (fields : Fields) (key : String) (value : Value) : Fields :=
  match fields with
  | [] => [(key, value)]
  | (k, v) :: rest => if k == key then (k, value) :: rest else (k, v) :: set rest key value

/-- Adds what a key, of which the dotted parts are given, stands for. Tables on the way to the
last part must have come about by dotted keys too, at the latest the last one of them. -/
def insert (value : Value) : List String → Fields → Option Fields
  | [], _ => none
  | [key], fields => if (fields.lookup key).isSome then none else some (fields ++ [(key, value)])
  | key :: path, fields =>
    match fields.lookup key with
    | none => do return fields.set key (.table .dotted (← insert value path []))
    | some (.table .dotted sub) => do
      return fields.set key (.table .dotted (← insert value path sub))
    | some (.table .implied sub) =>
      if path.length = 1 then none
      else do return fields.set key (.table .implied (← insert value path sub))
    | some (.tables items) =>
      if path.length = 1 then none
      else do
        let last ← insert value path (← items.getLast?)
        return fields.set key (.tables (items.dropLast ++ [last]))
    | some _ => none

def insertAll (fields : Fields) (pairs : List (List String × Value)) : Option Fields :=
  pairs.foldlM (fun fields (path, value) => insert value path fields) fields

/-- Changes the table at a path, in the last one where there are several of the same header.
Missing tables on the way come about. -/
def modifyAt (change : Fields → Option Fields) : List String → Fields → Option Fields
  | [], fields => change fields
  | key :: path, fields =>
    match fields.lookup key with
    | none => do return fields.set key (.table .implied (← modifyAt change path []))
    | some (.table .braced _) => none
    | some (.table origin sub) => do
      return fields.set key (.table origin (← modifyAt change path sub))
    | some (.tables items) => do
      let last ← modifyAt change path (← items.getLast?)
      return fields.set key (.tables (items.dropLast ++ [last]))
    | some _ => none

end Fields

inductive Header
  | single (parents : List String) (key : String)
  | repeated (parents : List String) (key : String)
deriving DecidableEq, Repr

namespace Fields

def addSection (root : Fields) (pairs : List (List String × Value)) : Header → Option Fields
  | .single parents key =>
    modifyAt (fun parent =>
      match parent.lookup key with
      | none => do return parent.set key (.table .headed (← insertAll [] pairs))
      | some (.table .implied fields) => do
        return parent.set key (.table .headed (← insertAll fields pairs))
      | some _ => none) parents root
  | .repeated parents key =>
    modifyAt (fun parent =>
      match parent.lookup key with
      | none => do return parent.set key (.tables [← insertAll [] pairs])
      | some (.tables items) => do
        return parent.set key (.tables (items ++ [← insertAll [] pairs]))
      | some _ => none) parents root

end Fields

end WireReplay.Toml
