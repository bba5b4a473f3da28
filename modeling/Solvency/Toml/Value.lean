import Solvency.Table

/-! TOML values, and the rules by which headers and dotted keys build up tables. Nothing is
defined twice, and a table that is complete is not added to. -/

namespace Solvency.Toml

inductive Origin where
  /-- Written in braces, and complete with them. -/
  | inline
  /-- By a header of its own. -/
  | header
  /-- On the way to the table of a longer header. -/
  | implied
  /-- On the way to the value of a dotted key. -/
  | dotted
deriving DecidableEq

inductive Value where
  | string (value : String)
  | integer (value : Int)
  | float (text : String)
  | boolean (value : Bool)
  | dateTime (text : String)
  | array (items : List Value)
  | table (origin : Origin) (members : Table String Value)
  /-- The tables of equal array headers; the newest one is still added to. -/
  | tables (older : List Value) (newest : Table String Value)
deriving Inhabited

abbrev Members := Table String Value

namespace Members

/-- Changes the table at the end of a path of headers. -/
def within (members : Members) (f : Members → Option Members) :
    (path : List String) → Option Members
  | [] => f members
  | key :: path =>
    match members.find? key with
    | none => do return members.insert key (.table .implied (← within {} f path))
    | some (.table .inline _) => none
    | some (.table origin below) => do
      return members.insert key (.table origin (← within below f path))
    | some (.tables older newest) => do
      return members.insert key (.tables older (← within newest f path))
    | some _ => none

/-- Enters a value under a dotted key. Tables that have a header are not passed through, and
only the table at hand and those of other dotted keys take values. -/
def enter (members : Members) (value : Value) : (path : List String) → Option Members
  | [] => none
  | [key] => if members.contains key then none else some (members.insert key value)
  | key :: path =>
    match members.find? key with
    | none => do return members.insert key (.table .dotted (← enter {} value path))
    | some (.table .dotted below) => do
      return members.insert key (.table .dotted (← enter below value path))
    | some (.table .implied below) =>
      if path.length = 1 then none
      else do return members.insert key (.table .implied (← enter below value path))
    | some (.tables older newest) =>
      if path.length = 1 then none
      else do return members.insert key (.tables older (← enter newest value path))
    | some _ => none

/-- A header opens a table that is new or was only implied so far. -/
def openTable (members : Members) (path : List String) : Option Members :=
  members.within (fun parent => do
    let key ← path.getLast?
    match parent.find? key with
    | none => some (parent.insert key (.table .header {}))
    | some (.table .implied below) => some (parent.insert key (.table .header below))
    | some _ => none) path.dropLast

/-- An array header opens one more table. -/
def openItem (members : Members) (path : List String) : Option Members :=
  members.within (fun parent => do
    let key ← path.getLast?
    match parent.find? key with
    | none => some (parent.insert key (.tables [] {}))
    | some (.tables older newest) =>
      some (parent.insert key (.tables (older ++ [.table .header newest]) {}))
    | some _ => none) path.dropLast

def ofPairs? (pairs : List (List String × Value)) : Option Members :=
  pairs.foldlM (fun members (path, value) => members.enter value path) {}

end Members

end Solvency.Toml
