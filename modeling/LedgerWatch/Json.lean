/-
  LedgerWatch.Json — documents.

  Integers are kept apart from other numbers, and the entries of an object are kept as
  written, repeated keys included. `garbled` is a part that is well formed but stands
  for no value: a string with half of a surrogate pair, an object with such a key, a
  number beyond the largest float. No record is read from it, so it only does no harm
  where it is skipped.
-/

namespace LedgerWatch

inductive Json where
  | null
  | bool (b : Bool)
  | int (n : Int)
  | real (x : Float)
  | str (s : String)
  | arr (items : List Json)
  | obj (entries : List (String × Json))
  | garbled

namespace Json

instance : Inhabited Json := ⟨.null⟩

/-- The integers that stay integers: those of 64 bits, signed or not. -/
def minInt : Int := -0x8000000000000000

def maxInt : Int := 0xffffffffffffffff

/-- What an object holds under a name, if it holds it once. -/
def only? (name : String) (entries : List (String × Json)) : Option Json :=
  match entries.filter (·.1 = name) with
  | [(_, j)] => some j
  | _ => none

/-- The fields of a record, in the order of `names`: from an object that has each name once, whatever
else it has, or from an array of just the fields. -/
def fields? (names : List String) : Json → Option (List Json)
  | .obj entries => names.mapM fun name => only? name entries
  | .arr items => if items.length = names.length then some items else none
  | _ => none

/-- What an object holds last under a name; null if nothing. -/
def get (j : Json) (name : String) : Json :=
  match j with
  | .obj entries => ((entries.reverse.find? (·.1 = name)).map (·.2)).getD .null
  | _ => .null

mutual

/-- Of entries with one key, the last one stays. -/
def lastWins : Json → Json
  | .arr items => .arr (lastWinsItems items)
  | .obj entries => .obj (lastWinsEntries entries)
  | j => j

def lastWinsItems : List Json → List Json
  | [] => []
  | j :: js => lastWins j :: lastWinsItems js

def lastWinsEntries : List (String × Json) → List (String × Json)
  | [] => []
  | (k, j) :: es =>
    if es.any (·.1 = k) then lastWinsEntries es else (k, lastWins j) :: lastWinsEntries es

end

mutual

/-- Levels of arrays and objects. -/
def depth : Json → Nat
  | .arr items => depthItems items + 1
  | .obj entries => depthEntries entries + 1
  | _ => 0

def depthItems : List Json → Nat
  | [] => 0
  | j :: js => max (depth j) (depthItems js)

def depthEntries : List (String × Json) → Nat
  | [] => 0
  | (_, j) :: es => max (depth j) (depthEntries es)

end

mutual

/-- No part of it is garbled. -/
def isClear : Json → Bool
  | .garbled => false
  | .arr items => isClearItems items
  | .obj entries => isClearEntries entries
  | _ => true

def isClearItems : List Json → Bool
  | [] => true
  | j :: js => isClear j && isClearItems js

def isClearEntries : List (String × Json) → Bool
  | [] => true
  | (_, j) :: es => isClear j && isClearEntries es

end

/-- It can be taken in whole: nothing in it is garbled, and it is nested no deeper than 127 levels. -/
def isWhole (j : Json) : Bool := j.isClear && decide (j.depth ≤ 127)

end Json

end LedgerWatch
