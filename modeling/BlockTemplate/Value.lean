import BlockTemplate.Text.Basic

/-!
Values that can be bound to a name. A structured value stands for its scalars, each under a
dotted key: the key of the whole, then the names or positions that lead to the scalar.
-/
namespace BlockTemplate

inductive Value
  | scalar (text : Text)
  | list (items : List Value)
  | map (entries : List (Text × Value))

namespace Value

def dotted (key sub : Text) : Text := key ++ '.' :: sub

mutual

/-- The scalars of a value with their keys, depth first. -/
def flatten (key : Text) : Value → List (Text × Text)
  | scalar text => [(key, text)]
  | list items => flattenItems key 0 items
  | map entries => flattenEntries key entries

/-- The items of a list are keyed by position, the first of these being at `index`. -/
def flattenItems (key : Text) (index : Nat) : List Value → List (Text × Text)
  | [] => []
  | item :: items =>
    flatten (dotted key (Text.ofNat index)) item ++ flattenItems key (index + 1) items

def flattenEntries (key : Text) : List (Text × Value) → List (Text × Text)
  | [] => []
  | (sub, item) :: entries => flatten (dotted key sub) item ++ flattenEntries key entries

end

def scalar? : Value → Option Text
  | scalar text => some text
  | _ => none

/-- The entry with this key in a list sorted by key, replaced or put in its place. -/
def putSorted (key : Text) (value : Value) : List (Text × Value) → List (Text × Value)
  | [] => [(key, value)]
  | (k, v) :: entries =>
    if key = k then (key, value) :: entries
    else if key < k then (key, value) :: (k, v) :: entries
    else (k, v) :: putSorted key value entries

/-- Entries sorted by key, where the last of several entries with one key counts. -/
def sortByKey (entries : List (Text × Value)) : List (Text × Value) :=
  entries.foldl (fun sorted e => putSorted e.1 e.2 sorted) []

def sortedMap (entries : List (Text × Value)) : Value := map (sortByKey entries)

end Value
end BlockTemplate
