import BlockTemplate.Toml.Document
import BlockTemplate.Value

/-!
The values that documents stand for. The entries of a table are sorted by key. A table with the
reserved key in front stands for the date that it has there, whatever else it holds, and a document
with such a table has no value when no date is there.
-/
namespace BlockTemplate.Toml

/-- The key that makes a table stand for a date. -/
def reservedKey : Text := "$__toml_private_datetime".toList

/-- The date that a string spells. -/
def Node.spelledDate? : Node → Option Datetime
  | .string text => Datetime.ofText? text
  | _ => none

/-- The value of a table, given the values of its entries. -/
def tableValue? (entries : List (Text × Node)) (values : Option (List (Text × Value))) :
    Option Value :=
  match entries with
  | (key, n) :: _ =>
    if key == reservedKey then n.spelledDate?.map fun d => .scalar d.text
    else values.map Value.sortedMap
  | [] => values.map Value.sortedMap

mutual

def Node.value? : Node → Option Value
  | .string text => some (.scalar text)
  | .integer n => some (.scalar (integerText n))
  | .float x => some (.scalar (x.text .double))
  | .boolean b => some (.scalar (booleanText b))
  | .datetime d => some (.scalar d.text)
  | .array items => (itemValues? items).map Value.list
  | .inlineTable entries => tableValue? entries (entryValues? entries)
  | .table entries => tableValue? entries (entryValues? entries)
  | .tables items => (tableValues? items).map Value.list

def itemValues? : List Node → Option (List Value)
  | [] => some []
  | n :: ns => do return (← n.value?) :: (← itemValues? ns)

def entryValues? : List (Text × Node) → Option (List (Text × Value))
  | [] => some []
  | (key, n) :: es => do return (key, ← n.value?) :: (← entryValues? es)

def tableValues? : List (List (Text × Node)) → Option (List Value)
  | [] => some []
  | t :: ts => do return (← tableValue? t (entryValues? t)) :: (← tableValues? ts)

end

/-- The entries of a document with their values, in the order of their keys. In a document itself
no key is reserved. -/
def values? (t : Text) : Option (List (Text × Value)) :=
  (parse? t).bind fun entries => (entryValues? entries).map Value.sortByKey

end BlockTemplate.Toml
