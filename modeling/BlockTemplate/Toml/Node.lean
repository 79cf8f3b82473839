import BlockTemplate.Decimal.Shortest
import BlockTemplate.Toml.Datetime

/-!
What a TOML document holds. Tables keep the order in which their keys were written, and a table
that stands in braces is told from one that has a header or dotted keys.
-/
namespace BlockTemplate.Toml

inductive Node
  | string (text : Text)
  | integer (n : Int)
  | float (x : BinaryNumber)
  | boolean (b : Bool)
  | datetime (d : Datetime)
  | array (items : List Node)
  | inlineTable (entries : List (Text × Node))
  | table (entries : List (Text × Node))
  | tables (items : List (List (Text × Node)))

def integerText (n : Int) : Text := Decimal.signed (decide (n < 0)) (Text.ofNat n.natAbs)

def booleanText (b : Bool) : Text := (if b then "true" else "false").toList

end BlockTemplate.Toml
