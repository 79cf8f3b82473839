import BlockTemplate.Toml.Node

/-!
Tables while a document is read. A table that is named only on the way to another one may still
get its own header, but once, and tables made by dotted keys are open to dotted keys alone.
-/
namespace BlockTemplate.Toml

/-- How a table came to be: on the way to another one, by dotted keys, or by itself. -/
inductive Standing
  | implied
  | dotted
  | defined
deriving DecidableEq, Repr

inductive Draft
  | node (n : Node)
  | table (standing : Standing) (entries : List (Text × Draft))
  | tables (items : List (List (Text × Draft)))

abbrev Entries := List (Text × Draft)

namespace Entries

def put (key : Text) (d : Draft) (es : Entries) : Entries :=
  es.map fun e => if e.1 == key then (key, d) else e

def erase (key : Text) (es : Entries) : Entries := es.filter (·.1 != key)

/-- Changes the table at the end of a path, making the tables on the way that are missing. Of an
array of tables the last one is meant. -/
def alter (made : Standing) (change : Standing → Entries → Option Entries) :
    List Text → Standing → Entries → Option Entries
  | [], standing, es => change standing es
  | key :: rest, _, es =>
    match es.lookup key with
    | none => (alter made change rest made []).map fun sub => es ++ [(key, .table made sub)]
    | some (.node _) => none
    | some (.table standing sub) =>
      if made = .dotted ∧ standing = .defined then none
      else (alter made change rest standing sub).map fun sub => put key (.table standing sub) es
    | some (.tables items) =>
      (alter made change rest .defined (items.getLast?.getD [])).map fun last =>
        put key (.tables (items.dropLast ++ [last])) es

/-- A node under a dotted key. The table it goes to must have been made by dotted keys, unless
the key has one part only. -/
def insertNode (key : List Text) (n : Node) (es : Entries) : Option Entries :=
  match key.getLast? with
  | none => none
  | some name =>
    let path := key.dropLast
    let change := fun standing (es : Entries) =>
      if (standing == .dotted) == path.isEmpty then none
      else if (es.lookup name).isSome then none
      else some (es ++ [(name, .node n)])
    alter .dotted change path .defined es

/-- A table with a header of its own. -/
def openTable (header : List Text) (root : Entries) : Option Entries :=
  match header.getLast? with
  | none => none
  | some name =>
    let change := fun _ (es : Entries) =>
      match es.lookup name with
      | none => some (es ++ [(name, .table .defined [])])
      | some (.table .implied sub) => some (erase name es ++ [(name, .table .defined sub)])
      | some _ => none
    alter .implied change header.dropLast .defined root

/-- One more table of an array. -/
def openItem (header : List Text) (root : Entries) : Option Entries :=
  match header.getLast? with
  | none => none
  | some name =>
    let change := fun _ (es : Entries) =>
      match es.lookup name with
      | none => some (es ++ [(name, .tables [[]])])
      | some (.tables items) => some (put name (.tables (items ++ [[]])) es)
      | some _ => none
    alter .implied change header.dropLast .defined root

/-- A node under a dotted key in the table that was opened last. -/
def insertUnder (header key : List Text) (n : Node) (root : Entries) : Option Entries :=
  alter .implied (fun _ es => insertNode key n es) header .defined root

end Entries

mutual

def Draft.finish : Draft → Node
  | .node n => n
  | .table _ entries => .table (finishEntries entries)
  | .tables items => .tables (finishTables items)

def finishEntries : List (Text × Draft) → List (Text × Node)
  | [] => []
  | (key, d) :: es => (key, d.finish) :: finishEntries es

def finishTables : List (List (Text × Draft)) → List (List (Text × Node))
  | [] => []
  | t :: ts => finishEntries t :: finishTables ts

end

end BlockTemplate.Toml
