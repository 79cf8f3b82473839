import BlockTemplate.Toml.Scalar
import BlockTemplate.Toml.Table

/-!
The reading of a whole document: its lines as statements, and the table that they describe.
-/
namespace BlockTemplate.Toml

open Reader

/-- White space, line ends and comments between the items of an array. -/
def gap : Reader Unit := do
  let _ ← many ((do let _ ← run1 isWhite) <|> newline <|> (do comment; newline))

def items (node : Reader Node) : Reader (List Node) := do
  exactly ['[']
  let listed ← maybe (separated (do gap; let n ← node; gap; return n) (exactly [',']))
  let _ ← maybe (if listed.isSome then exactly [','] else failure)
  gap
  exactly [']']
  return listed.getD []

def pair (node : Reader Node) : Reader (List Text × Node) := do
  let k ← key
  exactly ['=']
  white
  let n ← node
  return (k, n)

/-- The entries of a table in braces, which stand on one line. -/
def braced (node : Reader Node) : Reader (List (Text × Node)) := do
  exactly ['\x7b']
  let pairs ← maybe (separated (do let p ← pair node; white; return p) (exactly [',']))
  white
  exactly ['\x7d']
  match (pairs.getD []).foldlM (fun es (k, n) => Entries.insertNode k n es) [] with
  | some es => return finishEntries es
  | none => failure

/-- A node within which nodes are nested less than `levels` deep. -/
def nodeWithin : Nat → Reader Node
  | 0 => scalar
  | levels + 1 =>
    scalar <|> (Node.array <$> items (nodeWithin levels)) <|>
      (Node.inlineTable <$> braced (nodeWithin levels))

def node : Reader Node := nodeWithin (maxNesting - 1)

inductive Statement
  | entry (key : List Text) (node : Node)
  | table (header : List Text)
  | item (header : List Text)

def lineEnd : Reader Unit := newline <|> atEnd

def restOfLine : Reader Unit := do
  white
  let _ ← maybe comment
  lineEnd

def statement : Reader Statement :=
  (do
    exactly ['[', '[']
    let header ← key
    exactly [']', ']']
    restOfLine
    return .item header) <|>
  (do
    exactly ['[']
    let header ← key
    exactly [']']
    restOfLine
    return .table header) <|>
  (do
    let (k, n) ← pair node
    restOfLine
    return .entry k n)

/-- A line without a statement. -/
def emptyLine : Reader Unit := newline <|> (do comment; lineEnd)

def statements : Reader (List Statement) := do
  let _ ← maybe (exactly ['\uFEFF'])
  white
  let found ← many do
    let s ← (some <$> statement) <|> (do emptyLine; return none)
    white
    return s
  atEnd
  return found.filterMap id

/-- The root table so far and the header of the table that was opened last. -/
structure Progress where
  root : Entries
  header : List Text

def Progress.add (p : Progress) : Statement → Option Progress
  | .entry k n => (Entries.insertUnder p.header k n p.root).map fun root => ⟨root, p.header⟩
  | .table header => (Entries.openTable header p.root).map fun root => ⟨root, header⟩
  | .item header => (Entries.openItem header p.root).map fun root => ⟨root, header⟩

/-- The entries of a document, in the order of their keys in it, if it is one. -/
def parse? (t : Text) : Option (List (Text × Node)) := do
  let (found, _) ← statements t
  let p ← found.foldlM Progress.add ⟨[], []⟩
  return finishEntries p.root

end BlockTemplate.Toml
