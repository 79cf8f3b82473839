import BlockTemplate.Text.Basic

/-!
The arguments of a command line as items: flags, parameters with their values, and words. A
parameter takes its value from the rest of its own argument or from the next argument, which is
then a word. After `--` every argument is a word.
-/
namespace BlockTemplate.CommandLine

open Text

inductive Flag
  | keepBlankLines
  | nested
  | lint
  | tree
  | verbose
  | help
deriving DecidableEq, Repr

inductive Parameter
  | data
  | assignment
  | config
deriving DecidableEq, Repr

inductive Switch
  | flag (f : Flag)
  | parameter (p : Parameter)
deriving DecidableEq, Repr

/-- What can be wrong with the arguments. -/
inductive UsageError
  | unknownSwitch (name : Text)
  | unexpectedValue (switch value : Text)
  | missingValue (p : Parameter)
  | repeated (s : Switch)
  | emptyPath
  | badAssignment (text : Text)
  | unexpectedWord (text : Text)
  | missingTemplate
deriving DecidableEq, Repr

def longNames : List (Text × Switch) :=
  [("data".toList, .parameter .data), ("set".toList, .parameter .assignment),
    ("config".toList, .parameter .config), ("keep-blank-lines".toList, .flag .keepBlankLines),
    ("nested".toList, .flag .nested), ("lint".toList, .flag .lint), ("tree".toList, .flag .tree),
    ("verbose".toList, .flag .verbose), ("help".toList, .flag .help)]

def shortNames : List (Char × Switch) :=
  [('d', .parameter .data), ('s', .parameter .assignment), ('c', .parameter .config),
    ('v', .flag .verbose), ('h', .flag .help)]

inductive Item
  | flag (f : Flag)
  | parameter (p : Parameter) (value : Text)
  | word (text : Text)
  | wrong (e : UsageError)
deriving DecidableEq, Repr

/-- The form of one argument. A dash that stands alone is a word. -/
inductive Argument
  | terminator
  | long (body : Text)
  | short (body : Text)
  | word (text : Text)
deriving DecidableEq, Repr

namespace Argument

def ofText : Text → Argument
  | ['-', '-'] => terminator
  | '-' :: '-' :: body => long body
  | '-' :: c :: body => short (c :: body)
  | t => word t

end Argument

/-- The items of an argument, and the parameter whose value is in the next one. -/
structure Reading where
  items : List Item
  awaiting : Option Parameter := none

namespace Reading

def ofLong (body : Text) : Reading :=
  let (name, value) := match cut? ['='] body with
    | some (name, value) => (name, some value)
    | none => (body, none)
  match longNames.lookup name, value with
  | none, _ => ⟨[.wrong (.unknownSwitch ("--".toList ++ name))], none⟩
  | some (.flag f), none => ⟨[.flag f], none⟩
  | some (.flag _), some value => ⟨[.wrong (.unexpectedValue ("--".toList ++ name) value)], none⟩
  | some (.parameter p), none => ⟨[], some p⟩
  | some (.parameter p), some value => ⟨[.parameter p value], none⟩

/-- Flags may stand together. What follows a parameter is its value. -/
def ofShort : Text → Reading
  | [] => ⟨[], none⟩
  | c :: rest =>
    match shortNames.lookup c with
    | none => ⟨[.wrong (.unknownSwitch ['-', c])], none⟩
    | some (.flag f) =>
      let reading := ofShort rest
      { reading with items := .flag f :: reading.items }
    | some (.parameter p) =>
      if rest.isEmpty then ⟨[], some p⟩
      else ⟨[.parameter p ((after? ['='] rest).getD rest)], none⟩

end Reading

/-- The items of arguments in a row, the first of which may be the value of a parameter. -/
def itemsFrom (awaiting : Option Parameter) : List Text → List Item
  | [] => awaiting.toList.map fun p => .wrong (.missingValue p)
  | a :: rest =>
    match awaiting, Argument.ofText a with
    | some p, .word value => .parameter p value :: itemsFrom none rest
    | some p, _ => [.wrong (.missingValue p)]
    | none, .word text => .word text :: itemsFrom none rest
    | none, .terminator => rest.map .word
    | none, .long body =>
      let reading := Reading.ofLong body
      reading.items ++ itemsFrom reading.awaiting rest
    | none, .short body =>
      let reading := Reading.ofShort body
      reading.items ++ itemsFrom reading.awaiting rest

def items (arguments : List Text) : List Item := itemsFrom none arguments

end BlockTemplate.CommandLine
