import BlockTemplate.Files.Basic
import BlockTemplate.Settings.Basic
import BlockTemplate.Text.Quoted
import BlockTemplate.Toml.Document

/-!
Settings read from the table `template` of a TOML document. The keys of the table are taken in
the order in which they are written, and the first that has a wrong value is reported. An array
in the place of the table has the values of all keys in a fixed order.
-/
namespace BlockTemplate

open Toml

inductive SettingsError
  | unreadable (cause : ReadError)
  | notToml
  | wrongType (found : Node) (expected : Text)
  | negative (n : Int)
  | tooFew (count : Nat)
  | unknownChoice (name : Text) (choices : List Text)
  | choiceNotNamed
  | noChoice
  | manyChoices
  | choiceWithItems
  | choiceWithEntries
  | choiceWithValue (found : Text)

/-- What a node is called where another kind of node was wanted. -/
def Toml.Node.description : Node → Text
  | .string text => "string ".toList ++ text.quoted
  | .integer n => "integer `".toList ++ integerText n ++ "`".toList
  | .float x =>
    let t := x.text .double
    let whole := match x with
      | .finite .. => !t.contains '.'
      | _ => false
    "floating point `".toList ++ t ++ (if whole then ".0" else "").toList ++ "`".toList
  | .boolean b => "boolean `".toList ++ booleanText b ++ "`".toList
  | .array _ | .tables _ => "sequence".toList
  | .datetime _ | .inlineTable _ | .table _ => "map".toList

namespace SettingsError

def sectionName : Text := "struct TomlTemplateSection".toList

def backquoted (t : Text) : Text := "`".toList ++ t ++ "`".toList

def message : SettingsError → Text
  | unreadable cause => "Failed to read config file: ".toList ++ cause.message
  | notToml => "TOML parse error".toList
  | wrongType found expected =>
    "invalid type: ".toList ++ found.description ++ ", expected ".toList ++ expected
  | negative n =>
    "invalid value: ".toList ++ (Node.integer n).description ++ ", expected usize".toList
  | tooFew count =>
    "invalid length ".toList ++ Text.ofNat count ++ ", expected ".toList ++ sectionName ++
      " with 4 elements".toList
  | unknownChoice name choices =>
    "unknown variant ".toList ++ backquoted name ++ ", expected ".toList ++
      Text.join " or ".toList (choices.map backquoted)
  | choiceNotNamed => "wanted string or table".toList
  | noChoice => "wanted exactly 1 element, found 0 elements".toList
  | manyChoices => "wanted exactly 1 element, more than 1 element".toList
  | choiceWithItems => "expected empty array".toList
  | choiceWithEntries => "expected empty table".toList
  | choiceWithValue found => "expected table, found ".toList ++ found

/-- The message with the step that failed in front. -/
def report : SettingsError → Text
  | unreadable cause => (unreadable cause).message
  | notToml => "Failed to parse config TOML: ".toList ++ notToml.message
  | e => "Failed to parse config TOML: ".toList ++ notToml.message ++ ": ".toList ++ e.message

end SettingsError

namespace Settings

abbrev Read (α : Type) := Except SettingsError α

def readFlag : Node → Read Bool
  | .boolean b => .ok b
  | found => .error (.wrongType found "a boolean".toList)

def readSize : Node → Read Nat
  | .integer n => if n < 0 then .error (.negative n) else .ok n.toNat
  | found => .error (.wrongType found "usize".toList)

/-- A choice that is written as the key of a table has nothing in it. -/
def checkEmpty : Node → Read Unit
  | .array items => if items.isEmpty then .ok () else .error .choiceWithEntries
  | .tables items => if items.isEmpty then .ok () else .error .choiceWithItems
  | .inlineTable entries | .table entries =>
    if entries.isEmpty then .ok () else .error .choiceWithEntries
  | .string _ => .error (.choiceWithValue "string".toList)
  | .integer _ => .error (.choiceWithValue "integer".toList)
  | .float _ => .error (.choiceWithValue "float".toList)
  | .boolean _ => .error (.choiceWithValue "boolean".toList)
  | .datetime _ => .error (.choiceWithValue "datetime".toList)

def readChoice {α : Type} (choices : List (Text × α)) (n : Node) : Read α :=
  let named (name : Text) : Read α :=
    match choices.lookup name with
    | some a => .ok a
    | none => .error (.unknownChoice name (choices.map Prod.fst))
  match n with
  | .string name => named name
  | .inlineTable entries | .table entries =>
    match entries with
    | [] => .error .noChoice
    | [(name, content)] => do
      let a ← named name
      checkEmpty content
      return a
    | _ => .error .manyChoices
  | _ => .error .choiceNotNamed

def matchModes : List (Text × MatchMode) :=
  [("greedy".toList, .greedy), ("nested".toList, .nested)]

def unboundChoices : List (Text × Unbound) := [("keep".toList, .keep), ("blank".toList, .blank)]

/-- The keys of the table, each with what its value changes. -/
def fields : List (Text × (Settings → Node → Read Settings)) :=
  [("collapse_blank_lines".toList, fun s n =>
      (readFlag n).map fun b => { s with style := { s.style with collapseBlankLines := b } }),
    ("match_mode".toList, fun s n =>
      (readChoice matchModes n).map fun mode => { s with matchMode := mode }),
    ("unbound_variables".toList, fun s n =>
      (readChoice unboundChoices n).map fun u => { s with style := { s.style with unbound := u } }),
    ("large_input_threshold".toList, fun s n =>
      (readSize n).map fun size => { s with largeSize := size })]

def ofEntries (entries : List (Text × Node)) : Read Settings :=
  entries.foldlM (fun s e => match fields.lookup e.1 with
    | some set => set s e.2
    | none => .ok s) {}

def ofItems (items : List Node) : Read Settings := do
  let s ← (fields.zip items).foldlM (fun s (field, n) => field.2 s n) {}
  if items.length < fields.length then .error (.tooFew items.length) else .ok s

def ofNode : Node → Read Settings
  | .table entries | .inlineTable entries => ofEntries entries
  | .array items => ofItems items
  | .tables items => ofItems (items.map .table)
  | .datetime _ => .ok {}
  | found => .error (.wrongType found SettingsError.sectionName)

/-- The settings in the text of a document. -/
def ofText (t : Text) : Read Settings :=
  match Toml.parse? t with
  | none => .error .notToml
  | some entries => ((entries.lookup "template".toList).map ofNode).getD (.ok {})

def ofFile (files : Files) (p : Path) : Read Settings :=
  match files p with
  | .error cause => .error (.unreadable cause)
  | .ok t => ofText t

end Settings
end BlockTemplate
