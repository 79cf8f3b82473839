import BlockTemplate.Files.Basic

/-!
A fixed tree of directories and files held in memory. A path is followed component by component
from the top; what lies outside of the tree holds no file.
-/
namespace BlockTemplate

/-- What a name in a directory stands for. The text of a file is missing if its bytes are no
UTF-8. -/
inductive Entry
  | directory
  | file (text : Option Text)

/-- The entries by their component names, seen from the top. -/
structure FileTree where
  entries : List (List Text × Entry)

namespace FileTree

def empty : FileTree := ⟨[]⟩

/-- The names of the components of a relative path. -/
def names (p : Path) : List Text := (p.text.splitOn '/').filter fun s => !s.isEmpty && s != ['.']

/-- The directories on the way to a list of names, the top left out. -/
def ancestors (ns : List Text) : List (List Text) :=
  (List.range (ns.length - 1)).map fun i => ns.take (i + 1)

/-- A later entry of a name hides an earlier one. -/
def insert (tree : FileTree) (p : Path) (entry : Entry) : FileTree :=
  let ns := names p
  ⟨(ns, entry) :: (ancestors ns).map (·, .directory) ++ tree.entries⟩

def entry? (tree : FileTree) (ns : List Text) : Option Entry :=
  if ns.isEmpty then some .directory else tree.entries.lookup ns

/-- The longest name and the longest path that can be looked up, in bytes. -/
def longestName : Nat := 255

def longestPath : Nat := 4095

/-- Where a walk has come to: the names from the top, last one first, or a directory outside. -/
inductive Place
  | inside (names : List Text)
  | outside

/-- The place one component further on. -/
def step (tree : FileTree) (place : Place) (name : Text) : Except ReadError Place :=
  match place with
  | .outside =>
    if name.isEmpty || name == ['.'] || name == ['.', '.'] then .ok .outside
    else .error (if name.byteSize > longestName then .nameTooLong else .notFound)
  | .inside ns =>
    match tree.entry? ns.reverse with
    | none => .error .notFound
    | some (.file _) => .error .notDirectory
    | some .directory =>
      if name.isEmpty || name == ['.'] then .ok place
      else if name == ['.', '.'] then .ok (if ns.isEmpty then .outside else .inside ns.tail)
      else if name.byteSize > longestName then .error .nameTooLong
      else if (tree.entry? (name :: ns).reverse).isSome then .ok (.inside (name :: ns))
      else .error .notFound

def walk (tree : FileTree) (place : Place) : List Text → Except ReadError Place
  | [] => .ok place
  | name :: rest => (tree.step place name).bind fun next => walk tree next rest

/-- The text of the file that a path leads to. -/
def read (tree : FileTree) : Files := fun p => do
  if p.text.contains '\x00' then throw .nulInName
  if p.text.isEmpty then throw .notFound
  if p.text.byteSize > longestPath then throw .nameTooLong
  let start := if p.isAbsolute then Place.outside else .inside []
  match ← tree.walk start (p.text.splitOn '/') with
  | .outside => throw .isDirectory
  | .inside ns =>
    match tree.entry? ns.reverse with
    | some (.file (some text)) => return text
    | some (.file none) => throw .notUtf8
    | some .directory => throw .isDirectory
    | none => throw .notFound

end FileTree
end BlockTemplate
