import BlockTemplate.Block.Build
import BlockTemplate.Block.Snapshot

/-!
A template: the root of a tree of blocks, with the settings and the directory it was built with.
-/
namespace BlockTemplate

structure Template where
  root : Block
  settings : Settings
  origin : Origin

namespace Template

def ofText (files : Files) (origin : Origin) (settings : Settings) (t : Text) :
    Template × List Notice :=
  let built := Block.build files origin settings t
  (⟨built.block, settings, origin⟩, built.notices)

/-- The template in a file, whose directory is the one that the file is in. -/
def ofFile (files : Files) (settings : Settings) (path : Path) :
    Except TemplateError (Template × List Notice) :=
  match files path with
  | .error cause => .error (.sourceNotFound path cause)
  | .ok t =>
    let (template, notices) := ofText files (Origin.ofFile path) settings t
    .ok (template, .loaded path t.byteSize :: notices)

def assign (t : Template) (key : Text) (value : Value) : Template :=
  { t with root := t.root.assign key value }

/-- Values assigned one after the other. -/
def assignAll (t : Template) (values : List (Text × Value)) : Template :=
  values.foldl (fun t v => t.assign v.1 v.2) t

/-- Commits the root and hands out its text. -/
def print (t : Template) : Text × Template :=
  let (text, root) := t.root.commit.drain
  (text, { t with root := root })

end Template
end BlockTemplate
