import BlockTemplate.Files.Basic
import BlockTemplate.Markup.Piece
import BlockTemplate.Notice

/-!
Where the paths of inclusions lead. A path written with `./` in front starts from the directory
of the template, every other path is taken as written. Expanding a text puts the contents of a
file in the place of each inclusion; the contents themselves are not looked at, and an inclusion
that cannot be read stays as it is.
-/
namespace BlockTemplate

/-- The directory of a template, if it has one. -/
structure Origin where
  baseDir : Option Path := none
deriving DecidableEq, Repr

namespace Origin

open Text

def ofFile (p : Path) : Origin := ⟨p.parent?⟩

/-- The path of the file that a written path stands for. -/
def locate (o : Origin) (written : Text) : Path :=
  match after? ['.', '/'] written, o.baseDir with
  | some rest, some base => base.join ⟨rest⟩
  | _, _ => ⟨written⟩

def read? (o : Origin) (files : Files) (written : Text) : Option Text :=
  files.text? (o.locate written)

/-- The text that stands in the place of a piece. -/
def splice (o : Origin) (files : Files) (p : Piece) : Text :=
  match p.token with
  | some (.inclusion path) => (o.read? files path).getD p.text
  | _ => p.text

def expand (o : Origin) (files : Files) (t : Text) : Text :=
  (Piece.ofText t).flatMap (o.splice files)

/-- One notice for each inclusion of the text. -/
def expandNotices (o : Origin) (files : Files) (t : Text) : List Notice :=
  (Token.inclusions t).map fun (path, _) =>
    match o.read? files path with
    | some text => .included path text.byteSize
    | none => .notIncluded path

end Origin
end BlockTemplate
