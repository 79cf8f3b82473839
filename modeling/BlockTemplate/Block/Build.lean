import BlockTemplate.Block.Basic
import BlockTemplate.Origin
import BlockTemplate.Rendering.Slot

/-!
Blocks built from text. Inclusions are expanded, each outermost region becomes a slot and its
body is built in the same way as a child block. Of regions with one name the last is kept, in
the place of the first. Past the greatest depth a body stays text.
-/
namespace BlockTemplate.Block

/-- A block with what was noticed while it was built. -/
structure Built where
  block : Block
  notices : List Notice

/-- The child that has the name of `b` replaced by `b`, or `b` as last child. -/
def place (b : Block) : List Block → List Block
  | [] => [b]
  | c :: cs => if c.name = b.name then b :: cs else c :: place b cs

def placeAll (bs : List Block) : List Block := bs.foldl (fun cs b => place b cs) []

/-- The notices of children in a row, with one more for each whose name is among `seen`. -/
def childNotices (parent : Text) (seen : List Text) : List Built → List Notice
  | [] => []
  | c :: cs =>
    c.notices ++ (if c.block.name ∈ seen then [.redefined c.block.name parent] else []) ++
      childNotices parent (c.block.name :: seen) cs

/-- The text of a level with slots in the place of its regions. -/
def slotted (level : Level) : Text :=
  level.flatMap fun
    | .kept p => p.text
    | .region r => Slot.ofName r.name

def levelNotices (name : Text) (level : Level) : List Notice :=
  level.unterminated.map (fun (marker, span) => .unterminated marker name span) ++
    level.strayEnds.map (fun (marker, span) => .strayEnd marker name span)

def sizeNotices (settings : Settings) (name t : Text) : List Notice :=
  if t.byteSize > settings.largeSize then [.large name t.byteSize settings.largeSize] else []

/-- Builds a block below which `levels` more levels are read. -/
def buildWithin (files : Files) (origin : Origin) (settings : Settings) :
    Nat → Text → Text → Built
  | 0, name, t =>
    let expanded := origin.expand files t
    ⟨new name expanded [] settings.style,
      origin.expandNotices files t ++ sizeNotices settings name expanded ++ [.tooDeep name]⟩
  | levels + 1, name, t =>
    let expanded := origin.expand files t
    let level := Level.ofText settings.matchMode expanded
    let built := level.regions.map fun r =>
      buildWithin files origin settings levels r.1.name r.1.bodyText
    let children := placeAll (built.map Built.block)
    ⟨new name (slotted level) children settings.style,
      origin.expandNotices files t ++ sizeNotices settings name expanded ++
        levelNotices name level ++ childNotices name [] built ++ [.built name children.length]⟩

/-- The root block of a text. -/
def build (files : Files) (origin : Origin) (settings : Settings) (t : Text) : Built :=
  buildWithin files origin settings (maxDepth + 1) [] t

end BlockTemplate.Block
