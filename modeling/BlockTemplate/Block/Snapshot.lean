import BlockTemplate.Block.Basic
import BlockTemplate.Notice
import BlockTemplate.Rendering.BlankLines
import BlockTemplate.Rendering.Slot
import BlockTemplate.Rendering.Substitution

/-!
Rendering in two steps. Committing a block takes a snapshot of it and adds it to the texts that
are pending; draining hands out what is pending. A snapshot drains each child once and puts what
was pending there in the slots of the child.
-/
namespace BlockTemplate.Block

open Text

/-- The pending texts put together. -/
def output (b : Block) : Text := b.pending.flatten

def emptied (b : Block) : Block := { b with pending := [] }

/-- The pending texts, and the block without them. -/
def drain (b : Block) : Text × Block := (b.output, b.emptied)

def drainNotice (b : Block) : Notice := .drained b.name b.output.byteSize

/-- The template with the bound texts in the place of its placeholders. -/
def substituted (b : Block) : Text :=
  substitute b.boundText? b.style.unbound b.template

/-- The slots of the children filled, one child after the other. -/
def fillSlots (children : List Block) (t : Text) : Text :=
  children.foldl (fun t c => replaceAll (Slot.ofName c.name) c.output t) t

/-- What the block reads in its present state. -/
def snapshot (b : Block) : Text :=
  let t := Slot.clear (fillSlots b.children b.substituted)
  if b.style.collapseBlankLines then collapse t else t

/-- The block with its snapshot pending and its children drained. -/
def commit (b : Block) : Block :=
  { b with pending := b.pending ++ [b.snapshot], children := b.children.map emptied }

def commitNotices (b : Block) : List Notice :=
  b.children.map drainNotice ++ [.committed b.name b.snapshot.byteSize]

end BlockTemplate.Block
