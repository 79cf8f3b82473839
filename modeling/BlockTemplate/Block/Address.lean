import BlockTemplate.Block.Snapshot

/-!
Blocks in a tree, reached by the positions of the children on the way, and the operations that
change a tree at such a place.
-/
namespace BlockTemplate

abbrev Address := List Nat

namespace Block

def at? : Block → Address → Option Block
  | b, [] => some b
  | b, i :: rest => b.children[i]?.bind (at? · rest)

/-- The tree with the block at an address changed. -/
def update (f : Block → Block) : Address → Block → Block
  | [], b => f b
  | i :: rest, b => { b with children := b.children.modify i (update f rest) }

/-- The address of the block that names lead to. -/
def find (b : Block) : List Text → Except TemplateError Address
  | [] => .ok []
  | name :: rest =>
    match b.children.findIdx? (·.name == name) with
    | none => .error (.unknownBlock name b.childNames)
    | some i =>
      match b.children[i]? with
      | none => .error (.unknownBlock name b.childNames)
      | some c => (find c rest).map (i :: ·)

end Block

inductive Operation
  | assign (key : Text) (value : Value)
  | commit
  | drain

namespace Operation

def apply : Operation → Block → Block
  | assign key value, b => b.assign key value
  | commit, b => b.commit
  | drain, b => b.emptied

/-- The text that an operation hands out. -/
def text? : Operation → Block → Option Text
  | drain, b => some b.output
  | _, _ => none

def notices : Operation → Block → List Notice
  | assign .., _ => []
  | commit, b => b.commitNotices
  | drain, b => [b.drainNotice]

end Operation
end BlockTemplate
