import BlockTemplate.Proofs.Block.Placing

/-!
Documents: texts and named blocks in a row, where the body of a block is a document again. A
document can be printed as a template, and it says itself which tree of blocks that template
stands for. Of blocks in a row that share a name the last one counts, at the place of the first.
-/
namespace BlockTemplate

/-- Nothing, a text with what follows it, or a block with what follows it. -/
inductive Document
  | nil
  | text (t : Text) (rest : Document)
  | block (name : Text) (body rest : Document)
deriving DecidableEq, Repr

namespace Document

def openingMarker (name : Text) : Text := Token.openingWord ++ name ++ Token.markerEnd

def closingMarker (name : Text) : Text := Token.closingWord ++ name ++ Token.markerEnd

/-- The document as a template. -/
def print : Document → Text
  | nil => []
  | text t rest => t ++ print rest
  | block name body rest =>
    openingMarker name ++ print body ++ closingMarker name ++ print rest

/-- No text of the document can be taken for markup, and every name can stand in a marker. -/
def Writable : Document → Prop
  | nil => True
  | text t rest => '<' ∉ t ∧ '\x7b' ∉ t ∧ Writable rest
  | block name body rest =>
    '<' ∉ name ∧ '>' ∉ name ∧ Text.trimStart name = name ∧ Writable body ∧ Writable rest

/-- The greatest number of blocks that stand within one another. -/
def depth : Document → Nat
  | nil => 0
  | text _ rest => depth rest
  | block _ body rest => max (depth body + 1) (depth rest)

/-- The names of all blocks, at whatever depth. -/
def names : Document → List Text
  | nil => []
  | text _ rest => names rest
  | block name body rest => name :: names body ++ names rest

/-- Behind a block its name is not used again in the same row, neither by the blocks that stand
there nor within them. The case of ASCII letters makes no difference. -/
def Apart : Document → Prop
  | nil => True
  | text _ rest => Apart rest
  | block name body rest =>
    (∀ n ∈ names rest, Text.sameFolded n name = false) ∧ Apart body ∧ Apart rest

instance decidableWritable : (d : Document) → Decidable (Writable d)
  | nil => isTrue trivial
  | text t rest =>
    have := decidableWritable rest
    inferInstanceAs (Decidable ('<' ∉ t ∧ '\x7b' ∉ t ∧ Writable rest))
  | block name body rest =>
    have := decidableWritable body
    have := decidableWritable rest
    inferInstanceAs (Decidable ('<' ∉ name ∧ '>' ∉ name ∧ Text.trimStart name = name ∧
      Writable body ∧ Writable rest))

instance decidableApart : (d : Document) → Decidable (Apart d)
  | nil => isTrue trivial
  | text _ rest => decidableApart rest
  | block name body rest =>
    have := decidableApart body
    have := decidableApart rest
    inferInstanceAs (Decidable ((∀ n ∈ names rest, Text.sameFolded n name = false) ∧
      Apart body ∧ Apart rest))

/-- The texts of a document with a slot for each block. -/
def slots : Document → Text
  | nil => []
  | text t rest => t ++ slots rest
  | block name _ rest => Slot.ofName name ++ slots rest

/-- The blocks in a row of a document. -/
def blocks (style : Style) : Document → List Block
  | nil => []
  | text _ rest => blocks style rest
  | block name body rest =>
    Block.new name (slots body) (Block.lastOfEachName (blocks style body)) style ::
      blocks style rest

/-- The block with a document as its content. -/
def toBlock (style : Style) (name : Text) (d : Document) : Block :=
  Block.new name (slots d) (Block.lastOfEachName (blocks style d)) style

end Document
end BlockTemplate
