import BlockTemplate.Block.Basic
import BlockTemplate.Markup.Piece

/-!
The outline of a block: one line for each block with its placeholders, indented by its depth.
-/
namespace BlockTemplate.Block

open Text

/-- The names of the placeholders in the template, each once, in order of first appearance. -/
def placeholders (b : Block) : List Text :=
  ((Token.placeholders b.template).map Prod.fst).eraseDups

def outlineLine (depth : Nat) (b : Block) : Text :=
  (List.replicate depth "  ".toList).flatten ++
    (if b.name.isEmpty then "<root>".toList else b.name) ++
    b.placeholders.flatMap (fun name => " \x7b".toList ++ name ++ ['\x7d']) ++ ['\n']

mutual

/-- The outline of a block that stands `depth` levels below the root. -/
def outlineFrom (depth : Nat) : Block → Text
  | ⟨name, template, children, bindings, pending, style⟩ =>
    outlineLine depth ⟨name, template, children, bindings, pending, style⟩ ++
      outlineAll (depth + 1) children

def outlineAll (depth : Nat) : List Block → Text
  | [] => []
  | b :: bs => outlineFrom depth b ++ outlineAll depth bs

end

def outline (b : Block) : Text := outlineFrom 0 b

end BlockTemplate.Block
