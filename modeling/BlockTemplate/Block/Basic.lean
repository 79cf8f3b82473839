import BlockTemplate.Bindings
import BlockTemplate.Error
import BlockTemplate.Settings.Basic
import BlockTemplate.Value

/-!
A block: a template with slots for its children, the texts bound to names, and the snapshots
that wait to be picked up.
-/
namespace BlockTemplate

structure Block where
  name : Text
  template : Text
  children : List Block
  bindings : Bindings
  pending : List Text
  style : Style

instance : Inhabited Block := ⟨⟨[], [], [], [], [], {}⟩⟩

namespace Block

/-- A block with nothing bound and nothing pending. -/
def new (name template : Text) (children : List Block) (style : Style) : Block :=
  ⟨name, template, children, [], [], style⟩

def childNames (b : Block) : List Text := b.children.map name

/-- The first child of the name. -/
def child (b : Block) (childName : Text) : Except TemplateError Block :=
  match b.children.find? (·.name == childName) with
  | some c => .ok c
  | none => .error (.unknownBlock childName b.childNames)

def boundText? (b : Block) (key : Text) : Option Text := b.bindings.get? key

mutual

/-- The block with a text bound to a name, here and in every block below. -/
def bind (key text : Text) : Block → Block
  | ⟨name, template, children, bindings, pending, style⟩ =>
    ⟨name, template, bindAll key text children, bindings.put key text, pending, style⟩

def bindAll (key text : Text) : List Block → List Block
  | [] => []
  | b :: bs => bind key text b :: bindAll key text bs

end

theorem bindAll_eq_map (key text : Text) (bs : List Block) :
    bindAll key text bs = bs.map (bind key text) := by
  induction bs with
  | nil => rfl
  | cons b bs ih => rw [bindAll, ih, List.map_cons]

/-- A value bound to a key, scalar by scalar. -/
def assign (b : Block) (key : Text) (value : Value) : Block :=
  (value.flatten key).foldl (fun b scalar => b.bind scalar.1 scalar.2) b

mutual

/-- The block and all blocks below, each before its children. -/
def nodes : Block → List Block
  | ⟨name, template, children, bindings, pending, style⟩ =>
    ⟨name, template, children, bindings, pending, style⟩ :: nodesAll children

def nodesAll : List Block → List Block
  | [] => []
  | b :: bs => nodes b ++ nodesAll bs

end

end Block
end BlockTemplate
