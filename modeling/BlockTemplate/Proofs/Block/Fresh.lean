import BlockTemplate.Proofs.Block.Pending
import BlockTemplate.Proofs.Block.Source
import BlockTemplate.Template

/-!
Trees fresh from their text, with values assigned to the root one after the other. In every block
of the tree a key stands for the last scalar that the values give it. Nothing is pending below the
root, so that the root is printed with nothing in its slots.
-/
namespace BlockTemplate

namespace Block

/-- In no block of the tree is anything bound or pending. -/
def Fresh (b : Block) : Prop := ∀ c ∈ b.nodes, c.bindings = [] ∧ c.pending = []

theorem fresh_new {name template : Text} {children : List Block} {style : Style}
    (h : ∀ c ∈ children, c.Fresh) : (new name template children style).Fresh := by
  intro c hc
  rw [new, nodes, nodesAll_eq_flatMap] at hc
  rcases List.mem_cons.mp hc with rfl | hc
  · exact ⟨rfl, rfl⟩
  · obtain ⟨child, hchild, hc⟩ := List.mem_flatMap.mp hc
    exact h child hchild c hc

theorem fresh_block (files : Files) (origin : Origin) (settings : Settings) (levels : Nat)
    (s : Source) : (s.block files origin settings levels).Fresh := by
  induction levels generalizing s with
  | zero =>
    rw [Source.block_zero]
    exact fresh_new (by simp)
  | succ levels ih =>
    rw [Source.block_succ]
    apply fresh_new
    intro c hc
    obtain ⟨body, -, rfl⟩ := List.mem_map.mp hc
    exact ih body

theorem fresh_build (files : Files) (origin : Origin) (settings : Settings) (t : Text) :
    (build files origin settings t).block.Fresh :=
  fresh_block files origin settings (maxDepth + 1) ⟨[], t⟩

mutual

theorem nodes_bind : (b : Block) → (key text : Text) →
    (b.bind key text).nodes = b.nodes.map (bind key text)
  | ⟨name, template, children, bindings, pending, style⟩, key, text => by
    rw [bind, nodes, nodesAll_bindAll children key text, nodes, List.map_cons, bind]

theorem nodesAll_bindAll : (bs : List Block) → (key text : Text) →
    nodesAll (bindAll key text bs) = (nodesAll bs).map (bind key text)
  | [], _, _ => rfl
  | b :: bs, key, text => by
    rw [bindAll, nodesAll, nodes_bind b key text, nodesAll_bindAll bs key text, nodesAll,
      List.map_append]

end

theorem nodes_assign (b : Block) (key : Text) (value : Value) :
    (b.assign key value).nodes = b.nodes.map fun c => c.assign key value := by
  simp only [assign]
  induction value.flatten key generalizing b with
  | nil => simp
  | cons scalar scalars ih =>
    rw [List.foldl_cons, ih, nodes_bind, List.map_map]
    rfl

/-- Values assigned one after the other. -/
def assignAll (values : List (Text × Value)) (b : Block) : Block :=
  values.foldl (fun b v => b.assign v.1 v.2) b

/-- The scalars of values in a row, with their keys. -/
def scalars (values : List (Text × Value)) : List (Text × Text) :=
  values.flatMap fun v => v.2.flatten v.1

section AssignAll

variable (values : List (Text × Value)) (b : Block)

theorem nodes_assignAll : (b.assignAll values).nodes = b.nodes.map (assignAll values) := by
  induction values generalizing b with
  | nil => exact (List.map_id _).symm
  | cons v values ih =>
    show ((b.assign v.1 v.2).assignAll values).nodes = _
    rw [ih, nodes_assign, List.map_map]
    rfl

theorem pending_assignAll : (b.assignAll values).pending = b.pending := by
  induction values generalizing b with
  | nil => rfl
  | cons v values ih => exact (ih _).trans (pending_assign b v.1 v.2)

theorem boundText?_assignAll (key : Text) : (b.assignAll values).boundText? key =
    (lastOf? key (scalars values)).or (b.boundText? key) := by
  induction values generalizing b with
  | nil => rfl
  | cons v values ih =>
    show ((b.assign v.1 v.2).assignAll values).boundText? key = _
    rw [ih, boundText?_assign, scalars, scalars, List.flatMap_cons, lastOf?_append, Option.or_assoc]

end AssignAll

namespace Fresh

variable {b : Block} (h : b.Fresh) (values : List (Text × Value))

include h

/-- A key stands for the last scalar of this key, in every block of the tree. -/
theorem boundText?_of_mem_nodes {c : Block} (hc : c ∈ (b.assignAll values).nodes) (key : Text) :
    c.boundText? key = lastOf? key (scalars values) := by
  rw [nodes_assignAll] at hc
  obtain ⟨d, hd, rfl⟩ := List.mem_map.mp hc
  have hnone : d.boundText? key = none := by
    rw [boundText?, (h d hd).1]
    rfl
  rw [boundText?_assignAll, hnone, Option.or_none]

theorem pending_of_mem_nodes {c : Block} (hc : c ∈ (b.assignAll values).nodes) :
    c.pending = [] := by
  rw [nodes_assignAll] at hc
  obtain ⟨d, hd, rfl⟩ := List.mem_map.mp hc
  rw [pending_assignAll, (h d hd).2]

theorem snapshot_assignAll :
    (b.assignAll values).snapshot = (b.assignAll values).snapshotWith fun _ => [] := by
  apply snapshot_eq_snapshotWith
  intro i c hc
  have hat : (b.assignAll values).at? [i] = some c := by
    rw [at?_cons, hc]
    rfl
  rw [output, h.pending_of_mem_nodes values (mem_nodes_of_at? hat)]
  rfl

end Fresh
end Block

namespace Template

theorem root_assignAll (t : Template) (values : List (Text × Value)) :
    (t.assignAll values).root = t.root.assignAll values := by
  induction values generalizing t with
  | nil => rfl
  | cons v values ih => exact ih (t.assign v.1 v.2)

theorem print_assignAll {t : Template} (h : t.root.Fresh) (values : List (Text × Value)) :
    (t.assignAll values).print.1 = (t.assignAll values).root.snapshotWith fun _ => [] := by
  have hroot : (t.root.assignAll values).pending = [] := by
    rw [Block.pending_assignAll]
    exact (h t.root (Block.mem_nodes_of_at? (Block.at?_nil _))).2
  show ((t.assignAll values).root.pending ++ [(t.assignAll values).root.snapshot]).flatten = _
  rw [root_assignAll, hroot, h.snapshot_assignAll values]
  simp

end Template
end BlockTemplate
