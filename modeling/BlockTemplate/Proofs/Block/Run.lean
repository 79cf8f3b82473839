import BlockTemplate.Block.Address
import Mathlib.Data.List.Basic

/-!
Runs of operations on the blocks of a tree. As long as no step is on the root itself, each child
goes through the steps that are taken within it, as if it stood alone, and the root keeps all it
has of its own.
-/
namespace BlockTemplate.Block

/-- The tree after operations at addresses, one after the other. -/
def run (steps : List (Address × Operation)) (b : Block) : Block :=
  steps.foldl (fun b step => b.update step.2.apply step.1) b

@[simp] theorem run_nil (b : Block) : run [] b = b := rfl

@[simp] theorem run_cons (step : Address × Operation) (steps : List (Address × Operation))
    (b : Block) : run (step :: steps) b = run steps (b.update step.2.apply step.1) := rfl

theorem run_append (steps steps' : List (Address × Operation)) (b : Block) :
    run (steps ++ steps') b = run steps' (run steps b) :=
  List.foldl_append

/-- An address within the child at position `i`, seen from there. -/
def within? (i : Nat) : Address → Option Address
  | [] => none
  | j :: rest => if j = i then some rest else none

theorem within?_eq_some_iff {i : Nat} {a rest : Address} :
    within? i a = some rest ↔ a = i :: rest := by
  cases a with
  | nil => simp [within?]
  | cons j tail => simp [within?]

/-- The steps that are taken within the child at position `i`. -/
def stepsWithin (i : Nat) (steps : List (Address × Operation)) : List (Address × Operation) :=
  steps.filterMap fun step => (within? i step.1).map (·, step.2)

theorem stepsWithin_cons (i j : Nat) (rest : Address) (op : Operation)
    (steps : List (Address × Operation)) :
    stepsWithin i ((j :: rest, op) :: steps) =
      if j = i then (rest, op) :: stepsWithin i steps else stepsWithin i steps := by
  by_cases h : j = i
  · simp [stepsWithin, within?, h]
  · simp [stepsWithin, within?, h]

/-- Steps below the root are steps of the children, each on its own. -/
theorem run_of_ne_nil {steps : List (Address × Operation)} (h : ∀ step ∈ steps, step.1 ≠ [])
    (b : Block) :
    run steps b =
      { b with children := b.children.mapIdx fun i c => run (stepsWithin i steps) c } := by
  induction steps generalizing b with
  | nil =>
    have hmap : (b.children.mapIdx fun i c => run (stepsWithin i []) c) = b.children :=
      List.mapIdx_eq_iff.mpr fun i => by simp [stepsWithin]
    rw [hmap]
    cases b
    rfl
  | cons step steps ih =>
    obtain ⟨a, op⟩ := step
    have hrest : ∀ step ∈ steps, step.1 ≠ [] := fun s hs => h s (List.mem_cons_of_mem _ hs)
    cases a with
    | nil => exact absurd rfl (h _ List.mem_cons_self)
    | cons j rest =>
      rw [run_cons, ih hrest, update]
      congr 1
      apply List.ext_getElem?
      intro i
      simp only [List.getElem?_mapIdx, List.getElem?_modify, stepsWithin_cons]
      by_cases hij : j = i
      · cases b.children[i]? <;> simp [hij]
      · cases b.children[i]? <;> simp [hij]

/-- A run that comes to the root only at its end, as the last of its steps. -/
theorem run_append_root {steps : List (Address × Operation)} (h : ∀ step ∈ steps, step.1 ≠ [])
    (op : Operation) (b : Block) :
    run (steps ++ [([], op)]) b = op.apply
      { b with children := b.children.mapIdx fun i c => run (stepsWithin i steps) c } := by
  rw [run_append, run_of_ne_nil h]
  rfl

end BlockTemplate.Block
