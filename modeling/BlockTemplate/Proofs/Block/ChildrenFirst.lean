import BlockTemplate.Proofs.Block.Run
import Mathlib.Data.List.Pairwise

/-!
Orders in which every block of a tree is visited once, children before their parent. The root
comes last, and what is visited within a child is such an order of the child's own tree.
-/
namespace BlockTemplate.Block

/-- All addresses of the tree, and none before one that lies below it or is the same again. -/
structure ChildrenFirst (b : Block) (order : List Address) : Prop where
  mem_iff : ∀ a, a ∈ order ↔ (b.at? a).isSome
  later : order.Pairwise fun a c => ¬ a <+: c

mutual

/-- The addresses of a tree, those of each child's tree before those of the next, the root last. -/
def postorder : Block → List Address
  | ⟨_, _, children, _, _, _⟩ => postorderAll 0 children ++ [[]]

/-- The addresses within children, the first of which is at position `i`. -/
def postorderAll (i : Nat) : List Block → List Address
  | [] => []
  | b :: bs => (postorder b).map (i :: ·) ++ postorderAll (i + 1) bs

end

mutual

/-- There is an order with children first for every tree. -/
theorem childrenFirst_postorder : (b : Block) → ChildrenFirst b (postorder b)
  | ⟨name, template, children, bindings, pending, style⟩ => by
    obtain ⟨hmem, hlater⟩ := postorderAll_spec 0 children
    constructor
    · intro a
      cases a with
      | nil => simp [postorder, at?]
      | cons j rest => simp [postorder, at?, hmem]
    · rw [postorder, List.pairwise_append]
      refine ⟨hlater, List.pairwise_singleton _ _, ?_⟩
      intro a ha c hc hpre
      obtain rfl := List.mem_singleton.mp hc
      obtain rfl := List.prefix_nil.mp hpre
      exact (hmem []).mp ha

theorem postorderAll_spec (i : Nat) : (bs : List Block) →
    (∀ a, a ∈ postorderAll i bs ↔ match a with
      | [] => False
      | j :: rest => i ≤ j ∧ (bs[j - i]?.bind (at? · rest)).isSome) ∧
    (postorderAll i bs).Pairwise fun a c => ¬ a <+: c
  | [] => by
    constructor
    · rintro (_ | ⟨j, rest⟩) <;> simp [postorderAll]
    · exact List.Pairwise.nil
  | b :: bs => by
    obtain ⟨hmem, hlater⟩ := postorderAll_spec (i + 1) bs
    have hb := childrenFirst_postorder b
    constructor
    · rintro (_ | ⟨j, rest⟩)
      · simp [postorderAll, hmem]
      · have hfirst : j :: rest ∈ (postorder b).map (i :: ·) ↔ j = i ∧ (b.at? rest).isSome := by
          rw [← hb.mem_iff]
          constructor
          · intro h
            obtain ⟨a, ha, heq⟩ := List.mem_map.mp h
            obtain ⟨rfl, rfl⟩ := List.cons.inj heq
            exact ⟨rfl, ha⟩
          · rintro ⟨rfl, h⟩
            exact List.mem_map_of_mem h
        rw [postorderAll, List.mem_append, hfirst, hmem]
        dsimp only
        rcases Nat.lt_trichotomy i j with hlt | rfl | hgt
        · obtain ⟨k, rfl⟩ := Nat.exists_eq_add_of_lt hlt
          have hj : i + k + 1 ≠ i := by omega
          have hk : i + k + 1 - i = k + 1 := by omega
          have hk' : i + k + 1 - (i + 1) = k := by omega
          have hle : i + 1 ≤ i + k + 1 := by omega
          rw [hk, hk', List.getElem?_cons_succ]
          simp [hj, hle, Nat.le_of_succ_le hle]
        · have hnot : ¬ i + 1 ≤ i := Nat.not_succ_le_self i
          simp only [hnot, true_and, false_and, or_false, Nat.le_refl, Nat.sub_self,
            List.getElem?_cons_zero, Option.bind_some]
        · have hj : j ≠ i := by omega
          have hnot : ¬ i ≤ j := by omega
          have hnot' : ¬ i + 1 ≤ j := by omega
          simp [hj, hnot, hnot']
    · rw [postorderAll, List.pairwise_append]
      refine ⟨?_, hlater, ?_⟩
      · rw [List.pairwise_map]
        exact hb.later.imp fun hnot hpre => hnot (List.cons_prefix_cons.mp hpre).2
      · intro a ha c hc hpre
        obtain ⟨a, -, rfl⟩ := List.mem_map.mp ha
        have hle := (hmem c).mp hc
        cases c with
        | nil => exact hle
        | cons j rest =>
          obtain rfl : i = j := (List.cons_prefix_cons.mp hpre).1
          exact absurd hle.1 (by omega)

end

variable {b : Block} {order : List Address}

/-- An order with children first ends at the root. -/
theorem ChildrenFirst.exists_append_root (h : ChildrenFirst b order) :
    ∃ before, order = before ++ [[]] ∧ ∀ a ∈ before, a ≠ [] := by
  obtain ⟨before, after, rfl⟩ := List.append_of_mem ((h.mem_iff []).mpr rfl)
  obtain ⟨-, hroot, hbefore⟩ := List.pairwise_append.mp h.later
  have hafter : after = [] := by
    cases after with
    | nil => rfl
    | cons a after =>
      have hnot : ¬ [] <+: a := List.rel_of_pairwise_cons hroot List.mem_cons_self
      exact absurd List.nil_prefix hnot
  refine ⟨before, by rw [hafter], ?_⟩
  rintro a ha rfl
  exact hbefore [] ha [] List.mem_cons_self (List.prefix_refl [])

/-- Within a child, the order of the whole tree visits the child's tree with children first. -/
theorem ChildrenFirst.within {before : List Address} (h : ChildrenFirst b (before ++ [[]]))
    {i : Nat} {c : Block} (hc : b.children[i]? = some c) :
    ChildrenFirst c (before.filterMap (within? i)) where
  mem_iff a := by
    have hmem := h.mem_iff (i :: a)
    simp only [List.mem_append, List.mem_singleton, reduceCtorEq, or_false, at?, hc,
      Option.bind_some] at hmem
    rw [← hmem, List.mem_filterMap]
    constructor
    · rintro ⟨a', ha', hwithin⟩
      rwa [← within?_eq_some_iff.mp hwithin]
    · exact fun ha => ⟨i :: a, ha, within?_eq_some_iff.mpr rfl⟩
  later := by
    refine (List.pairwise_append.mp h.later).1.filterMap (within? i) ?_
    intro a a' hnot c hc c' hc' hpre
    rw [within?_eq_some_iff.mp hc, within?_eq_some_iff.mp hc'] at hnot
    exact hnot (List.cons_prefix_cons.mpr ⟨rfl, hpre⟩)

/-- The steps that commit the block at each address in turn. -/
def commits (order : List Address) : List (Address × Operation) :=
  order.map (·, Operation.commit)

theorem stepsWithin_commits (i : Nat) (order : List Address) :
    stepsWithin i (commits order) = commits (order.filterMap (within? i)) := by
  simp only [stepsWithin, commits, List.filterMap_map, List.map_filterMap]
  rfl

/-- Committing with children first commits each child's tree in that way, then the root. -/
theorem ChildrenFirst.exists_run_eq (h : ChildrenFirst b order) :
    ∃ orders : Nat → List Address,
      (∀ i c, b.children[i]? = some c → ChildrenFirst c (orders i)) ∧
      run (commits order) b = commit
        { b with children := b.children.mapIdx fun i c => run (commits (orders i)) c } := by
  obtain ⟨before, rfl, hbefore⟩ := h.exists_append_root
  refine ⟨fun i => before.filterMap (within? i), fun i c hc => h.within hc, ?_⟩
  have hsteps : ∀ step ∈ commits before, step.1 ≠ [] := by
    intro step hstep
    obtain ⟨a, ha, rfl⟩ := List.mem_map.mp hstep
    exact hbefore a ha
  have happend : commits (before ++ [[]]) = commits before ++ [([], Operation.commit)] :=
    List.map_append
  rw [happend, run_append_root hsteps]
  simp only [stepsWithin_commits]
  rfl

mutual

/-- The tree with every block committed, each after its children. -/
def settle : Block → Block
  | ⟨name, template, children, bindings, pending, style⟩ =>
    commit ⟨name, template, settleAll children, bindings, pending, style⟩

def settleAll : List Block → List Block
  | [] => []
  | b :: bs => settle b :: settleAll bs

end

theorem settleAll_eq_map (bs : List Block) : settleAll bs = bs.map settle := by
  induction bs with
  | nil => rfl
  | cons b bs ih => rw [settleAll, ih, List.map_cons]

theorem settle_eq (b : Block) :
    settle b = commit { b with children := b.children.map settle } := by
  obtain ⟨name, template, children, bindings, pending, style⟩ := b
  rw [settle, settleAll_eq_map]

@[simp] theorem name_settle (b : Block) : (settle b).name = b.name := by
  rw [settle_eq]
  rfl

mutual

/-- In whatever order the blocks of a tree are committed, children before their parents, the
result is the same. -/
theorem run_commits : (b : Block) → (order : List Address) → ChildrenFirst b order →
    run (commits order) b = settle b
  | ⟨name, template, children, bindings, pending, style⟩, order, h => by
    obtain ⟨orders, horders, hrun⟩ := h.exists_run_eq
    rw [hrun, settle, mapIdx_run_commits children orders horders]

theorem mapIdx_run_commits : (bs : List Block) → (orders : Nat → List Address) →
    (∀ i c, bs[i]? = some c → ChildrenFirst c (orders i)) →
    (bs.mapIdx fun i c => run (commits (orders i)) c) = settleAll bs
  | [], _, _ => rfl
  | b :: bs, orders, h => by
    have hb := run_commits b (orders 0) (h 0 b rfl)
    have hbs := mapIdx_run_commits bs (fun i => orders (i + 1)) fun i c hc => h (i + 1) c hc
    rw [List.mapIdx_cons, hb, hbs, settleAll]

end

end BlockTemplate.Block
