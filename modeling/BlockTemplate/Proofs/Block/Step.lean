import BlockTemplate.Proofs.Block.Binding
import BlockTemplate.Proofs.Block.Run

/-!
What one step of a run does to the block at an address. Above and beside the address of the step
nothing of a block's own changes. Below it an assignment goes everywhere, a commit reaches the
direct children only, and a drain nobody. Whatever is done, the blocks, their names, templates
and styles and the order of the children are those of the tree that the run started from.
-/
namespace BlockTemplate.Block

abbrev Step := Address × Operation

@[simp] theorem at?_nil (b : Block) : b.at? [] = some b := rfl

theorem at?_cons (b : Block) (i : Nat) (rest : Address) :
    b.at? (i :: rest) = b.children[i]?.bind (at? · rest) := rfl

theorem at?_append (b : Block) (p e : Address) :
    b.at? (p ++ e) = (b.at? p).bind fun c => c.at? e := by
  induction p generalizing b with
  | nil => rfl
  | cons i rest ih =>
    rw [List.cons_append, at?_cons, at?_cons, Option.bind_assoc]
    congr 1
    funext c
    exact ih c

section Update

variable {f : Block → Block} {p a : Address}

/-- Below the place of a change stands what the change has made of the block there. -/
theorem at?_update_append (f : Block → Block) (p e : Address) (b : Block) :
    (b.update f p).at? (p ++ e) = (b.at? p).bind fun c => (f c).at? e := by
  induction p generalizing b with
  | nil => rfl
  | cons i rest ih =>
    rw [List.cons_append, at?_cons, at?_cons, update]
    cases hchild : b.children[i]? with
    | none => simp [hchild]
    | some c => simp [hchild, ih]

/-- The block without its children. -/
def own (b : Block) : Block := { b with children := [] }

/-- Away from the place of a change and what lies below it, a block keeps what is its own. -/
theorem map_own_at?_update (h : ¬ p <+: a) (f : Block → Block) (b : Block) :
    ((b.update f p).at? a).map own = (b.at? a).map own := by
  induction p generalizing a b with
  | nil => exact absurd List.nil_prefix h
  | cons i rest ih =>
    cases a with
    | nil => rfl
    | cons j a =>
      rw [at?_cons, at?_cons, update]
      by_cases hij : i = j
      · subst hij
        have hrest : ¬ rest <+: a := by
          intro hpre
          exact h (List.cons_prefix_cons.mpr ⟨rfl, hpre⟩)
        cases hchild : b.children[i]? with
        | none => simp [hchild]
        | some c => simpa [hchild] using ih hrest c
      · simp [hij]

/-- What only depends on a block's own is kept in the same way. -/
theorem map_at?_update {α : Type} {g : Block → α} (hg : ∀ c, g (own c) = g c) (h : ¬ p <+: a)
    (f : Block → Block) (b : Block) : ((b.update f p).at? a).map g = (b.at? a).map g := by
  have hown := congrArg (Option.map g) (map_own_at?_update h f b)
  simpa only [Option.map_map, Function.comp_def, hg] using hown

end Update

theorem at?_assign (b : Block) (key : Text) (value : Value) (e : Address) :
    (b.assign key value).at? e = (b.at? e).map fun c => c.assign key value := by
  induction e generalizing b with
  | nil => rfl
  | cons i rest ih =>
    rw [at?_cons, at?_cons, children_assign, List.getElem?_map]
    cases b.children[i]? with
    | none => rfl
    | some c => exact ih c

theorem at?_emptied_cons (b : Block) (i : Nat) (rest : Address) :
    b.emptied.at? (i :: rest) = b.at? (i :: rest) := rfl

theorem at?_commit_cons (b : Block) (i : Nat) (rest : Address) :
    b.commit.at? (i :: rest) = b.children[i]?.bind fun c => c.emptied.at? rest := by
  rw [at?_cons, commit, List.getElem?_map]
  cases b.children[i]? <;> rfl

/-- A commit or a drain changes nothing of a block but what is pending. -/
theorem map_at?_step_of_kept {α : Type} {g : Block → α} (hown : ∀ c, g (own c) = g c)
    (hcommit : ∀ c, g c.commit = g c) (hemptied : ∀ c, g c.emptied = g c) (p a : Address)
    {op : Operation} (hop : op = .commit ∨ op = .drain) (b : Block) :
    ((b.update op.apply p).at? a).map g = (b.at? a).map g := by
  by_cases h : p <+: a
  · obtain ⟨e, rfl⟩ := h
    rw [at?_update_append, at?_append]
    cases b.at? p with
    | none => rfl
    | some c =>
      have hrest : ∀ (d : Block) (rest : Address),
          (d.emptied.at? rest).map g = (d.at? rest).map g := by
        intro d rest
        cases rest with
        | nil => exact congrArg some (hemptied d)
        | cons i rest => rfl
      show ((op.apply c).at? e).map g = (c.at? e).map g
      rcases hop with rfl | rfl
      · cases e with
        | nil => exact congrArg some (hcommit c)
        | cons i rest =>
          rw [Operation.apply, at?_commit_cons, at?_cons]
          cases c.children[i]? with
          | none => rfl
          | some d => exact hrest d rest
      · exact hrest c e
  · exact map_at?_update hown h op.apply b

mutual

/-- The tree as it was built, with nothing bound and nothing pending. -/
def pristine : Block → Block
  | ⟨name, template, children, _, _, style⟩ =>
    ⟨name, template, pristineAll children, [], [], style⟩

def pristineAll : List Block → List Block
  | [] => []
  | b :: bs => pristine b :: pristineAll bs

end

theorem pristineAll_eq_map (bs : List Block) : pristineAll bs = bs.map pristine := by
  induction bs with
  | nil => rfl
  | cons b bs ih => rw [pristineAll, ih, List.map_cons]

theorem pristine_eq (b : Block) : b.pristine =
    { b with children := b.children.map pristine, bindings := [], pending := [] } := by
  obtain ⟨name, template, children, bindings, pending, style⟩ := b
  rw [pristine, pristineAll_eq_map]

mutual

theorem pristine_bind : (b : Block) → (key text : Text) → (b.bind key text).pristine = b.pristine
  | ⟨name, template, children, bindings, pending, style⟩, key, text => by
    rw [bind, pristine, pristineAll_bindAll children key text, pristine]

theorem pristineAll_bindAll : (bs : List Block) → (key text : Text) →
    pristineAll (bindAll key text bs) = pristineAll bs
  | [], _, _ => rfl
  | b :: bs, key, text => by
    rw [bindAll, pristineAll, pristine_bind b key text, pristineAll_bindAll bs key text,
      pristineAll]

end

theorem pristine_emptied (b : Block) : b.emptied.pristine = b.pristine := by
  rw [pristine_eq, pristine_eq]
  rfl

theorem pristine_commit (b : Block) : b.commit.pristine = b.pristine := by
  have hchildren : (b.children.map emptied).map pristine = b.children.map pristine := by
    rw [List.map_map]
    exact List.map_congr_left fun c _ => pristine_emptied c
  rw [pristine_eq, pristine_eq b, ← hchildren]
  rfl

theorem pristine_apply (op : Operation) (b : Block) : (op.apply b).pristine = b.pristine := by
  cases op with
  | assign key value => exact assign_of_bind pristine_bind b key value
  | commit => exact pristine_commit b
  | drain => exact pristine_emptied b

theorem pristine_update {f : Block → Block} (hf : ∀ c, (f c).pristine = c.pristine) (p : Address)
    (b : Block) : (b.update f p).pristine = b.pristine := by
  induction p generalizing b with
  | nil => exact hf b
  | cons i rest ih =>
    have hchildren : (b.children.modify i (update f rest)).map pristine =
        b.children.map pristine := by
      apply List.ext_getElem?
      intro j
      rw [List.getElem?_map, List.getElem?_map, List.getElem?_modify]
      by_cases hij : i = j
      · cases b.children[j]? <;> simp [hij, ih]
      · simp [hij]
    rw [pristine_eq, pristine_eq b, ← hchildren]
    rfl

/-- A run leaves the tree as it was built, but for what is bound and pending. -/
theorem pristine_run (steps : List Step) (b : Block) : (run steps b).pristine = b.pristine := by
  induction steps generalizing b with
  | nil => rfl
  | cons s steps ih => rw [run_cons, ih, pristine_update (pristine_apply s.2)]

theorem nodesAll_eq_flatMap (bs : List Block) : nodesAll bs = bs.flatMap nodes := by
  induction bs with
  | nil => rfl
  | cons b bs ih => rw [nodesAll, ih, List.flatMap_cons]

theorem mem_nodes_of_at? {a : Address} {b c : Block} (h : b.at? a = some c) : c ∈ b.nodes := by
  induction a generalizing b with
  | nil =>
    obtain rfl := Option.some.inj h
    cases b
    exact List.mem_cons_self
  | cons i rest ih =>
    obtain ⟨d, hd, hc⟩ := Option.bind_eq_some_iff.mp h
    have hmem : c ∈ b.children.flatMap nodes :=
      List.mem_flatMap.mpr ⟨d, List.mem_of_getElem? hd, ih hc⟩
    cases b
    rw [nodes, nodesAll_eq_flatMap]
    exact List.mem_cons_of_mem _ hmem

end BlockTemplate.Block
