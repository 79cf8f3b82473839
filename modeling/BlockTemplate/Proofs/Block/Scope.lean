import BlockTemplate.Proofs.Block.Step
import Mathlib.Data.List.Induction

/-!
The scope of an assignment is the block it is made on with all blocks below it. Of the pairs that
have reached a block in a run, each assignment giving its pairs in their own order, the last one
with a key is what the key stands for. It makes no difference at which level above the block a
pair was assigned.
-/
namespace BlockTemplate.Block

/-- The pairs that a step binds on the block at `a`. -/
def pairsFor (a : Address) : Step → List (Text × Text)
  | (p, .assign key value) => if p <+: a then value.flatten key else []
  | _ => []

variable {a : Address} {steps : List Step} {b : Block}

theorem pairsFor_of_not_above {s : Step} (h : ¬ s.1 <+: a) : pairsFor a s = [] := by
  obtain ⟨p, op⟩ := s
  cases op with
  | assign key value => exact if_neg h
  | commit => rfl
  | drain => rfl

/-- What reaches a block reaches every block below it. -/
theorem pairsFor_subset_append (a e : Address) (s : Step) :
    pairsFor a s ⊆ pairsFor (a ++ e) s := by
  by_cases h : s.1 <+: a
  · obtain ⟨p, op⟩ := s
    have hbelow : p <+: a ++ e := h.trans (List.prefix_append a e)
    cases op with
    | assign key value =>
      rw [pairsFor, pairsFor, if_pos h, if_pos hbelow]
      exact List.Subset.refl _
    | commit => exact List.Subset.refl _
    | drain => exact List.Subset.refl _
  · rw [pairsFor_of_not_above h]
    exact List.nil_subset _

/-- A step binds on a block the pairs that reach it, and takes no binding away. -/
theorem map_boundText?_at?_step (a : Address) (s : Step) (b : Block) (key : Text) :
    ((b.update s.2.apply s.1).at? a).map (·.boundText? key) = (b.at? a).map fun c =>
      (lastOf? key (pairsFor a s)).or (c.boundText? key) := by
  obtain ⟨p, op⟩ := s
  have hkept : (op = .commit ∨ op = .drain) →
      ((b.update op.apply p).at? a).map (·.boundText? key) =
        (b.at? a).map fun c => c.boundText? key :=
    fun hop => map_at?_step_of_kept (fun _ => rfl) (fun _ => rfl) (fun _ => rfl) p a hop b
  cases op with
  | assign k value =>
    by_cases h : p <+: a
    · obtain ⟨e, rfl⟩ := h
      rw [at?_update_append, at?_append]
      cases b.at? p with
      | none => rfl
      | some c =>
        simp only [Option.bind_some, Operation.apply, at?_assign, Option.map_map,
          Function.comp_def, boundText?_assign, pairsFor, List.prefix_append, if_true]
    · rw [pairsFor_of_not_above h]
      exact map_at?_update (g := (·.boundText? key)) (fun _ => rfl) h _ b
  | commit => exact hkept (Or.inl rfl)
  | drain => exact hkept (Or.inr rfl)

/-- If nothing is bound at the start, a key later stands for the text of the last pair with this
key that has reached the block. -/
theorem boundText?_run (hunbound : ∀ d ∈ b.nodes, d.bindings = []) {c : Block}
    (hc : (run steps b).at? a = some c) (key : Text) :
    c.boundText? key = lastOf? key (steps.flatMap (pairsFor a)) := by
  induction steps using List.reverseRecOn generalizing c with
  | nil =>
    have hnone : c.bindings = [] := hunbound c (mem_nodes_of_at? hc)
    rw [boundText?, hnone]
    rfl
  | append_singleton steps s ih =>
    have hstep := map_boundText?_at?_step a s (run steps b) key
    rw [run_append, run_cons, run_nil] at hc
    rw [hc, Option.map_some] at hstep
    obtain ⟨d, hd, hbound⟩ := Option.map_eq_some_iff.mp hstep.symm
    rw [← hbound, ih hd, List.flatMap_append, List.flatMap_singleton, lastOf?_append]

/-- A key that is bound on a block is bound on every block below it. -/
theorem isSome_boundText?_below (hunbound : ∀ d ∈ b.nodes, d.bindings = []) {e : Address}
    {c d : Block} (hc : (run steps b).at? a = some c) (hd : (run steps b).at? (a ++ e) = some d)
    {key : Text} (h : (c.boundText? key).isSome = true) : (d.boundText? key).isSome = true := by
  rw [boundText?_run hunbound hc, lastOf?_isSome] at h
  rw [boundText?_run hunbound hd, lastOf?_isSome]
  have hsubset : steps.flatMap (pairsFor a) ⊆ steps.flatMap (pairsFor (a ++ e)) := by
    intro pair hpair
    obtain ⟨s, hs, hmem⟩ := List.mem_flatMap.mp hpair
    exact List.mem_flatMap.mpr ⟨s, hs, pairsFor_subset_append a e s hmem⟩
  exact List.map_subset Prod.fst hsubset h

/-- Whatever is assigned, committed and drained in a tree with nothing bound, and in whatever
order, a key on a block stands for the last text that was assigned to it there or above. -/
theorem bound_by_last_assignment (b : Block) (hunbound : ∀ d ∈ b.nodes, d.bindings = [])
    (steps : List Step) :
    (∀ a c, (run steps b).at? a = some c → ∀ key,
      c.boundText? key = lastOf? key (steps.flatMap (pairsFor a))) ∧
    (∀ a e c d, (run steps b).at? a = some c → (run steps b).at? (a ++ e) = some d →
      ∀ key, (c.boundText? key).isSome → (d.boundText? key).isSome) ∧
    ∀ p key value a, ¬ p <+: a →
      ((run (steps ++ [(p, .assign key value)]) b).at? a).map own =
        ((run steps b).at? a).map own := by
  refine ⟨fun a c hc key => boundText?_run hunbound hc key,
    fun a e c d hc hd key h => isSome_boundText?_below hunbound hc hd h, ?_⟩
  intro p key value a h
  rw [run_append, run_cons, run_nil]
  exact map_own_at?_update h _ _

/-- A key bound below, above, below again, and by a map that gives it two texts. -/
theorem bound_by_last_assignment_levels :
    let leaf := new "c".toList [] [] {}
    let root := new [] [] [new "r".toList [] [leaf] {}, leaf] {}
    let twice : Value := .map [("a.b".toList, .scalar "4".toList),
      ("a".toList, .map [("b".toList, .scalar "5".toList)])]
    let key := "k.a.b".toList
    let steps : List Step := [([0, 0], .assign key (.scalar "1".toList)),
      ([], .assign key (.scalar "2".toList)), ([0], .commit),
      ([0, 0], .assign key (.scalar "3".toList)), ([0], .assign "k".toList twice), ([], .drain)]
    (∀ d ∈ root.nodes, d.bindings = []) ∧
      (∃ c, (run steps root).at? [0, 0] = some c ∧ c.boundText? key = some "5".toList) ∧
      ∃ c, (run steps root).at? [1] = some c ∧ c.boundText? key = some "2".toList := by
  intro leaf root twice key steps
  have hunbound : ∀ d ∈ root.nodes, d.bindings = [] := by decide +kernel
  have hleaf : ((run steps root).at? [0, 0]).isSome = true := by decide +kernel
  have hother : ((run steps root).at? [1]).isSome = true := by decide +kernel
  obtain ⟨c, hc⟩ := Option.isSome_iff_exists.mp hleaf
  obtain ⟨d, hd⟩ := Option.isSome_iff_exists.mp hother
  have hlast : lastOf? key (steps.flatMap (pairsFor [0, 0])) = some "5".toList ∧
      lastOf? key (steps.flatMap (pairsFor [1])) = some "2".toList := by
    decide +kernel
  have hbound := (bound_by_last_assignment root hunbound steps).1
  refine ⟨hunbound, ⟨c, hc, ?_⟩, d, hd, ?_⟩
  · rw [hbound [0, 0] c hc key, hlast.1]
  · rw [hbound [1] d hd key, hlast.2]

end BlockTemplate.Block
