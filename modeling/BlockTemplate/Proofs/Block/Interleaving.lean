import BlockTemplate.Proofs.Block.Step

/-!
Operations on blocks neither of which lies below the other. An operation reads and changes only
what is at its own address and below, so that two such operations can be done in either order.
Runs in two subtrees can then be mixed in any way: the tree is the one that the two runs leave one
after the other, and every step hands out what it hands out when its own run is all there is.
-/
namespace BlockTemplate.Block

/-- Neither of the addresses is the other or above it. -/
structure Unrelated (p q : Address) : Prop where
  not_above : ¬ p <+: q
  not_below : ¬ q <+: p

variable {p q : Address}

theorem Unrelated.symm (h : Unrelated p q) : Unrelated q p := ⟨h.not_below, h.not_above⟩

/-- What lies below unrelated addresses is unrelated too. -/
theorem Unrelated.below (h : Unrelated p q) {p' q' : Address} (hp : p <+: p') (hq : q <+: q') :
    Unrelated p' q' := by
  constructor
  · intro hpre
    rcases List.prefix_or_prefix_of_prefix (hp.trans hpre) hq with hpq | hqp
    · exact h.not_above hpq
    · exact h.not_below hqp
  · intro hpre
    rcases List.prefix_or_prefix_of_prefix hp (hq.trans hpre) with hpq | hqp
    · exact h.not_above hpq
    · exact h.not_below hqp

theorem Unrelated.tail {i : Nat} {rest rest' : Address} (h : Unrelated (i :: rest) (i :: rest')) :
    Unrelated rest rest' where
  not_above hpre := h.not_above (List.cons_prefix_cons.mpr ⟨rfl, hpre⟩)
  not_below hpre := h.not_below (List.cons_prefix_cons.mpr ⟨rfl, hpre⟩)

/-- Changes at unrelated addresses can be made in either order. -/
theorem update_update_comm (h : Unrelated p q) (f g : Block → Block) (b : Block) :
    (b.update f p).update g q = (b.update g q).update f p := by
  induction p generalizing q b with
  | nil => exact absurd List.nil_prefix h.not_above
  | cons i rest ih =>
    cases q with
    | nil => exact absurd List.nil_prefix h.not_below
    | cons j rest' =>
      simp only [update]
      congr 1
      by_cases hij : i = j
      · subst hij
        have hcomm : update g rest' ∘ update f rest = update f rest ∘ update g rest' :=
          funext fun c => ih h.tail c
        rw [List.modify_modify_eq, List.modify_modify_eq, hcomm]
      · exact List.modify_modify_ne _ _ _ hij

/-- A change leaves a block at an unrelated address as it is, with all that lies below it. -/
theorem at?_update_of_unrelated (h : Unrelated p q) (f : Block → Block) (b : Block) :
    (b.update f p).at? q = b.at? q := by
  induction p generalizing q b with
  | nil => exact absurd List.nil_prefix h.not_above
  | cons i rest ih =>
    cases q with
    | nil => exact absurd List.nil_prefix h.not_below
    | cons j rest' =>
      rw [at?_cons, at?_cons, update]
      by_cases hij : i = j
      · subst hij
        cases hchild : b.children[i]? with
        | none => simp [hchild]
        | some c => simp [hchild, ih h.tail c]
      · simp [hij]

/-- The steps of a run, each with the text that it hands out. -/
def results : List Step → Block → List (Step × Option Text)
  | [], _ => []
  | s :: steps, b =>
    (s, (b.at? s.1).bind s.2.text?) :: results steps (b.update s.2.apply s.1)

/-- The steps at an address and below it, each with the text that it hands out. -/
def resultsBelow (p : Address) (steps : List Step) (b : Block) : List (Step × Option Text) :=
  (results steps b).filter fun r => p <+: r.1.1

section Steps

variable {steps : List Step}

theorem run_update (h : ∀ s ∈ steps, Unrelated p s.1) (f : Block → Block) (b : Block) :
    run steps (b.update f p) = (run steps b).update f p := by
  induction steps generalizing b with
  | nil => rfl
  | cons s steps ih =>
    obtain ⟨hs, hsteps⟩ := List.forall_mem_cons.mp h
    rw [run_cons, run_cons, update_update_comm hs, ih hsteps]

/-- A change at an unrelated address is not seen in what a run hands out. -/
theorem results_update (h : ∀ s ∈ steps, Unrelated p s.1) (f : Block → Block) (b : Block) :
    results steps (b.update f p) = results steps b := by
  induction steps generalizing b with
  | nil => rfl
  | cons s steps ih =>
    obtain ⟨hs, hsteps⟩ := List.forall_mem_cons.mp h
    rw [results, results, at?_update_of_unrelated hs, update_update_comm hs, ih hsteps]

end Steps

/-- The third list has the members of the first two, those of either in their order. -/
inductive Interleaving {α : Type} : List α → List α → List α → Prop
  | nil : Interleaving [] [] []
  | left {x : α} {xs ys zs : List α} (h : Interleaving xs ys zs) :
      Interleaving (x :: xs) ys (x :: zs)
  | right {y : α} {xs ys zs : List α} (h : Interleaving xs ys zs) :
      Interleaving xs (y :: ys) (y :: zs)

theorem Interleaving.symm {α : Type} {xs ys zs : List α} (h : Interleaving xs ys zs) :
    Interleaving ys xs zs := by
  induction h with
  | nil => exact .nil
  | left _ ih => exact .right ih
  | right _ ih => exact .left ih

section Mixed

variable {xs ys zs : List Step}

/-- A run that is mixed from steps in unrelated subtrees comes to the same as the two runs one
after the other. -/
theorem Interleaving.run_eq (hmixed : Interleaving xs ys zs)
    (h : ∀ x ∈ xs, ∀ y ∈ ys, Unrelated x.1 y.1) (b : Block) :
    run zs b = run ys (run xs b) := by
  induction hmixed generalizing b with
  | nil => rfl
  | left _ ih => exact ih (fun x hx y hy => h x (List.mem_cons_of_mem _ hx) y hy) _
  | @right y xs ys zs _ ih =>
    have hy : ∀ x ∈ xs, Unrelated y.1 x.1 := fun x hx => (h x hx y List.mem_cons_self).symm
    rw [run_cons, ih fun x hx y hy => h x hx y (List.mem_cons_of_mem _ hy), run_update hy, run_cons]

/-- In a run that is mixed from steps in unrelated subtrees, what the steps in the first of them
hand out is not changed by the others. -/
theorem Interleaving.resultsBelow_eq (hmixed : Interleaving xs ys zs) (hpq : Unrelated p q)
    (hxs : ∀ x ∈ xs, p <+: x.1) (hys : ∀ y ∈ ys, q <+: y.1) (b : Block) :
    resultsBelow p zs b = results xs b := by
  induction hmixed generalizing b with
  | nil => rfl
  | @left x xs ys zs _ ih =>
    obtain ⟨hx, hxs⟩ := List.forall_mem_cons.mp hxs
    have hrest := ih hxs hys (b.update x.2.apply x.1)
    rw [resultsBelow, results, List.filter_cons_of_pos (by simpa using hx), results, ← hrest,
      resultsBelow]
  | @right y xs ys zs _ ih =>
    obtain ⟨hy, hys⟩ := List.forall_mem_cons.mp hys
    have hrest := ih hxs hys (b.update y.2.apply y.1)
    have hnot : ¬ p <+: y.1 := (hpq.below (List.prefix_refl p) hy).not_above
    have hunrelated : ∀ x ∈ xs, Unrelated y.1 x.1 := fun x hx => (hpq.below (hxs x hx) hy).symm
    rw [resultsBelow, results, List.filter_cons_of_neg (by simpa using hnot), ← resultsBelow, hrest,
      results_update hunrelated]

end Mixed

/-- Operations on unrelated blocks can be done in either order. Runs within their subtrees can be
mixed in any way: tree and results are the same. -/
theorem run_interleaved (hpq : Unrelated p q) (b : Block) :
    (∀ op op' : Operation,
      run [(p, op), (q, op')] b = run [(q, op'), (p, op)] b ∧
      results [(p, op), (q, op')] b = (results [(q, op'), (p, op)] b).reverse) ∧
    ∀ xs ys zs : List Step, (∀ x ∈ xs, p <+: x.1) → (∀ y ∈ ys, q <+: y.1) →
      Interleaving xs ys zs →
      run zs b = run (xs ++ ys) b ∧
        resultsBelow p zs b = results xs b ∧ resultsBelow q zs b = results ys b := by
  constructor
  · intro op op'
    refine ⟨update_update_comm hpq _ _ b, ?_⟩
    simp only [results, List.reverse_cons, List.reverse_nil, List.nil_append, List.singleton_append]
    rw [at?_update_of_unrelated hpq, at?_update_of_unrelated hpq.symm]
  · intro xs ys zs hxs hys hmixed
    have hunrelated : ∀ x ∈ xs, ∀ y ∈ ys, Unrelated x.1 y.1 :=
      fun x hx y hy => hpq.below (hxs x hx) (hys y hy)
    refine ⟨?_, hmixed.resultsBelow_eq hpq hxs hys b,
      hmixed.symm.resultsBelow_eq hpq.symm hys hxs b⟩
    rw [hmixed.run_eq hunrelated, run_append]

/-- Two commits of a footer and a row with a cell, mixed with each other. -/
theorem run_interleaved_rows :
    let cell := new "c".toList "\x7bx\x7d".toList [] {}
    let row := new "r".toList "\x7bx\x7d##c##".toList [cell] {}
    let footer := new "f".toList "(\x7bx\x7d)".toList [] {}
    let root := new [] "##r####f##".toList [row, footer] {}
    let bind (text : Text) : Operation := .assign "x".toList (.scalar text)
    let xs : List Step := [([0], bind "1".toList), ([0, 0], .commit), ([0], .commit), ([0], .drain)]
    let ys : List Step := [([1], .commit), ([1], bind "2".toList), ([1], .commit), ([1], .drain)]
    let zs : List Step := [([1], .commit), ([0], bind "1".toList), ([0, 0], .commit),
      ([1], bind "2".toList), ([0], .commit), ([1], .commit), ([1], .drain), ([0], .drain)]
    Unrelated [0] [1] ∧ Interleaving xs ys zs ∧
      (results xs root).map Prod.snd = [none, none, none, some "11".toList] ∧
      (results ys root).map Prod.snd = [none, none, none, some "(\x7bx\x7d)(2)".toList] ∧
      run zs root = run (xs ++ ys) root ∧
      resultsBelow [0] zs root = results xs root ∧ resultsBelow [1] zs root = results ys root := by
  intro cell row footer root bind xs ys zs
  have hpq : Unrelated [0] [1] := ⟨by decide, by decide⟩
  have hmixed : Interleaving xs ys zs :=
    .right (.left (.left (.right (.left (.right (.right (.left .nil)))))))
  have hxs : ∀ x ∈ xs, [0] <+: x.1 := by simp [xs]
  have hys : ∀ y ∈ ys, [1] <+: y.1 := by simp [ys]
  refine ⟨hpq, hmixed, by decide +kernel, by decide +kernel, ?_⟩
  exact (run_interleaved hpq root).2 xs ys zs hxs hys hmixed

end BlockTemplate.Block
