import BlockTemplate.Proofs.Block.Scope
import BlockTemplate.Proofs.Value.Leaves

/-!
Structured values assigned in a tree. Each scalar inside such a value is bound to a key of its
own, on the block of the assignment and on all blocks below it, and whatever else is bound in the
tree stays as it is.
-/
namespace BlockTemplate.Block

variable {pairs : List (Text × Text)} {key text : Text}

/-- Where no key is given twice, every pair is the last one of its key. -/
theorem lastOf?_of_nodup (h : (pairs.map Prod.fst).Nodup) (hmem : (key, text) ∈ pairs) :
    lastOf? key pairs = some text := by
  induction pairs with
  | nil => cases hmem
  | cons pair pairs ih =>
    rw [List.map_cons, List.nodup_cons] at h
    rw [← List.singleton_append, lastOf?_append, lastOf?_singleton]
    rcases List.mem_cons.mp hmem with rfl | hmem
    · have hnone : lastOf? key pairs = none := by
        rw [← Option.not_isSome_iff_eq_none, lastOf?_isSome]
        exact h.1
      rw [hnone, if_pos rfl]
      rfl
    · rw [ih h.2 hmem]
      rfl

variable {value : Value} {root : Text}

theorem lastOf?_leaf (h : value.Undotted) {leaf : Leaf} (hleaf : leaf ∈ value.leaves) :
    lastOf? (leaf.key root) (value.flatten root) = some leaf.text := by
  rw [Value.flatten_eq_map_leaves]
  apply lastOf?_of_nodup
  · rw [List.map_map]
    exact h.nodup_keys root
  · exact List.mem_map.mpr ⟨leaf, hleaf, rfl⟩

theorem lastOf?_flatten_eq_none (h : ∀ leaf ∈ value.leaves, leaf.key root ≠ key) :
    lastOf? key (value.flatten root) = none := by
  rw [← Option.not_isSome_iff_eq_none, lastOf?_isSome, Value.flatten_eq_map_leaves, List.map_map]
  intro hkey
  obtain ⟨leaf, hleaf, heq⟩ := List.mem_map.mp hkey
  exact h leaf hleaf heq

/-- An assignment keeps every block in its place and binds on it the pairs that reach it. -/
theorem exists_at?_assign {b c : Block} {a : Address} (hc : b.at? a = some c) (p : Address)
    (root : Text) (value : Value) :
    ∃ c', (b.update (Operation.assign root value).apply p).at? a = some c' ∧ ∀ k,
      c'.boundText? k =
        (lastOf? k (pairsFor a (p, .assign root value))).or (c.boundText? k) := by
  have hstep := fun k => map_boundText?_at?_step a (p, .assign root value) b k
  simp only [hc, Option.map_some, Option.map_eq_some_iff] at hstep
  obtain ⟨c', hc', -⟩ := hstep []
  refine ⟨c', hc', fun k => ?_⟩
  obtain ⟨d, hd, hbound⟩ := hstep k
  obtain rfl := Option.some.inj (hc'.symm.trans hd)
  exact hbound

/-- If the keys of each map in a value are pairwise distinct and have no dots, the value is
flattened to one pair for each scalar that can be reached in it, depth first and with pairwise
distinct keys. So an assignment of the value binds every one of its scalars, on the block that it
is made on and on all blocks below it, and changes nothing else that is bound in the tree. -/
theorem every_leaf_bound (h : value.Undotted) (root : Text) (b : Block) (p : Address) :
    (∀ leaf, leaf ∈ value.leaves ↔
      value.reach? leaf.place = some (leaf.names, .scalar leaf.text)) ∧
    value.leaves.Pairwise (fun x y => x.place < y.place) ∧
    value.flatten root = value.leaves.map (fun leaf => (leaf.key root, leaf.text)) ∧
    (value.leaves.map (Leaf.key root)).Nodup ∧
    ∀ a c, b.at? a = some c →
      ∃ c', (b.update (Operation.assign root value).apply p).at? a = some c' ∧
        (p <+: a → ∀ leaf ∈ value.leaves, c'.boundText? (leaf.key root) = some leaf.text) ∧
        ∀ k, (p <+: a → ∀ leaf ∈ value.leaves, leaf.key root ≠ k) →
          c'.boundText? k = c.boundText? k := by
  refine ⟨fun _ => Value.mem_leaves_iff, Value.pairwise_leaves value,
    Value.flatten_eq_map_leaves value root, h.nodup_keys root, fun a c hc => ?_⟩
  obtain ⟨c', hc', hbound⟩ := exists_at?_assign hc p root value
  refine ⟨c', hc', fun hbelow leaf hleaf => ?_, fun k hother => ?_⟩
  · rw [hbound, pairsFor, if_pos hbelow, lastOf?_leaf h hleaf, Option.some_or]
  · rw [hbound, pairsFor]
    split
    · next hbelow => rw [lastOf?_flatten_eq_none (hother hbelow), Option.none_or]
    · rfl

/-- A value with empty keys and empty maps, assigned to a child: what the parent and the other
child have bound stays, and so does what is bound below to a key that no scalar has. -/
theorem every_leaf_bound_empty_keys :
    let value : Value := .map [([], .scalar "1".toList),
      ("a".toList, .list [.scalar "2".toList, .map [], .map [([], .scalar "3".toList)]])]
    let grandchild := (new "g".toList [] [] {}).bind "u.a.1".toList "kept".toList
    let b := new [] [] [new "c".toList [] [grandchild] {}, new "d".toList [] [] {}] {}
    let b' := b.update (Operation.assign "u".toList value).apply [0]
    value.Undotted ∧
      value.leaves.map (Leaf.key "u".toList) =
        ["u.".toList, "u.a.0".toList, "u.a.2.".toList] ∧
      (∃ c', b'.at? [0, 0] = some c' ∧ c'.boundText? "u.a.2.".toList = some "3".toList ∧
        c'.boundText? "u.a.1".toList = some "kept".toList) ∧
      ∃ d', b'.at? [1] = some d' ∧ d'.boundText? "u.".toList = none := by
  intro value grandchild b b'
  have hundotted : value.Undotted := by
    simp [value]
  have hkeys : value.leaves.map (Leaf.key "u".toList) =
      ["u.".toList, "u.a.0".toList, "u.a.2.".toList] := by
    decide +kernel
  obtain ⟨-, -, -, -, htree⟩ := every_leaf_bound hundotted "u".toList b [0]
  obtain ⟨c', hc', hbelow, hother⟩ := htree [0, 0] grandchild rfl
  obtain ⟨d', hd', -, hbeside⟩ := htree [1] (new "d".toList [] [] {}) rfl
  have hlast : (⟨[1, 2, 0], ["a".toList, "2".toList, []], "3".toList⟩ : Leaf) ∈ value.leaves := by
    decide +kernel
  refine ⟨hundotted, hkeys, ⟨c', hc', hbelow (by decide) _ hlast, ?_⟩, d', hd', ?_⟩
  · rw [hother]
    · decide +kernel
    · intro _ leaf hleaf heq
      have hmem := List.mem_map_of_mem (f := Leaf.key "u".toList) hleaf
      rw [hkeys, heq] at hmem
      revert hmem
      decide
  · rw [hbeside _ fun h => absurd h (by decide)]
    rfl

end BlockTemplate.Block
