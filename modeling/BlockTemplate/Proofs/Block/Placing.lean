import BlockTemplate.Block.Build
import Mathlib.Data.List.Basic
import Mathlib.Data.List.Induction
import Mathlib.Tactic.Tauto

/-!
Children placed one after the other. What is left is one child for each name, the last of its
name, and the names stand in the order in which they came first.
-/
namespace BlockTemplate.Block

theorem name_buildWithin (files : Files) (origin : Origin) (settings : Settings) (levels : Nat)
    (name t : Text) : (buildWithin files origin settings levels name t).block.name = name := by
  cases levels <;> rfl

/-- One block for each name, the last one of the name, in the order in which names appear. -/
def lastOfEachName (bs : List Block) : List Block :=
  (bs.map Block.name).eraseDups.filterMap fun name => bs.reverse.find? (·.name == name)

theorem mem_map_name_place {b : Block} {cs : List Block} {name : Text} :
    name ∈ (place b cs).map Block.name ↔ name = b.name ∨ name ∈ cs.map Block.name := by
  induction cs with
  | nil => simp [place]
  | cons c cs ih =>
    unfold place
    split
    · next h => simp [h]
    · simp only [List.map_cons, List.mem_cons, ih]
      tauto

theorem place_of_forall_ne {b : Block} {cs : List Block} (h : ∀ c ∈ cs, c.name ≠ b.name) :
    place b cs = cs ++ [b] := by
  induction cs with
  | nil => rfl
  | cons c cs ih =>
    obtain ⟨hc, hcs⟩ := List.forall_mem_cons.mp h
    rw [place, if_neg hc, ih hcs, List.cons_append]

theorem placeAll_append_singleton (bs : List Block) (b : Block) :
    placeAll (bs ++ [b]) = place b (placeAll bs) := by
  simp [placeAll]

theorem eraseDups_append_singleton (names : List Text) (name : Text) :
    (names ++ [name]).eraseDups =
      if name ∈ names then names.eraseDups else names.eraseDups ++ [name] := by
  rw [List.eraseDups_append]
  by_cases h : name ∈ names
  · simp [h, List.removeAll]
  · simp [h, List.removeAll, List.eraseDups_cons]

/-- Each name stands where it came first. -/
theorem pairwise_idxOf_eraseDups (names : List Text) :
    names.eraseDups.Pairwise fun x y => names.idxOf x < names.idxOf y := by
  induction names using List.reverseRecOn with
  | nil => simp
  | append_singleton names name ih =>
    have hkept : names.eraseDups.Pairwise fun x y =>
        (names ++ [name]).idxOf x < (names ++ [name]).idxOf y := by
      refine ih.imp_of_mem fun hx hy hlt => ?_
      rwa [List.idxOf_append_of_mem (List.mem_eraseDups.mp hx),
        List.idxOf_append_of_mem (List.mem_eraseDups.mp hy)]
    rw [eraseDups_append_singleton]
    split
    · exact hkept
    · next hnew =>
      refine List.pairwise_append.mpr ⟨hkept, List.pairwise_singleton _ _, fun x hx y hy => ?_⟩
      obtain rfl := List.mem_singleton.mp hy
      have hmem := List.mem_eraseDups.mp hx
      rw [List.idxOf_append_of_mem hmem, List.idxOf_append_of_notMem hnew]
      exact Nat.lt_add_right _ (List.idxOf_lt_length_of_mem hmem)

theorem nodup_eraseDups (names : List Text) : names.eraseDups.Nodup := by
  refine List.nodup_iff_pairwise_ne.mpr ((pairwise_idxOf_eraseDups names).imp ?_)
  rintro x y hlt rfl
  exact Nat.lt_irrefl _ hlt

/-- Placing a block where there is one block for each name in a list of names. -/
theorem place_filterMap {b : Block} {names : List Text} {block? : Text → Option Block}
    (hnodup : names.Nodup) (hname : ∀ n ∈ names, ∃ c, block? n = some c ∧ c.name = n) :
    place b (names.filterMap block?) =
      (if b.name ∈ names then names else names ++ [b.name]).filterMap fun n =>
        if n = b.name then some b else block? n := by
  induction names with
  | nil => simp [place]
  | cons n names ih =>
    obtain ⟨hn, hnames⟩ := List.nodup_cons.mp hnodup
    obtain ⟨c, hc, rfl⟩ := hname n List.mem_cons_self
    have hrest := ih hnames fun m hm => hname m (List.mem_cons_of_mem _ hm)
    rw [List.filterMap_cons_some hc, place]
    by_cases heq : c.name = b.name
    · have hother : ∀ m ∈ names, (if m = b.name then some b else block? m) = block? m :=
        fun m hm => if_neg fun (hm' : m = b.name) => hn (by rwa [heq, ← hm'])
      rw [if_pos heq, if_pos (by simp [heq]), List.filterMap_cons, if_pos heq,
        List.filterMap_congr hother]
    · rw [if_neg heq, hrest]
      by_cases hmem : b.name ∈ names
      · simp [hmem, heq, hc]
      · simp [hmem, heq, Ne.symm heq, hc]

theorem exists_find?_reverse {α : Type} {key : α → Text} {xs : List α} {n : Text}
    (h : n ∈ xs.map key) : ∃ x, xs.reverse.find? (key · == n) = some x ∧ key x = n := by
  obtain ⟨x, hx, rfl⟩ := List.mem_map.mp h
  have hsome : (xs.reverse.find? (key · == key x)).isSome :=
    List.find?_isSome.mpr ⟨x, List.mem_reverse.mpr hx, beq_self_eq_true _⟩
  obtain ⟨y, hy⟩ := Option.isSome_iff_exists.mp hsome
  exact ⟨y, hy, by simpa using List.find?_some hy⟩

/-- Placing blocks one after the other keeps the last of each name. -/
theorem placeAll_eq_lastOfEachName (bs : List Block) : placeAll bs = lastOfEachName bs := by
  induction bs using List.reverseRecOn with
  | nil => rfl
  | append_singleton bs b ih =>
    rw [placeAll_append_singleton, ih, lastOfEachName,
      place_filterMap (nodup_eraseDups _) fun n hn =>
        exists_find?_reverse (List.mem_eraseDups.mp hn)]
    have hlast : ∀ n, (bs ++ [b]).reverse.find? (·.name == n) =
        if n = b.name then some b else bs.reverse.find? (·.name == n) := by
      intro n
      by_cases h : n = b.name
      · simp [h]
      · simp [h, Ne.symm h]
    simp only [lastOfEachName, hlast, List.map_append, List.map_cons, List.map_nil,
      eraseDups_append_singleton, List.mem_eraseDups]

/-- Blocks of different names all keep their places. -/
theorem placeAll_of_nodup {bs : List Block} (h : (bs.map Block.name).Nodup) : placeAll bs = bs := by
  induction bs using List.reverseRecOn with
  | nil => rfl
  | append_singleton bs b ih =>
    rw [List.map_append, List.nodup_append] at h
    obtain ⟨hbs, -, hne⟩ := h
    have hnew : ∀ c ∈ bs, c.name ≠ b.name :=
      fun c hc => hne c.name (List.mem_map_of_mem hc) b.name (by simp)
    rw [placeAll_append_singleton, ih hbs]
    exact place_of_forall_ne hnew

end BlockTemplate.Block
