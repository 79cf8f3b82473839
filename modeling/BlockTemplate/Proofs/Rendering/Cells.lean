import BlockTemplate.Proofs.Rendering.Filling

/-!
A text with pairs of number signs as cells: the texts between the pairs. If no cell has a number
sign of its own, the slot of a name stands where a cell between two others is that name, and
filling it makes one cell of the three. The search goes on behind the slot, so that of two
neighbours with the name only the first is filled.
-/
namespace BlockTemplate.Slot

open Text

/-- The cells with pairs of signs between them. -/
def joined (cells : List Text) : Text := join sign cells

@[simp] theorem joined_singleton (x : Text) : joined [x] = x := by
  rw [joined, join, List.intercalate_singleton]

@[simp] theorem joined_cons_cons (x y : Text) (cells : List Text) :
    joined (x :: y :: cells) = x ++ sign ++ joined (y :: cells) := by
  rw [joined, join, List.intercalate_cons_cons]
  rfl

/-- Cells with the slots of a name filled with `r`, from left to right. -/
def merge (name r : Text) : List Text → List Text
  | x :: y :: z :: rest =>
    if y = name then (merge name r (z :: rest)).modifyHead (x ++ r ++ ·)
    else x :: merge name r (y :: z :: rest)
  | cells => cells

theorem merge_ne_nil {name r : Text} {cells : List Text} (h : cells ≠ []) :
    merge name r cells ≠ [] := by
  fun_induction merge name r cells with
  | case1 x z rest ih => simpa [List.modifyHead_eq_nil_iff] using ih (List.cons_ne_nil _ _)
  | case2 => exact List.cons_ne_nil _ _
  | case3 => exact h

theorem joined_modifyHead (s : Text) {cells : List Text} (h : cells ≠ []) :
    joined (cells.modifyHead (s ++ ·)) = s ++ joined cells := by
  obtain ⟨x, rest, rfl⟩ := List.exists_cons_of_ne_nil h
  cases rest with
  | nil => simp
  | cons y rest => simp

theorem joined_cons_merge (name r x y : Text) (cells : List Text) :
    joined (x :: merge name r (y :: cells)) = x ++ sign ++ joined (merge name r (y :: cells)) := by
  obtain ⟨z, rest, h⟩ := List.exists_cons_of_ne_nil (merge_ne_nil (List.cons_ne_nil y cells))
  rw [h, joined_cons_cons]

/-- The search for a slot passes over a cell and a pair of signs, if the slot is not there. -/
theorem cut?_ofName_append {name x y : Text} (hx : '#' ∉ x) (hy : '#' ∉ y) (hname : '#' ∉ name)
    (hne : name ≠ []) (hyname : y ≠ name) (t : Text) :
    cut? (ofName name) (x ++ sign ++ (y ++ sign ++ t)) =
      (cut? (ofName name) (y ++ sign ++ t)).map fun ab => (x ++ sign ++ ab.1, ab.2) := by
  obtain ⟨c, rest, hcons⟩ := List.exists_cons_of_ne_nil hne
  have hc : c ≠ '#' := fun h => hname (by simp [hcons, h])
  have hfirst : ¬ name ++ sign <+: y ++ sign ++ t := by
    rintro ⟨u, hu⟩
    rw [sign_eq, List.append_assoc, List.append_assoc] at hu
    exact hyname (append_cons_inj hy hname hu.symm).1
  have hsecond : ¬ '#' :: (name ++ sign) <+: y ++ sign ++ t := by
    rintro ⟨u, hu⟩
    cases y with
    | nil =>
      rw [hcons] at hu
      exact hc (List.cons.inj (List.cons.inj hu).2).1
    | cons d y =>
      obtain ⟨rfl, -⟩ := List.cons.inj hu
      exact hy List.mem_cons_self
  have hpass : ∀ s, ¬ '#' :: (name ++ sign) <+: s →
      cut? (ofName name) ('#' :: s) = (cut? (ofName name) s).map fun ab => ('#' :: ab.1, ab.2) := by
    intro s hs
    rw [cut?_cons, if_neg]
    rw [List.isPrefixOf_iff_prefix, ofName_eq_cons]
    exact fun h => hs (List.cons_prefix_cons.mp h).2
  have hstart : cut? (ofName name) (x ++ sign ++ (y ++ sign ++ t)) =
      (cut? (ofName name) ('#' :: '#' :: (y ++ sign ++ t))).map fun ab => (x ++ ab.1, ab.2) := by
    rw [List.append_assoc]
    exact cut?_append_of_notMem hx _
  rw [hstart, hpass _ fun h => hfirst (List.cons_prefix_cons.mp h).2, hpass _ hsecond]
  simp only [Option.map_map, Function.comp_def, sign_eq]
  congr 1
  funext ab
  simp

theorem cut?_ofName_of_two {name x y : Text} (hx : '#' ∉ x) (hy : '#' ∉ y) :
    cut? (ofName name) (x ++ sign ++ y) = none := by
  rw [cut?_eq_none_iff]
  intro h
  have hcount := h.sublist.count_le '#'
  have hx := List.count_eq_zero_of_not_mem hx
  have hy := List.count_eq_zero_of_not_mem hy
  simp only [ofName, sign_eq, List.count_append, hx, hy] at hcount
  simp at hcount

/-- Replacing the slot of a name is merging the cells that stand for it. -/
theorem replaceAll_joined {name r : Text} {cells : List Text} (hname : '#' ∉ name)
    (hne : name ≠ []) (hcells : ∀ x ∈ cells, '#' ∉ x) :
    replaceAll (ofName name) r (joined cells) = joined (merge name r cells) := by
  fun_induction merge name r cells with
  | case1 x z rest ih =>
    obtain ⟨hx, -, hrest⟩ : '#' ∉ x ∧ '#' ∉ name ∧ ∀ y ∈ z :: rest, '#' ∉ y := by
      simpa using hcells
    have hcut : cut? (ofName name) (joined (x :: name :: z :: rest)) =
        some (x, joined (z :: rest)) := by
      have h := cut?_append_pattern (p := '#' :: name ++ sign) hx (joined (z :: rest))
      simpa [ofName_eq_cons, sign_eq] using h
    rw [replaceAll_of_cut? (ofName_ne_nil name) hcut, ih hrest,
      joined_modifyHead _ (merge_ne_nil (List.cons_ne_nil _ _))]
  | case2 x y z rest hyname ih =>
    obtain ⟨hx, hy, hrest⟩ : '#' ∉ x ∧ '#' ∉ y ∧ ∀ y ∈ z :: rest, '#' ∉ y := by
      simpa using hcells
    have hpass := cut?_ofName_append hx hy hname hne hyname (joined (z :: rest))
    rw [joined_cons_merge, ← ih (by simpa using ⟨hy, by simpa using hrest⟩)]
    rw [joined_cons_cons, joined_cons_cons]
    exact replaceAll_append_of_cut? (ofName_ne_nil name) hpass
  | case3 cells hshort =>
    apply replaceAll_of_cut?_eq_none
    cases cells with
    | nil => rfl
    | cons x rest =>
      cases rest with
      | nil =>
        rw [joined_singleton]
        exact cut?_of_notMem (hcells x List.mem_cons_self)
      | cons y rest =>
        cases rest with
        | nil =>
          rw [joined_cons_cons, joined_singleton]
          exact cut?_ofName_of_two (hcells x (by simp)) (hcells y (by simp))
        | cons z rest => exact absurd rfl (hshort x y z rest)

/-- Cells are merged at a name that stands between two others, and nowhere else. -/
theorem merge_of_notMem {name r : Text} {cells : List Text} (h : name ∉ cells.tail.dropLast) :
    merge name r cells = cells := by
  fun_induction merge name r cells with
  | case1 x z rest => simp at h
  | case2 x y z rest hyname ih =>
    obtain ⟨-, hrest⟩ : name ≠ y ∧ name ∉ (z :: rest).dropLast := by simpa using h
    rw [ih (by simpa using hrest)]
  | case3 => rfl

theorem notMem_of_mem_merge {name r : Text} {cells : List Text} (hr : '#' ∉ r)
    (hcells : ∀ x ∈ cells, '#' ∉ x) : ∀ x ∈ merge name r cells, '#' ∉ x := by
  fun_induction merge name r cells with
  | case1 x z rest ih =>
    obtain ⟨hx, -, hrest⟩ : '#' ∉ x ∧ '#' ∉ name ∧ ∀ y ∈ z :: rest, '#' ∉ y := by
      simpa using hcells
    have hmerged := ih hrest
    have hne : merge name r (z :: rest) ≠ [] := merge_ne_nil (List.cons_ne_nil z rest)
    obtain ⟨y, tail, heq⟩ := List.exists_cons_of_ne_nil hne
    rw [heq] at hmerged ⊢
    simp only [List.modifyHead_cons, List.forall_mem_cons, List.mem_append, not_or] at hmerged ⊢
    exact ⟨⟨⟨hx, hr⟩, hmerged.1⟩, hmerged.2⟩
  | case2 x y z rest _ ih =>
    obtain ⟨hx, hrest⟩ := List.forall_mem_cons.mp hcells
    exact List.forall_mem_cons.mpr ⟨hx, ih hrest⟩
  | case3 => exact hcells

/-- Cells with the slots of each name filled with its text, one name after the other. -/
def mergeAll (entries : List (Text × Text)) (cells : List Text) : List Text :=
  entries.foldl (fun cells e => merge e.1 e.2 cells) cells

@[simp] theorem mergeAll_nil (cells : List Text) : mergeAll [] cells = cells := rfl

@[simp] theorem mergeAll_cons (e : Text × Text) (entries : List (Text × Text))
    (cells : List Text) :
    mergeAll (e :: entries) cells = mergeAll entries (merge e.1 e.2 cells) := rfl

/-- Filling slots is merging cells, as long as nothing brings number signs of its own. -/
theorem fill_joined {entries : List (Text × Text)} {cells : List Text}
    (hentries : ∀ e ∈ entries, '#' ∉ e.1 ∧ e.1 ≠ [] ∧ '#' ∉ e.2)
    (hcells : ∀ x ∈ cells, '#' ∉ x) :
    fill entries (joined cells) = joined (mergeAll entries cells) := by
  induction entries generalizing cells with
  | nil => rfl
  | cons e entries ih =>
    obtain ⟨⟨hname, hne, hr⟩, hrest⟩ := List.forall_mem_cons.mp hentries
    rw [fill_cons, replaceAll_joined hname hne hcells, mergeAll_cons]
    exact ih hrest (notMem_of_mem_merge hr hcells)

end BlockTemplate.Slot
