import BlockTemplate.Proofs.Rendering.Row

/-!
Rows that are not separated. When a text between two slots is taken for a slot, the names of the
two slots become parts of a cell between others, which is never filled as long as no name is as
long as the contents are. Fewer slots are filled than there are contents, and contents of many
line ends show it: there are too few line ends in the end.
-/
namespace BlockTemplate.Slot

open Text

/-- A cell at an odd position, or at an even one, has more than `m` characters. -/
def LongAt (m : Nat) : (odd : Bool) → List Text → Prop
  | _, [] => False
  | false, x :: rest => m < x.length ∨ LongAt m true rest
  | true, _ :: rest => LongAt m false rest

variable {m n : Nat} {odd : Bool} {name r x : Text} {cells : List Text} {row : List Entry}

theorem two_le_length_of_longAt (h : LongAt m true cells) : 2 ≤ cells.length := by
  cases cells with
  | nil => cases h
  | cons x rest =>
    cases rest with
    | nil => cases h
    | cons y rest =>
      simp only [List.length_cons]
      omega

theorem longAt_true_modifyHead (f : Text → Text) :
    LongAt m true (cells.modifyHead f) ↔ LongAt m true cells := by
  cases cells <;> rfl

theorem longAt_false_modifyHead (hr : m < r.length) (x : Text) (hne : cells ≠ []) :
    LongAt m false (cells.modifyHead (x ++ r ++ ·)) := by
  obtain ⟨y, rest, rfl⟩ := List.exists_cons_of_ne_nil hne
  left
  simp only [List.length_append]
  omega

/-- Merging by a short name and a long text takes no long cell out of its kind of position. -/
theorem longAt_merge (hname : name.length ≤ m) (hr : m < r.length) (h : LongAt m odd cells) :
    LongAt m odd (merge name r cells) := by
  fun_induction merge name r cells generalizing odd with
  | case1 x z rest ih =>
    cases odd with
    | false => exact longAt_false_modifyHead hr x (merge_ne_nil (List.cons_ne_nil z rest))
    | true =>
      rw [longAt_true_modifyHead]
      rcases h with hlong | hrest
      · omega
      · exact ih hrest
  | case2 x y z rest _ ih =>
    cases odd with
    | false =>
      rcases h with hlong | hrest
      · exact Or.inl hlong
      · exact Or.inr (ih hrest)
    | true => exact ih h
  | case3 => exact h

theorem longAt_mergeAll {entries : List (Text × Text)}
    (hentries : ∀ e ∈ entries, e.1.length ≤ m ∧ m < e.2.length) (h : LongAt m odd cells) :
    LongAt m odd (mergeAll entries cells) := by
  induction entries generalizing cells with
  | nil => exact h
  | cons e entries ih =>
    obtain ⟨⟨hname, hr⟩, hrest⟩ := List.forall_mem_cons.mp hentries
    exact ih hrest (longAt_merge hname hr h)

/-- Where a text between two slots is the name, merging leaves a long cell between others. -/
theorem longAt_merge_rowCells (hr : m < r.length) (hnames : ∀ e ∈ row, e.name ≠ name)
    (hafter : ∃ e ∈ row.dropLast, e.after = name) (x : Text) :
    LongAt m true (merge name r (x :: rowCells row)) := by
  induction row generalizing x with
  | nil =>
    obtain ⟨e, he, -⟩ := hafter
    cases he
  | cons e row ih =>
    obtain ⟨hname, hnames⟩ := List.forall_mem_cons.mp hnames
    cases row with
    | nil =>
      obtain ⟨e', he', -⟩ := hafter
      cases he'
    | cons e' row =>
      rw [rowCells_cons, merge, if_neg hname]
      change LongAt m false (merge name r (e.name :: e.after :: rowCells (e' :: row)))
      rw [rowCells_cons, merge]
      by_cases heq : e.after = name
      · rw [if_pos heq]
        exact longAt_false_modifyHead hr _ (merge_ne_nil (List.cons_ne_nil _ _))
      · obtain ⟨e'', he'', hafter⟩ := hafter
        rw [List.dropLast_cons_cons] at he''
        have hmem : e'' ∈ (e' :: row).dropLast := by
          rcases List.mem_cons.mp he'' with rfl | hmem
          · exact absurd hafter heq
          · exact hmem
        rw [if_neg heq]
        exact Or.inr (ih hnames ⟨e'', hmem, hafter⟩ e.after)

/-- Filling a row that is not separated leaves a cell between others in the end. -/
theorem longAt_mergeAll_rowCells (hnodup : (row.map Entry.name).Nodup) (hsep : ¬ Separated row)
    (hrow : ∀ e ∈ row, e.name.length ≤ m ∧ m < e.content.length) :
    LongAt m true (mergeAll (row.map pair) (x :: rowCells row)) := by
  induction row generalizing x with
  | nil => exact absurd List.Pairwise.nil hsep
  | cons e row ih =>
    obtain ⟨hname, hnodup⟩ := List.nodup_cons.mp hnodup
    obtain ⟨⟨-, hcontent⟩, hrest⟩ := List.forall_mem_cons.mp hrow
    have hnames : ∀ e' ∈ row, e'.name ≠ e.name :=
      fun e' he heq => hname (heq ▸ List.mem_map_of_mem he)
    change LongAt m true
      (mergeAll (row.map pair) (merge e.name e.content (x :: rowCells (e :: row))))
    by_cases hafter : ∃ e' ∈ row.dropLast, e'.after = e.name
    · have hpairs : ∀ p ∈ row.map pair, p.1.length ≤ m ∧ m < p.2.length := by
        intro p hp
        obtain ⟨e', he', rfl⟩ := List.mem_map.mp hp
        exact hrest e' he'
      refine longAt_mergeAll hpairs ?_
      rw [rowCells_cons, merge, if_pos rfl, longAt_true_modifyHead]
      exact longAt_merge_rowCells hcontent hnames hafter e.after
    · have hnot : ∀ e' ∈ row.dropLast, e'.after ≠ e.name :=
        fun e' he' heq => hafter ⟨e', he', heq⟩
      rw [merge_rowCells hnames hnot]
      refine ih hnodup (fun h => hsep ?_) hrest
      cases row with
      | nil => exact List.Pairwise.nil
      | cons e' row => exact List.pairwise_cons.mpr ⟨hnot, h⟩

/-- The number of line ends in all cells. -/
def breaks : List Text → Nat
  | [] => 0
  | x :: cells => x.count '\n' + breaks cells

theorem breaks_modifyHead (s : Text) (hne : cells ≠ []) :
    breaks (cells.modifyHead (s ++ ·)) = s.count '\n' + breaks cells := by
  obtain ⟨y, rest, rfl⟩ := List.exists_cons_of_ne_nil hne
  simp [breaks, Nat.add_assoc]

theorem count_joined (cells : List Text) : (joined cells).count '\n' = breaks cells := by
  induction cells with
  | nil => rfl
  | cons x rest ih =>
    cases rest with
    | nil => simp [breaks]
    | cons y rest => rw [joined_cons_cons, breaks, ← ih]; simp [sign_eq]

/-- Merging brings at most the line ends of the text for every two cells that it takes away. -/
theorem breaks_merge_le (hr : r.count '\n' = n) (cells : List Text) :
    2 * breaks (merge name r cells) + n * (merge name r cells).length ≤
      2 * breaks cells + n * cells.length := by
  fun_induction merge name r cells with
  | case1 x z rest ih =>
    rw [breaks_modifyHead _ (merge_ne_nil (List.cons_ne_nil z rest)), List.length_modifyHead,
      List.count_append, hr]
    simp only [breaks, List.length_cons, Nat.mul_add] at ih ⊢
    omega
  | case2 x y z rest _ ih =>
    simp only [breaks, List.length_cons, Nat.mul_add] at ih ⊢
    omega
  | case3 => exact Nat.le_refl _

theorem breaks_mergeAll_le {entries : List (Text × Text)}
    (hentries : ∀ e ∈ entries, e.2.count '\n' = n) (cells : List Text) :
    2 * breaks (mergeAll entries cells) + n * (mergeAll entries cells).length ≤
      2 * breaks cells + n * cells.length := by
  induction entries generalizing cells with
  | nil => exact Nat.le_refl _
  | cons e entries ih =>
    obtain ⟨he, hrest⟩ := List.forall_mem_cons.mp hentries
    exact (ih hrest _).trans (breaks_merge_le he cells)

theorem length_rowCells (row : List Entry) : (rowCells row).length = 2 * row.length := by
  induction row with
  | nil => rfl
  | cons e row ih =>
    simp only [rowCells_cons, List.length_cons, ih]
    omega

theorem le_count_rowFilled (hrow : ∀ e ∈ row, e.content.count '\n' = n) (x : Text) :
    n * row.length ≤ (rowFilled x row).count '\n' := by
  induction row generalizing x with
  | nil => exact Nat.zero_le _
  | cons e row ih =>
    obtain ⟨he, hrest⟩ := List.forall_mem_cons.mp hrow
    have h := ih hrest e.after
    simp only [rowFilled, List.flatMap_cons, List.count_append, List.length_cons, Nat.mul_add,
      he] at h ⊢
    omega

/-- A row that is not separated is not filled slot by slot if every content is the same long
run of line ends. -/
theorem clear_fill_ne (hx : '#' ∉ x) (hrow : ∀ e ∈ row, e.Plain)
    (hnodup : (row.map Entry.name).Nodup) (hsep : ¬ Separated row)
    (hnames : ∀ e ∈ row, e.name.length ≤ m) (hmn : m < n)
    (hbreaks : 2 * breaks (x :: rowCells row) < n)
    (hcontent : ∀ e ∈ row, e.content = List.replicate n '\n') :
    clear (fill (row.map pair) (rowTemplate x row)) ≠ rowFilled x row := by
  intro heq
  have hlong : LongAt m true (mergeAll (row.map pair) (x :: rowCells row)) := by
    refine longAt_mergeAll_rowCells hnodup hsep fun e he => ⟨hnames e he, ?_⟩
    rw [hcontent e he, List.length_replicate]
    exact hmn
  have hcount : ∀ e ∈ row, e.content.count '\n' = n := by
    intro e he
    rw [hcontent e he, List.count_replicate_self]
  have hpairs : ∀ p ∈ row.map pair, p.2.count '\n' = n := by
    intro p hp
    obtain ⟨e, he, rfl⟩ := List.mem_map.mp hp
    exact hcount e he
  have hlength := two_le_length_of_longAt hlong
  have hle := breaks_mergeAll_le hpairs (x :: rowCells row)
  have hfilled := le_count_rowFilled hcount x
  rw [← heq, count_clear, fill_rowTemplate_eq_joined hx hrow, count_joined] at hfilled
  have htwo : n * 2 ≤ n * (mergeAll (row.map pair) (x :: rowCells row)).length :=
    Nat.mul_le_mul_left n hlength
  rw [List.length_cons, length_rowCells, Nat.mul_add, Nat.mul_left_comm] at hle
  omega

end BlockTemplate.Slot
