import BlockTemplate.Proofs.Rendering.Cells

/-!
A template as a row of slots with text before, between and after them. Filling one name after the
other puts each content in its own slot if no text between two slots is the name of a slot that
was filled before. The text before the first slot and behind the last one may be anything.
-/
namespace BlockTemplate.Slot

open Text

/-- A slot, what is put in its place, and the text from there to the next slot. -/
structure Entry where
  name : Text
  content : Text
  after : Text
deriving DecidableEq, Repr

/-- An entry without number signs, whose name is not empty. -/
structure Entry.Plain (e : Entry) : Prop where
  name : '#' ∉ e.name
  name_ne_nil : e.name ≠ []
  content : '#' ∉ e.content
  after : '#' ∉ e.after

/-- The text with its slots. -/
def rowTemplate (x : Text) (row : List Entry) : Text :=
  x ++ row.flatMap fun e => ofName e.name ++ e.after

/-- The text with each content in the place of its slot. -/
def rowFilled (x : Text) (row : List Entry) : Text :=
  x ++ row.flatMap fun e => e.content ++ e.after

/-- No text between two slots is the name of a slot that stands to the left of both. The text
right behind a slot may be the name of that slot itself. -/
def Separated (row : List Entry) : Prop :=
  row.dropLast.Pairwise fun e e' => e'.after ≠ e.name

def pair (e : Entry) : Text × Text := (e.name, e.content)

def rowCells (row : List Entry) : List Text := row.flatMap fun e => [e.name, e.after]

@[simp] theorem rowCells_nil : rowCells [] = [] := rfl

@[simp] theorem rowCells_cons (e : Entry) (row : List Entry) :
    rowCells (e :: row) = e.name :: e.after :: rowCells row := rfl

theorem rowTemplate_cons (x : Text) (e : Entry) (row : List Entry) :
    rowTemplate x (e :: row) = x ++ ofName e.name ++ rowTemplate e.after row := by
  simp [rowTemplate]

theorem rowTemplate_eq_joined (x : Text) (row : List Entry) :
    rowTemplate x row = joined (x :: rowCells row) := by
  induction row generalizing x with
  | nil => simp [rowTemplate]
  | cons e row ih =>
    rw [rowTemplate_cons, ih, rowCells_cons, joined_cons_cons, joined_cons_cons, ofName]
    simp

theorem notMem_rowCells {x : Text} {row : List Entry} (hx : '#' ∉ x)
    (hrow : ∀ e ∈ row, e.Plain) : ∀ y ∈ x :: rowCells row, '#' ∉ y := by
  intro y hy
  rcases List.mem_cons.mp hy with rfl | hy
  · exact hx
  · obtain ⟨e, he, hy⟩ := List.mem_flatMap.mp hy
    simp only [List.mem_cons, List.not_mem_nil, or_false] at hy
    rcases hy with rfl | rfl
    · exact (hrow e he).name
    · exact (hrow e he).after

/-- The cells between others: the names, and the texts between two slots. -/
theorem mem_dropLast_rowCells {row : List Entry} {y : Text} (h : y ∈ (rowCells row).dropLast) :
    (∃ e ∈ row, y = e.name) ∨ ∃ e ∈ row.dropLast, y = e.after := by
  induction row with
  | nil => cases h
  | cons e row ih =>
    cases row with
    | nil => exact Or.inl ⟨e, List.mem_cons_self, by simpa using h⟩
    | cons e' row =>
      simp only [rowCells_cons, List.dropLast_cons_cons, List.mem_cons] at h ih ⊢
      rcases h with rfl | rfl | h
      · exact Or.inl ⟨e, Or.inl rfl, rfl⟩
      · exact Or.inr ⟨e, Or.inl rfl, rfl⟩
      · rcases ih (by simpa using h) with ⟨e'', he, hy⟩ | ⟨e'', he, hy⟩
        · exact Or.inl ⟨e'', Or.inr he, hy⟩
        · exact Or.inr ⟨e'', Or.inr he, hy⟩

/-- Filling the first slot of a row leaves a row that starts behind it. -/
theorem merge_rowCells {x : Text} {e : Entry} {row : List Entry}
    (hnames : ∀ e' ∈ row, e'.name ≠ e.name) (hafter : ∀ e' ∈ row.dropLast, e'.after ≠ e.name) :
    merge e.name e.content (x :: rowCells (e :: row)) =
      (x ++ e.content ++ e.after) :: rowCells row := by
  have hnot : e.name ∉ (e.after :: rowCells row).tail.dropLast := by
    intro h
    rcases mem_dropLast_rowCells h with ⟨e', he, heq⟩ | ⟨e', he, heq⟩
    · exact hnames e' he heq.symm
    · exact hafter e' he heq.symm
  rw [rowCells_cons, merge, if_pos rfl, merge_of_notMem hnot, List.modifyHead_cons]

theorem mergeAll_rowCells {x : Text} {row : List Entry} (hnodup : (row.map Entry.name).Nodup)
    (hsep : Separated row) : mergeAll (row.map pair) (x :: rowCells row) = [rowFilled x row] := by
  induction row generalizing x with
  | nil => simp [rowFilled]
  | cons e row ih =>
    obtain ⟨hname, hnodup⟩ := List.nodup_cons.mp hnodup
    have hnames : ∀ e' ∈ row, e'.name ≠ e.name :=
      fun e' he heq => hname (heq ▸ List.mem_map_of_mem he)
    have hrest : (∀ e' ∈ row.dropLast, e'.after ≠ e.name) ∧ Separated row := by
      cases row with
      | nil => exact ⟨by simp, List.Pairwise.nil⟩
      | cons e' row => exact List.pairwise_cons.mp hsep
    change mergeAll (row.map pair) (merge e.name e.content (x :: rowCells (e :: row))) = _
    rw [merge_rowCells hnames hrest.1, ih hnodup hrest.2]
    simp [rowFilled]

/-- Filling the template of a row is merging its cells. -/
theorem fill_rowTemplate_eq_joined {x : Text} {row : List Entry} (hx : '#' ∉ x)
    (hrow : ∀ e ∈ row, e.Plain) :
    fill (row.map pair) (rowTemplate x row) =
      joined (mergeAll (row.map pair) (x :: rowCells row)) := by
  have hentries : ∀ e ∈ row.map pair, '#' ∉ e.1 ∧ e.1 ≠ [] ∧ '#' ∉ e.2 := by
    intro e hmem
    obtain ⟨e', he, rfl⟩ := List.mem_map.mp hmem
    exact ⟨(hrow e' he).name, (hrow e' he).name_ne_nil, (hrow e' he).content⟩
  rw [rowTemplate_eq_joined, fill_joined hentries (notMem_rowCells hx hrow)]

/-- In a separated row every content comes to stand in the place of its own slot. -/
theorem fill_rowTemplate {x : Text} {row : List Entry} (hx : '#' ∉ x) (hrow : ∀ e ∈ row, e.Plain)
    (hnodup : (row.map Entry.name).Nodup) (hsep : Separated row) :
    fill (row.map pair) (rowTemplate x row) = rowFilled x row := by
  rw [fill_rowTemplate_eq_joined hx hrow, mergeAll_rowCells hnodup hsep, joined_singleton]

theorem notMem_rowFilled {x : Text} {row : List Entry} (hx : '#' ∉ x)
    (hrow : ∀ e ∈ row, e.Plain) : '#' ∉ rowFilled x row := by
  rw [rowFilled, List.mem_append, not_or]
  refine ⟨hx, fun h => ?_⟩
  obtain ⟨e, he, hmem⟩ := List.mem_flatMap.mp h
  rcases List.mem_append.mp hmem with hmem | hmem
  · exact (hrow e he).content hmem
  · exact (hrow e he).after hmem

end BlockTemplate.Slot
