import BlockTemplate.Proofs.Rendering.Row
import BlockTemplate.Proofs.Rendering.Substituting

/-!
A block whose template is a row of slots with text around them. Placeholders are filled in the
whole template and slots one name after the other, yet the outcome is the same as if every text
were filled by itself and every slot at once. No placeholder reaches over a number sign, and in a
separated row nothing but a slot is taken for one.
-/
namespace BlockTemplate.Block

open Text

/-- The text with the values of its placeholders, as if it were the template of the block. -/
def shown (b : Block) (t : Text) : Text := { b with template := t }.substituted

theorem shown_eq (b : Block) (t : Text) :
    b.shown t = substitute b.boundText? b.style.unbound t := rfl

/-- The entry with the values of the placeholders in the text behind its slot. -/
def shownEntry (b : Block) (e : Slot.Entry) : Slot.Entry := { e with after := b.shown e.after }

variable {b : Block} {x : Text} {row : List Slot.Entry}

/-- No number sign is in a key or in a text that is bound to one. -/
def BoundWithoutSigns (b : Block) : Prop :=
  ∀ key value, b.boundText? key = some value → '#' ∉ key ∧ '#' ∉ value

theorem boundWithoutSigns_of_forall {b : Block} (h : ∀ e ∈ b.bindings, '#' ∉ e.1 ∧ '#' ∉ e.2) :
    b.BoundWithoutSigns := by
  intro key value hvalue
  obtain ⟨before, after, heq, -⟩ := List.lookup_eq_some_iff.mp hvalue
  exact h (key, value) (by simp [heq])

theorem BoundWithoutSigns.inNoKey (h : b.BoundWithoutSigns) : InNoKey b.boundText? '#' where
  ne_open := by decide
  ne_close := by decide
  notName := by decide
  noValue := by
    intro key hkey
    cases hvalue : b.boundText? key with
    | none => rfl
    | some value => exact absurd hkey (h key value hvalue).1

theorem BoundWithoutSigns.notMem_shown (h : b.BoundWithoutSigns) {t : Text} (ht : '#' ∉ t) :
    '#' ∉ b.shown t :=
  notMem_substitute (fun key value hvalue => (h key value hvalue).2) ht

/-- The texts of a row are filled each by itself. -/
theorem shown_rowTemplate (hbound : b.BoundWithoutSigns) (hnames : ∀ e ∈ row, '\x7b' ∉ e.name)
    (x : Text) : b.shown (Slot.rowTemplate x row) =
      Slot.rowTemplate (b.shown x) (row.map b.shownEntry) := by
  induction row generalizing x with
  | nil => simp [Slot.rowTemplate]
  | cons e row ih =>
    obtain ⟨hname, hnames⟩ := List.forall_mem_cons.mp hnames
    have hslot : '\x7b' ∉ '#' :: e.name ++ Slot.sign := by simp [Slot.sign, hname]
    have hwhole : Slot.rowTemplate x (e :: row) =
        x ++ '#' :: ('#' :: e.name ++ Slot.sign ++ Slot.rowTemplate e.after row) := by
      rw [Slot.rowTemplate_cons, Slot.ofName_eq_cons]
      simp
    rw [hwhole, shown_eq, hbound.inNoKey.substitute_append, substitute_append_of_notMem hslot]
    rw [← shown_eq, ← shown_eq, ih hnames, List.map_cons, Slot.rowTemplate_cons]
    simp [shownEntry, Slot.ofName_eq_cons]

/-- A row stays plain when its texts are filled. -/
theorem plain_shownEntry (hbound : b.BoundWithoutSigns) {e : Slot.Entry} (he : e.Plain) :
    (b.shownEntry e).Plain :=
  ⟨he.name, he.name_ne_nil, he.content, hbound.notMem_shown he.after⟩

theorem map_pair_shownEntry (b : Block) (row : List Slot.Entry) :
    (row.map b.shownEntry).map Slot.pair = row.map Slot.pair := by
  rw [List.map_map]
  rfl

theorem map_name_shownEntry (b : Block) (row : List Slot.Entry) :
    (row.map b.shownEntry).map Slot.Entry.name = row.map Slot.Entry.name := by
  rw [List.map_map]
  rfl

theorem rowFilled_map_shownEntry (b : Block) (x : Text) (row : List Slot.Entry) :
    Slot.rowFilled (b.shown x) (row.map b.shownEntry) =
      b.shown x ++ row.flatMap fun e => e.content ++ b.shown e.after := by
  rw [Slot.rowFilled, List.flatMap_map]
  rfl

/-- If the template is a row of slots, one for each child in their order, and the row is separated
once its texts are filled, then a snapshot has these texts and, in the place of each slot, what is
pending at the child. The commit leaves nothing pending at the children. -/
theorem commit_of_separated (htemplate : b.template = Slot.rowTemplate x row)
    (hchildren : b.children.map entry = row.map Slot.pair)
    (hcollapse : b.style.collapseBlankLines = false) (hx : '#' ∉ x) (hrow : ∀ e ∈ row, e.Plain)
    (hbraces : ∀ e ∈ row, '\x7b' ∉ e.name) (hnodup : (row.map Slot.Entry.name).Nodup)
    (hbound : b.BoundWithoutSigns) (hsep : Slot.Separated (row.map b.shownEntry)) :
    b.commit.pending =
        b.pending ++ [b.shown x ++ row.flatMap fun e => e.content ++ b.shown e.after] ∧
      ∀ c ∈ b.commit.children, c.pending = [] := by
  have hplain : ∀ e ∈ row.map b.shownEntry, e.Plain := by
    intro e he
    obtain ⟨e', he', rfl⟩ := List.mem_map.mp he
    exact plain_shownEntry hbound (hrow e' he')
  have hstart : '#' ∉ b.shown x := hbound.notMem_shown hx
  have hsubstituted : b.substituted =
      Slot.rowTemplate (b.shown x) (row.map b.shownEntry) := by
    rw [← shown_rowTemplate hbound hbraces, ← htemplate]
    rfl
  have hfilled : fillSlots b.children b.substituted =
      Slot.rowFilled (b.shown x) (row.map b.shownEntry) := by
    rw [hsubstituted, fillSlots_eq_fill, hchildren, ← map_pair_shownEntry b]
    exact Slot.fill_rowTemplate hstart hplain (by rwa [map_name_shownEntry]) hsep
  have hfree := Slot.free_of_notMem (Slot.notMem_rowFilled hstart hplain)
  have hsnapshot : b.snapshot =
      b.shown x ++ row.flatMap fun e => e.content ++ b.shown e.after := by
    rw [snapshot, hcollapse, hfilled, Slot.clear_of_free hfree, rowFilled_map_shownEntry]
    rfl
  constructor
  · rw [← hsnapshot]
    rfl
  · intro c hc
    obtain ⟨c', -, rfl⟩ := List.mem_map.mp hc
    rfl

/-- A brace that is closed behind two slots only, a text that is the name of its own slot, and one
that has become the name of a later slot. -/
theorem commit_of_separated_names :
    let a : Block := ⟨"a".toList, [], [], [], ["1".toList, "1".toList], {}⟩
    let b : Block := ⟨"b".toList, [], [], [], ["2".toList], {}⟩
    let c : Block := ⟨"c".toList, [], [], [], [], {}⟩
    let root : Block := ⟨[], "\x7bv##a##a##b##\x7bv\x7d##c##\x7d".toList, [a, b, c],
      [("v".toList, "c".toList)], ["0".toList], { collapseBlankLines := false, unbound := .blank }⟩
    let row : List Slot.Entry := [⟨"a".toList, "11".toList, "a".toList⟩,
      ⟨"b".toList, "2".toList, "\x7bv\x7d".toList⟩, ⟨"c".toList, [], "\x7d".toList⟩]
    root.template = Slot.rowTemplate "\x7bv".toList row ∧
      Slot.Separated (row.map root.shownEntry) ∧
      root.commit.pending = ["0".toList, "\x7bv11a2c\x7d".toList] ∧
      ∀ d ∈ root.commit.children, d.pending = [] := by
  intro a b c root row
  have htemplate : root.template = Slot.rowTemplate "\x7bv".toList row := by decide
  have hplain : ∀ e ∈ row, e.Plain := by
    have hall : ∀ e ∈ row, '#' ∉ e.name ∧ e.name ≠ [] ∧ '#' ∉ e.content ∧ '#' ∉ e.after := by
      decide
    exact fun e he => ⟨(hall e he).1, (hall e he).2.1, (hall e he).2.2.1, (hall e he).2.2.2⟩
  have hbound : root.BoundWithoutSigns := boundWithoutSigns_of_forall (by decide)
  have hsep : Slot.Separated (row.map root.shownEntry) := by
    unfold Slot.Separated
    decide +kernel
  have hcommit := commit_of_separated htemplate (by decide) rfl (by decide) hplain (by decide)
    (by decide) hbound hsep
  have htext : root.shown "\x7bv".toList ++ row.flatMap (fun e => e.content ++ root.shown e.after) =
      "\x7bv11a2c\x7d".toList := by
    decide +kernel
  rw [htext] at hcommit
  exact ⟨htemplate, hsep, hcommit⟩

end BlockTemplate.Block
