import BlockTemplate.Proofs.Block.Binding
import BlockTemplate.Proofs.Rendering.Filling
import BlockTemplate.Proofs.Rendering.Substituting

/-!
A value that is bound to a placeholder, and what is rendered of it. Substitution puts the value
in literally, but slots are filled and cleared afterwards in the text that it gives, so that a
value is read once more for slots. Without a slot in the value nothing happens to it; with one
there is a block that renders something else.
-/
namespace BlockTemplate.Block

open Text

variable {b : Block} {before after key value : Text}

/-- Binding a text leaves what a parent reads of its children alone. -/
theorem fillSlots_bind (b : Block) (key text t : Text) :
    fillSlots (b.bind key text).children t = fillSlots b.children t := by
  have hentry : entry ∘ bind key text = entry := by
    funext c
    simp [entry, output]
  rw [children_bind, fillSlots_eq_fill, fillSlots_eq_fill, List.map_map, hentry]

/-- The value of the only placeholder of a template, with its slots filled and cleared. -/
theorem snapshot_bind (hbefore : '\x7b' ∉ before ∧ '#' ∉ before)
    (hafter : '\x7b' ∉ after ∧ '#' ∉ after) (hkey : '\x7d' ∉ key)
    (htemplate : b.template = before ++ '\x7b' :: (key ++ '\x7d' :: after))
    (hstyle : b.style.collapseBlankLines = false) :
    (b.bind key value).snapshot =
      before ++ Slot.clear (fillSlots b.children value) ++ after := by
  have hbound : (b.bind key value).boundText? key = some value := by
    rw [boundText?_bind, if_pos rfl]
  have hsubstituted : (b.bind key value).substituted = before ++ value ++ after := by
    rw [substituted, template_bind, htemplate, substitute_placeholder hbefore.1 hkey hbound,
      substitute_of_notMem hafter.1]
  have hfill : fillSlots b.children (before ++ value ++ after) =
      before ++ fillSlots b.children value ++ after := by
    simp only [fillSlots_eq_fill]
    exact Slot.fill_append hbefore.2 hafter.2 _ _
  simp only [snapshot, style_bind, hstyle, hsubstituted, fillSlots_bind, hfill]
  rw [Slot.clear_append_of_notMem_right hafter.2, Slot.clear_append_of_notMem hbefore.2]
  rfl

/-- If a slot stands in the value, a child of its name renders line ends in its place. -/
theorem exists_clear_fillSlots_ne (h : ¬ Slot.Free value) :
    ∃ children, Slot.clear (fillSlots children value) ≠ value := by
  obtain ⟨name, hslot⟩ : ∃ name, Slot.ofName name <:+: value := by
    simpa [Slot.Free] using h
  let breaks := List.replicate (value.count '\n' + 1) '\n'
  refine ⟨[⟨name, [], [], [], [breaks], {}⟩], fun heq => ?_⟩
  cases hcut : cut? (Slot.ofName name) value with
  | none => exact cut?_eq_none_iff.mp hcut hslot
  | some ab =>
    have hreplace := replaceAll_of_cut? (r := breaks) (Slot.ofName_ne_nil name) hcut
    have hcount := congrArg (List.count '\n') heq
    rw [Slot.count_clear, fillSlots_eq_fill] at hcount
    simp only [List.map_cons, List.map_nil, entry, output, List.flatten_cons, List.flatten_nil,
      List.append_nil, Slot.fill_cons, Slot.fill_nil, hreplace, List.count_append] at hcount
    simp only [breaks, List.count_replicate_self] at hcount
    omega

/-- A value without slots is rendered literally by every block with the template, and no other
value is. -/
theorem commit_assign_literal_iff (hbefore : '\x7b' ∉ before ∧ '#' ∉ before)
    (hafter : '\x7b' ∉ after ∧ '#' ∉ after) (hkey : '\x7d' ∉ key) :
    (∀ b : Block, b.template = before ++ '\x7b' :: (key ++ '\x7d' :: after) →
      b.style.collapseBlankLines = false →
      (b.assign key (.scalar value)).commit.pending =
        b.pending ++ [before ++ value ++ after]) ↔ Slot.Free value := by
  have hassign : ∀ b : Block, b.assign key (.scalar value) = b.bind key value := fun _ => rfl
  constructor
  · intro h
    by_contra hslot
    obtain ⟨children, hne⟩ := exists_clear_fillSlots_ne hslot
    let b : Block := ⟨[], before ++ '\x7b' :: (key ++ '\x7d' :: after), children, [], [],
      { collapseBlankLines := false }⟩
    have hpending := h b rfl rfl
    have hsnapshot : (b.bind key value).snapshot =
        before ++ Slot.clear (fillSlots children value) ++ after :=
      snapshot_bind hbefore hafter hkey rfl rfl
    rw [hassign, commit, hsnapshot] at hpending
    simp only [pending_bind, b, List.nil_append, List.cons.injEq, and_true,
      List.append_cancel_right_eq, List.append_cancel_left_eq] at hpending
    exact hne hpending
  · intro h b htemplate hstyle
    have hfill : fillSlots b.children value = value := by
      rw [fillSlots_eq_fill, Slot.fill_of_free h]
    rw [hassign, commit, snapshot_bind hbefore hafter hkey htemplate hstyle, hfill,
      Slot.clear_of_free h, pending_bind]

/-- Braces, a marker and a single pair of signs in a value are no slot, even with a child. -/
theorem commit_assign_literal_markup :
    let value := "\x7bk\x7d#<!--begin:x-->\n##x".toList
    let child : Block := ⟨"x".toList, [], [], [], ["y".toList], {}⟩
    let b : Block := ⟨[], "1\x7bk\x7d2".toList, [child], [], ["0".toList],
      { collapseBlankLines := false }⟩
    Slot.Free value ∧ (b.assign "k".toList (.scalar value)).commit.pending =
      ["0".toList, "1".toList ++ value ++ "2".toList] := by
  intro value child b
  have hfree : Slot.Free value := by decide +kernel
  exact ⟨hfree, (@commit_assign_literal_iff "1".toList "2".toList "k".toList value
    (by decide) (by decide) (by decide)).mpr hfree b rfl rfl⟩

/-- A value with a slot is not rendered literally: nothing is left of it. -/
theorem commit_assign_slot :
    let b := Block.new [] "\x7bk\x7d".toList [] { collapseBlankLines := false }
    (b.assign "k".toList (.scalar "##x##".toList)).commit.pending = [[]] ∧
      ¬ ∀ value, (b.assign "k".toList (.scalar value)).commit.pending = [value] := by
  have hpending : ((Block.new [] "\x7bk\x7d".toList [] { collapseBlankLines := false }).assign
      "k".toList (.scalar "##x##".toList)).commit.pending = [[]] := by
    decide +kernel
  refine ⟨hpending, fun h => ?_⟩
  have hliteral := h "##x##".toList
  rw [hpending] at hliteral
  cases hliteral

end BlockTemplate.Block
