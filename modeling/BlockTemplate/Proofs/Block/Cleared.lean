import BlockTemplate.Block.Snapshot
import BlockTemplate.Proofs.Rendering.Clearing
import BlockTemplate.Proofs.Rendering.Collapsing

/-!
Snapshots are clean, whatever the block has for a template, children and bound texts. Taking the
slots out of a line brings no number signs together that stand for another slot, and taking out
blank lines joins no two lines. So either step, taken once more, would change nothing.
-/
namespace BlockTemplate

open Text

namespace Slot

/-- No slot stands within a line of the text, whatever its name. -/
def Cleared (t : Text) : Prop := ∀ name, '\n' ∉ name → ¬ ofName name <:+: t

theorem cleared_iff {t : Text} : Cleared t ↔ ∀ l ∈ lines t, Free l := by
  constructor
  · intro h l hl name hslot
    obtain ⟨hbreak, hwithin⟩ := infix_of_mem_lines hl
    have hname : '\n' ∉ name := fun hc => hbreak (hslot.subset (by simp [ofName, hc]))
    exact h name hname (hslot.trans hwithin)
  · intro h name hname hslot
    have hbreak : '\n' ∉ ofName name := by simpa [ofName, sign_eq] using hname
    obtain ⟨l, hl, hinfix⟩ := (infix_iff_exists_line hbreak t).mp hslot
    exact h l hl name hinfix

/-- Before the first sign no sign stands, and none begins there either. -/
theorem notInfix_of_cut? {line before after : Text} (h : cut? sign line = some (before, after)) :
    ¬ sign <:+: before ++ ['#'] := by
  rintro ⟨x, y, hxy⟩
  obtain ⟨hline, hfirst⟩ := cut?_eq_some_iff.mp h
  have hearlier : line = x ++ sign ++ (y ++ '#' :: after) := by
    calc line = (before ++ ['#']) ++ '#' :: after := by rw [hline, sign_eq]; simp
      _ = x ++ sign ++ (y ++ '#' :: after) := by rw [← hxy]; simp
  have hle := hfirst _ _ hearlier
  have hlength := congrArg List.length hxy
  simp only [List.length_append, List.length_cons, List.length_nil, sign_eq] at hlength
  omega

/-- A text that is free of slots stays so behind what stands before the first sign. -/
theorem Free.append {before t : Text} (ht : Free t) (hbefore : ¬ sign <:+: before ++ ['#']) :
    Free (before ++ t) := by
  intro name hslot
  have hsign : sign <:+: ofName name := ⟨[], name ++ sign, by simp [ofName]⟩
  rcases List.infix_append_iff_ne_nil.mp hslot with h | h | ⟨l, r, hl, -, hname, hsuffix, -⟩
  · exact hbefore ((hsign.trans h).trans (List.infix_append [] before ['#']))
  · exact ht name h
  · -- The part of the slot that stands before `t` is one number sign, or starts with two.
    obtain ⟨x, rfl⟩ := hsuffix
    have hstart : sign <+: l ++ ['#'] := by
      rw [ofName_eq_cons] at hname
      obtain ⟨c, l, rfl⟩ := List.exists_cons_of_ne_nil hl
      obtain ⟨rfl, hrest⟩ := List.cons.inj hname
      cases l with
      | nil => exact List.prefix_rfl
      | cons d l =>
        obtain ⟨rfl, -⟩ := List.cons.inj hrest
        exact ⟨l ++ ['#'], rfl⟩
    rw [List.append_assoc] at hbefore
    exact hbefore (hstart.isInfix.trans (List.suffix_append x _).isInfix)

theorem free_clearLine (line : Text) : Free (clearLine line) := by
  induction hn : line.length using Nat.strong_induction_on generalizing line with
  | h n ih =>
    rcases clearLine_cases line with ⟨before, after, inner, rest, hopen, hclose, heq⟩ | ⟨hnone, heq⟩
    · have hlt : rest.length < n := by
        have hafter := length_lt_of_cut? sign_ne_nil hopen
        have hrest := length_lt_of_cut? sign_ne_nil hclose
        omega
      rw [heq]
      exact (ih _ hlt rest rfl).append (notInfix_of_cut? hopen)
    · rw [heq, free_iff]
      cases hopen : cut? sign line with
      | none => rfl
      | some ab => exact hnone _ _ hopen

theorem lines_clear (t : Text) : lines (clear t) = (lines t).map clearLine := by
  have hline : ∀ {l : Text}, '\n' ∉ l → '\n' ∉ clearLine l :=
    fun hl h => hl (mem_of_mem_clearLine h)
  induction t using lineInduction with
  | line l hl => rw [clear_of_notMem hl, lines_of_notMem hl, lines_of_notMem (hline hl)]; rfl
  | append l t hl ih => rw [clear_append hl, lines_append (hline hl), ih, lines_append hl]; rfl

theorem cleared_clear (t : Text) : Cleared (clear t) := by
  rw [cleared_iff, lines_clear]
  rintro l hl
  obtain ⟨line, -, rfl⟩ := List.mem_map.mp hl
  exact free_clearLine line

/-- Clearing leaves a text alone if no slot stands within a line, and only then. -/
theorem cleared_iff_clear_eq {t : Text} : Cleared t ↔ clear t = t := by
  constructor
  · intro h
    have hmap : (lines t).map clearLine = (lines t).map id :=
      List.map_inj_left.mpr fun l hl => clearLine_of_free (cleared_iff.mp h l hl)
    rw [clear, hmap, List.map_id, unlines_lines]
  · intro h
    rw [← h]
    exact cleared_clear t

/-- No slot comes up where blank lines are taken out. -/
theorem Cleared.collapse {t : Text} (h : Cleared t) : Cleared (collapse t) := by
  rw [cleared_iff] at h ⊢
  exact fun l hl => h l ((lines_collapse t).1.subset hl)

end Slot

namespace Block

theorem cleared_snapshot (b : Block) : Slot.Cleared b.snapshot := by
  rw [snapshot]
  split
  · exact (Slot.cleared_clear _).collapse
  · exact Slot.cleared_clear _

theorem withoutBlankLines_snapshot {b : Block} (h : b.style.collapseBlankLines = true) :
    WithoutBlankLines b.snapshot := by
  rw [snapshot, if_pos h, withoutBlankLines_iff]
  exact collapse_collapse _

/-- What a commit adds has no slot within a line and, if blank lines are collapsed, no blank lines;
either step of cleaning up would leave it as it is. -/
theorem commit_clean (b : Block) : ∃ added, b.commit.pending = b.pending ++ [added] ∧
    Slot.Cleared added ∧ Slot.clear added = added ∧
    (b.style.collapseBlankLines = true → WithoutBlankLines added ∧ collapse added = added) := by
  refine ⟨b.snapshot, rfl, b.cleared_snapshot,
    Slot.cleared_iff_clear_eq.mp b.cleared_snapshot, fun h => ?_⟩
  have hlines := withoutBlankLines_snapshot h
  exact ⟨hlines, withoutBlankLines_iff.mp hlines⟩

/-- Signs that come from a value, a child and the template, and blank lines that come from a value
and the template. -/
theorem commit_clean_signs :
    let child : Block := ⟨"r".toList, [], [], [], ["#".toList], {}⟩
    let b : Block := ⟨[], "#\x7bk\x7d##r###b##\n \n\x7bk\x7d\n#\x7bj\x7d#".toList, [child],
      [("k".toList, "##".toList), ("j".toList, "\n \n\t".toList)], ["0".toList], {}⟩
    let added := "#b##\n##\n#\n\t#".toList
    b.style.collapseBlankLines = true ∧ b.commit.pending = ["0".toList, added] ∧
      Slot.Cleared added ∧ WithoutBlankLines added := by
  intro child b added
  have hadded : b.commit.pending = ["0".toList, added] := by decide +kernel
  obtain ⟨t, hpending, hcleared, -, hlines⟩ := commit_clean b
  have ht : added = t := by
    rw [hadded] at hpending
    exact (List.cons.inj (List.cons.inj hpending).2).1
  rw [← ht] at hcleared hlines
  exact ⟨rfl, hadded, hcleared, (hlines rfl).1⟩

end Block
end BlockTemplate
