import BlockTemplate.Text.Basic
import Mathlib.Data.Nat.Init

/-!
Texts by their lines. A text is its lines with line ends between them, so that what has no line
end in it stands in a text just if it stands in one of the lines.
-/
namespace BlockTemplate.Text

/-- A text is a single line, or a line with a line end and a text behind it. -/
@[elab_as_elim]
theorem lineInduction {motive : Text → Prop} (line : ∀ l, '\n' ∉ l → motive l)
    (append : ∀ l t, '\n' ∉ l → motive t → motive (l ++ '\n' :: t)) (t : Text) : motive t := by
  induction hn : t.length using Nat.strong_induction_on generalizing t with
  | h n ih =>
    by_cases h : '\n' ∈ t
    · obtain ⟨l, rest, rfl, hl⟩ := List.eq_append_cons_of_mem h
      refine append l rest hl (ih rest.length ?_ rest rfl)
      simp only [List.length_append, List.length_cons] at hn
      omega
    · exact line t h

theorem lines_of_notMem {l : Text} (hl : '\n' ∉ l) : lines l = [l] :=
  List.splitOn_eq_singleton hl

theorem lines_append {l : Text} (hl : '\n' ∉ l) (t : Text) :
    lines (l ++ '\n' :: t) = l :: lines t :=
  List.splitOn_append_cons_self_of_not_mem hl t

/-- A line end parts the lines before it from the lines behind it. -/
theorem lines_append_break (s t : Text) : lines (s ++ '\n' :: t) = lines s ++ lines t :=
  List.splitOn_append_cons_self s t

theorem unlines_lines (t : Text) : unlines (lines t) = t := List.intercalate_splitOn '\n'

theorem infix_of_mem_lines {t l : Text} (h : l ∈ lines t) : '\n' ∉ l ∧ l <:+: t := by
  induction t using lineInduction with
  | line l' hl' =>
    rw [lines_of_notMem hl', List.mem_singleton] at h
    subst h
    exact ⟨hl', List.infix_rfl⟩
  | append l' t hl' ih =>
    rw [lines_append hl', List.mem_cons] at h
    rcases h with rfl | h
    · exact ⟨hl', List.infix_append [] l _⟩
    · obtain ⟨hl, hwithin⟩ := ih h
      exact ⟨hl, hwithin.trans ⟨l' ++ ['\n'], [], by simp⟩⟩

theorem eq_nil_of_prefix_cons {c : Char} {p t : Text} (hp : c ∉ p) (h : p <+: c :: t) : p = [] := by
  rcases List.prefix_cons_iff.mp h with hnil | ⟨rest, rfl, -⟩
  · exact hnil
  · simp at hp

theorem infix_append_cons_of_notMem {c : Char} {p s t : Text} (hp : c ∉ p) :
    p <:+: s ++ c :: t ↔ p <:+: s ∨ p <:+: t := by
  constructor
  · intro h
    rcases List.infix_append_iff.mp h with hs | ht | ⟨l, r, rfl, hl, hr⟩
    · exact Or.inl hs
    · rcases List.infix_cons_iff.mp ht with hpre | ht
      · exact Or.inr (eq_nil_of_prefix_cons hp hpre ▸ List.nil_infix)
      · exact Or.inr ht
    · have hnil : r = [] := eq_nil_of_prefix_cons (fun hc => hp (by simp [hc])) hr
      rw [hnil, List.append_nil]
      exact Or.inl hl.isInfix
  · rintro (h | h)
    · exact h.trans (List.infix_append [] s _)
    · exact h.trans ⟨s ++ [c], [], by simp⟩

/-- What has no line end in it stands in one of the lines. -/
theorem infix_iff_exists_line {p : Text} (hp : '\n' ∉ p) (t : Text) :
    p <:+: t ↔ ∃ l ∈ lines t, p <:+: l := by
  induction t using lineInduction with
  | line l hl => simp [lines_of_notMem hl]
  | append l t hl ih =>
    rw [infix_append_cons_of_notMem hp, ih, lines_append hl]
    simp

end BlockTemplate.Text
