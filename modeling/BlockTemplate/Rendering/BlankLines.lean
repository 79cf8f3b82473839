import BlockTemplate.Text.Blank

/-!
Blank lines taken out of a text. A line end, white space and another line end become one line
end; two line ends with nothing between them stay.
-/
namespace BlockTemplate.Text

/-- What follows the last line end in the white space that starts the text. -/
def afterLastBreak? : Text → Option Text
  | [] => none
  | c :: t =>
    if isBlank c then (afterLastBreak? t).or (if c = '\n' then some t else none) else none

/-- What follows the longest white space that starts the text, is no single character and ends
with a line end; the whole text if there is none. -/
def afterBlankLines : Text → Text
  | [] => []
  | c :: t => if isBlank c then (afterLastBreak? t).getD (c :: t) else c :: t

theorem length_of_afterLastBreak? {t r : Text} (h : afterLastBreak? t = some r) :
    r.length < t.length := by
  induction t with
  | nil => cases h
  | cons c t ih =>
    simp only [afterLastBreak?, Option.ite_none_right_eq_some, Option.or_eq_some_iff] at h
    obtain ⟨_, h | ⟨_, _, h⟩⟩ := h
    · exact Nat.lt_succ_of_lt (ih h)
    · obtain rfl := Option.some.inj h
      exact Nat.lt_succ_self _

theorem length_afterBlankLines (t : Text) : (afterBlankLines t).length ≤ t.length := by
  cases t with
  | nil => exact Nat.le_refl _
  | cons c t =>
    simp only [afterBlankLines]
    split
    · cases h : afterLastBreak? t with
      | none => exact Nat.le_refl _
      | some r => exact Nat.le_succ_of_le (Nat.le_of_lt (length_of_afterLastBreak? h))
    · exact Nat.le_refl _

def collapse (t : Text) : Text :=
  match h : cut? ['\n'] t with
  | none => t
  | some (line, rest) =>
    have := length_lt_of_cut? (List.cons_ne_nil _ _) h
    have := length_afterBlankLines rest
    line ++ '\n' :: collapse (afterBlankLines rest)
termination_by t.length

end BlockTemplate.Text
