import BlockTemplate.Text.Basic

/-!
The slot of a child block in the template of its parent is the child's name between two double
number signs. Slots that are left over after filling are taken out, each within its line.
-/
namespace BlockTemplate.Slot

open Text

def sign : Text := "##".toList

def ofName (name : Text) : Text := sign ++ name ++ sign

theorem sign_ne_nil : sign ≠ [] := by decide

/-- A line without its slots, taken from the left. A last sign that closes nothing stays. -/
def clearLine (line : Text) : Text :=
  match hopen : cut? sign line with
  | none => line
  | some (before, after) =>
    have := length_lt_of_cut? sign_ne_nil hopen
    match hclose : cut? sign after with
    | none => line
    | some (_, rest) =>
      have := length_lt_of_cut? sign_ne_nil hclose
      before ++ clearLine rest
termination_by line.length

/-- The text without the slots that stand in it. -/
def clear (t : Text) : Text := unlines ((lines t).map clearLine)

end BlockTemplate.Slot
