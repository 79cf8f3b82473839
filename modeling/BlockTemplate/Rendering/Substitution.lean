import BlockTemplate.Settings.Basic

/-!
Values put in the place of placeholders, in one pass from left to right. What stands between an
opening brace and the next closing brace is a key; if it has no value, reading goes on right
after the opening brace. A value is never read for placeholders itself.
-/
namespace BlockTemplate

open Text

def substitute (value? : Text → Option Text) (unbound : Unbound) (t : Text) : Text :=
  match h : cut? ['\x7b'] t with
  | none => t
  | some (before, after) =>
    have : after.length < t.length := length_lt_of_cut? (List.cons_ne_nil _ _) h
    match hkey : cut? ['\x7d'] after with
    | none => t
    | some (key, rest) =>
      have : rest.length < after.length := length_lt_of_cut? (List.cons_ne_nil _ _) hkey
      match value? key with
      | some value => before ++ value ++ substitute value? unbound rest
      | none =>
        if unbound = .blank ∧ Token.isVariableName key then
          before ++ substitute value? unbound rest
        else before ++ '\x7b' :: substitute value? unbound after
termination_by t.length

end BlockTemplate
