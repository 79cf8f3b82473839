import BlockTemplate.Text.Hidden

/-!
Text between quotation marks, with a backslash before what would end it or would not show.
-/
namespace BlockTemplate.Text

def escapeChar (c : Char) : Text :=
  match c with
  | '\x00' => ['\\', '0']
  | '\t' => ['\\', 't']
  | '\r' => ['\\', 'r']
  | '\n' => ['\\', 'n']
  | '"' => ['\\', '"']
  | '\\' => ['\\', '\\']
  | c =>
    if isHidden c then "\\u\x7b".toList ++ Nat.toDigits 16 c.toNat ++ ['\x7d'] else [c]

def quoted (t : Text) : Text := '"' :: t.flatMap escapeChar ++ ['"']

end BlockTemplate.Text
