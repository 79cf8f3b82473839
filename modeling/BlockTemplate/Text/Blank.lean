import BlockTemplate.Text.Basic

/-!
White space: the characters with the Unicode property `White_Space`.
-/
namespace BlockTemplate.Text

/-- The first and last code points of each stretch of white space. -/
def blankRanges : List (Nat × Nat) :=
  [(0x09, 0x0D), (0x20, 0x20), (0x85, 0x85), (0xA0, 0xA0), (0x1680, 0x1680), (0x2000, 0x200A),
   (0x2028, 0x2029), (0x202F, 0x202F), (0x205F, 0x205F), (0x3000, 0x3000)]

def isBlank (c : Char) : Bool :=
  blankRanges.any fun r => r.1 ≤ c.toNat && c.toNat ≤ r.2

/-- The text without the white space it starts with. -/
def trimStart (t : Text) : Text := t.dropWhile isBlank

end BlockTemplate.Text
