import BlockTemplate.Text.Basic

/-!
Readers take what they read from the start of a text. A reader that fails takes nothing, so that
another one can be tried in its place.
-/
namespace BlockTemplate.Toml

abbrev Reader := StateT Text Option

namespace Reader

variable {α : Type}

def char (p : Char → Bool) : Reader Char
  | [] => none
  | c :: t => if p c then some (c, t) else none

def exactly (word : Text) : Reader Unit := fun t => (Text.after? word t).map ((), ·)

/-- All characters up to the first one that is not of the kind. -/
def run (p : Char → Bool) : Reader Text := fun t => some (t.takeWhile p, t.dropWhile p)

def run1 (p : Char → Bool) : Reader Text := do
  let taken ← run p
  if taken.isEmpty then failure else pure taken

def count (n : Nat) (p : Char → Bool) : Reader Text := fun t =>
  if (t.take n).length = n ∧ (t.take n).all p then some (t.take n, t.drop n) else none

def maybe (r : Reader α) : Reader (Option α) := (some <$> r) <|> pure none

def atEnd : Reader Unit
  | [] => some ((), [])
  | _ :: _ => none

def manyUpTo (r : Reader α) : Nat → Reader (List α)
  | 0 => pure []
  | n + 1 => (do return (← r) :: (← manyUpTo r n)) <|> pure []

/-- As often as possible, for a reader that takes at least one character. -/
def many (r : Reader α) : Reader (List α) := do manyUpTo r (← get).length

/-- One or more, with a separator between them. -/
def separated (r : Reader α) (sep : Reader Unit) : Reader (List α) := do
  let first ← r
  let rest ← many (do sep; r)
  return first :: rest

end Reader
end BlockTemplate.Toml
