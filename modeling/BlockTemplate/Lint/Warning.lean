import BlockTemplate.Path
import BlockTemplate.Span

/-!
What a check of a template's markup can find.
-/
namespace BlockTemplate

inductive Finding
  | unterminated (name : Text)
  | strayEnd (name : Text)
  | duplicate (name : Text)
  | missingInclusion (path : Text) (lookedAt : Path)
deriving DecidableEq, Repr

namespace Finding

def category : Finding → Text
  | unterminated _ => "unterminated".toList
  | strayEnd _ => "stray-end".toList
  | duplicate _ => "duplicate".toList
  | missingInclusion .. => "missing-include".toList

def message : Finding → Text
  | unterminated name =>
    "block '".toList ++ name ++ "' has no matching end marker, rendered as text".toList
  | strayEnd name =>
    "end marker for '".toList ++ name ++ "' closes no block, rendered as text".toList
  | duplicate name =>
    "block '".toList ++ name ++
      "' is defined more than once at this level, the last definition wins".toList
  | missingInclusion path lookedAt =>
    "include '".toList ++ path ++ "' not found (looked at ".toList ++ lookedAt.text ++
      "), token is left in the output".toList

end Finding

/-- A finding and where it stands in the text. -/
structure Warning where
  finding : Finding
  span : Span
deriving DecidableEq, Repr

namespace Warning

/-- Puts a warning before the first one that starts no earlier. -/
def insert (w : Warning) : List Warning → List Warning
  | [] => [w]
  | v :: vs => if w.span.start ≤ v.span.start then w :: v :: vs else v :: insert w vs

/-- The warnings by the places where they start. Those that start together keep their order. -/
def sort : List Warning → List Warning
  | [] => []
  | w :: ws => insert w (sort ws)

end Warning
end BlockTemplate
