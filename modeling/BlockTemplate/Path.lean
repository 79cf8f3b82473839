import BlockTemplate.Text.Basic

/-!
Paths as texts whose components are parted by slashes. Nothing is normalised: a path keeps the
spelling it was written with, and `join` and `parent?` work on that spelling.
-/
namespace BlockTemplate

structure Path where
  text : Text
deriving DecidableEq, Repr

namespace Path

def isAbsolute (p : Path) : Bool := ['/'].isPrefixOf p.text

/-- `p` below `base`. An absolute `p` takes the place of `base`. -/
def join (base p : Path) : Path :=
  if p.isAbsolute then p
  else if base.text.isEmpty || base.text.getLast? == some '/' then ⟨base.text ++ p.text⟩
  else ⟨base.text ++ '/' :: p.text⟩

/-- What stands between the slashes after the root, from the last to the first. -/
def reversedSteps (p : Path) : List Text :=
  (if p.isAbsolute then p.text.drop 1 else p.text).splitOn '/' |>.reverse

/-- Drops steps that lead nowhere: empty ones and single dots, except a dot that starts a
relative path. -/
def dropIdle (rooted : Bool) : List Text → List Text
  | [] => []
  | step :: above =>
    if step.isEmpty || (step == ['.'] && (rooted || !above.isEmpty)) then dropIdle rooted above
    else step :: above

/-- The path without its last component, if it has one. -/
def parent? (p : Path) : Option Path :=
  match dropIdle p.isAbsolute p.reversedSteps with
  | [] => none
  | _ :: above =>
    let kept := Text.join ['/'] (dropIdle p.isAbsolute above).reverse
    some ⟨if p.isAbsolute then '/' :: kept else kept⟩

end Path
end BlockTemplate
