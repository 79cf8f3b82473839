import BlockTemplate.Level

/-!
What a user may choose about reading and rendering templates.
-/
namespace BlockTemplate

/-- What becomes of a placeholder that has no value: it stays, or it is left out. -/
inductive Unbound
  | keep
  | blank
deriving DecidableEq, Repr

/-- The choices that rendering follows. -/
structure Style where
  collapseBlankLines : Bool := true
  unbound : Unbound := .keep
deriving DecidableEq, Repr

structure Settings where
  style : Style := {}
  matchMode : MatchMode := .greedy
  /-- Texts of more bytes than this are reported as large. -/
  largeSize : Nat := 7000
deriving DecidableEq, Repr

/-- Blocks that are nested deeper keep their body as text. -/
def maxDepth : Nat := 128

end BlockTemplate
