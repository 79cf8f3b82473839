/-!
A stretch of a text, given by the byte offsets where it starts and stops.
-/
namespace BlockTemplate

structure Span where
  start : Nat
  stop : Nat
deriving DecidableEq, Repr

namespace Span

/-- The same stretch seen from `n` bytes further to the left. -/
def shift (n : Nat) (s : Span) : Span := ⟨s.start + n, s.stop + n⟩

end Span
end BlockTemplate
