import BlockTemplate.Markup.Token
import BlockTemplate.Span

/-!
A text cut into pieces: tokens, and plain text between them. The pieces put together are the
text, so that spans are found by adding up sizes.
-/
namespace BlockTemplate

/-- A token with the text it was read from, or plain text. -/
structure Piece where
  token : Option Token
  text : Text
deriving DecidableEq, Repr

namespace Piece

open Text

def size (p : Piece) : Nat := p.text.byteSize

/-- The text of all pieces together. -/
def textOf (ps : List Piece) : Text := ps.flatMap text

def startsToken (c : Char) : Bool := c == '<' || c == '{'

/-- The number of characters to take as plain text from one that starts with no token. An
inclusion that is not closed properly reaches up to the next quotation mark. -/
def plainLength (t : Text) : Nat :=
  match after? Token.inclusionStart t with
  | some rest => Token.inclusionStart.length + (rest.takeWhile (· != '"')).length + 1
  | none =>
    match t with
    | [] => 0
    | c :: rest => if startsToken c then 1 else 1 + (rest.takeWhile (!startsToken ·)).length

/-- The token at the start of the text, if there is one, and the length of the first piece. -/
def first (t : Text) : Option Token × Nat :=
  match Token.at? t with
  | some (token, n) => (some token, n)
  | none => (none, plainLength t)

theorem first_pos (c : Char) (t : Text) : 0 < (first (c :: t)).2 := by
  unfold first
  split
  · next h => exact Token.pos_of_at? h
  · unfold plainLength
    split
    · omega
    · dsimp only
      split <;> omega

/-- The pieces of a text, from left to right. -/
def ofText : Text → List Piece
  | [] => []
  | c :: t =>
    have := first_pos c t
    ⟨(first (c :: t)).1, (c :: t).take (first (c :: t)).2⟩ ::
      ofText ((c :: t).drop (first (c :: t)).2)
termination_by t => t.length
decreasing_by simp only [List.length_drop, List.length_cons]; omega

/-- The pieces put together are the text. -/
theorem textOf_ofText (t : Text) : textOf (ofText t) = t := by
  fun_induction ofText t with
  | case1 => rfl
  | case2 c t _ ih =>
    simp only [textOf, List.flatMap_cons] at ih ⊢
    rw [ih, List.take_append_drop]

/-- The tokens among the pieces with their spans, where the first piece starts at byte `m`. -/
def locateFrom (m : Nat) : List Piece → List (Token × Span)
  | [] => []
  | p :: ps =>
    match p.token with
    | some token => (token, ⟨m, m + p.size⟩) :: locateFrom (m + p.size) ps
    | none => locateFrom (m + p.size) ps

end Piece

namespace Token

/-- The tokens of a text with their spans, from left to right. -/
def ofText (t : Text) : List (Token × Span) := Piece.locateFrom 0 (Piece.ofText t)

def markers (t : Text) : List (Token × Span) := (ofText t).filter (·.1.markerName?.isSome)

def inclusions (t : Text) : List (Text × Span) :=
  (ofText t).filterMap fun ts => ts.1.path?.map (·, ts.2)

def placeholders (t : Text) : List (Text × Span) :=
  (ofText t).filterMap fun ts => ts.1.variableName?.map (·, ts.2)

end Token
end BlockTemplate
