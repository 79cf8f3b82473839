import BlockTemplate.Proofs.Markup.Position

/-!
Texts put in the place of tokens. Where the tokens of a text stand is known by their spans; putting
a text in the place of each span gives the same as putting it in the place of each token, piece by
piece, and all that stands between the spans is left as it is.
-/
namespace BlockTemplate

namespace Text

/-- The characters in the first `n` bytes. -/
def takeBytes (n : Nat) : Text → Text
  | [] => []
  | c :: t => if n = 0 then [] else c :: takeBytes (n - c.utf8Size) t

/-- The characters behind the first `n` bytes. -/
def dropBytes (n : Nat) : Text → Text
  | [] => []
  | c :: t => if n = 0 then c :: t else dropBytes (n - c.utf8Size) t

theorem takeBytes_append (s t : Text) : takeBytes (byteSize s) (s ++ t) = s := by
  induction s with
  | nil => cases t <;> simp [takeBytes]
  | cons c s ih =>
    have hpos : byteSize (c :: s) ≠ 0 := (byteSize_pos (List.cons_ne_nil c s)).ne'
    rw [List.cons_append, takeBytes, if_neg hpos, byteSize_cons, Nat.add_sub_cancel_left, ih]

theorem dropBytes_append (s t : Text) : dropBytes (byteSize s) (s ++ t) = t := by
  induction s with
  | nil => cases t <;> simp [dropBytes]
  | cons c s ih =>
    have hpos : byteSize (c :: s) ≠ 0 := (byteSize_pos (List.cons_ne_nil c s)).ne'
    rw [List.cons_append, dropBytes, if_neg hpos, byteSize_cons, Nat.add_sub_cancel_left, ih]

/-- A text that starts at byte `m`, with a text in the place of each of the spans. The spans stand
one behind the other. -/
def spliceFrom (m : Nat) (t : Text) : List (Span × Text) → Text
  | [] => t
  | (span, shown) :: rest =>
    takeBytes (span.start - m) t ++ shown ++ spliceFrom span.stop (dropBytes (span.stop - m) t) rest

def splice (t : Text) (spans : List (Span × Text)) : Text := spliceFrom 0 t spans

end Text

open Text

/-- Text before the pieces stays, and each token with a text to be shown gives way to it. -/
theorem Piece.spliceFrom_locateFrom (shown? : Token → Option Text) (m : Nat) (t : Text)
    (ps : List Piece) :
    spliceFrom m (t ++ textOf ps) ((locateFrom (m + byteSize t) ps).filterMap fun x =>
        (shown? x.1).map (x.2, ·)) =
      t ++ ps.flatMap fun p => (p.token.bind shown?).getD p.text := by
  induction ps generalizing m t with
  | nil => simp [locateFrom, spliceFrom]
  | cons p ps ih =>
    have hkept : spliceFrom m (t ++ textOf (p :: ps)) ((locateFrom (m + byteSize t + p.size)
        ps).filterMap fun x => (shown? x.1).map (x.2, ·)) =
        t ++ (p.text ++ ps.flatMap fun p => (p.token.bind shown?).getD p.text) := by
      have h := ih m (t ++ p.text)
      rwa [byteSize_append, ← Nat.add_assoc, List.append_assoc, List.append_assoc, ← textOf_cons]
        at h
    rw [locateFrom, List.flatMap_cons]
    cases htoken : p.token with
    | none => exact hkept
    | some token =>
      cases hshown : shown? token with
      | none =>
        simp only [List.filterMap_cons, hshown, Option.map_none, Option.bind_some, Option.getD_none]
        exact hkept
      | some u =>
        have hrest := ih (m + byteSize t + p.size) []
        have hstop : m + byteSize t + p.size - m = byteSize (t ++ p.text) := by
          rw [byteSize_append, size]
          omega
        have hdrop : dropBytes (m + byteSize t + p.size - m) (t ++ textOf (p :: ps)) =
            textOf ps := by
          rw [hstop, textOf_cons, ← List.append_assoc, dropBytes_append]
        simp only [byteSize_nil, Nat.add_zero, List.nil_append] at hrest
        simp only [List.filterMap_cons, hshown, Option.map_some, Option.bind_some, Option.getD_some,
          spliceFrom, hdrop, hrest, Nat.add_sub_cancel_left, takeBytes_append, List.append_assoc]

/-- Putting texts in the place of tokens by their spans is putting them there piece by piece. -/
theorem Token.splice_ofText (shown? : Token → Option Text) (t : Text) :
    splice t ((Token.ofText t).filterMap fun x => (shown? x.1).map (x.2, ·)) =
      (Piece.ofText t).flatMap fun p => (p.token.bind shown?).getD p.text := by
  have h := Piece.spliceFrom_locateFrom shown? 0 [] (Piece.ofText t)
  rwa [Piece.textOf_ofText, byteSize_nil, Nat.add_zero, List.nil_append, List.nil_append] at h

end BlockTemplate
