import BlockTemplate.Proofs.Level.Slices

/-!
The text between two tokens, read alone. Two tokens part the pieces of a text into those up to the
end of the first, those between them, and those from the second on. What stands between them is
cut into the same pieces when the text ends there: a marker that is broken off stays broken off,
and an inclusion that is not closed still reaches up to the same quotation mark.
-/
namespace BlockTemplate

open Text
open scoped List

/-- Where two tokens are located one behind the other, the pieces are parted at the end of the
first and at the start of the second. -/
theorem Piece.exists_between_of_sublist {m : Nat} {ps : List Piece} {x y : Token × Span}
    (h : [x, y] <+ locateFrom m ps) :
    ∃ front between back, ps = front ++ between ++ back ∧
      x.2.stop = m + byteSize (textOf front) ∧
      y.2.start = m + byteSize (textOf (front ++ between)) := by
  induction ps generalizing m with
  | nil => cases h
  | cons p ps ih =>
    -- Both tokens are behind the first piece, or the first of them is its token.
    have hcases : [x, y] <+ locateFrom (m + p.size) ps ∨
        x.2.stop = m + p.size ∧ y ∈ locateFrom (m + p.size) ps := by
      rw [locateFrom] at h
      split at h
      · cases h with
        | cons _ hrest => exact Or.inl hrest
        | cons_cons _ hrest => exact Or.inr ⟨rfl, List.singleton_sublist.mp hrest⟩
      · exact Or.inl h
    rcases hcases with hrest | ⟨hstop, hy⟩
    · obtain ⟨front, between, back, rfl, hstop, hstart⟩ := ih hrest
      refine ⟨p :: front, between, back, rfl, ?_, ?_⟩
      · rw [hstop, textOf_cons, byteSize_append, size, Nat.add_assoc]
      · rw [hstart, List.cons_append, textOf_cons, byteSize_append, size, Nat.add_assoc]
    · obtain ⟨q, hq, -⟩ := mem_locateFrom_iff.mp hy
      obtain ⟨between, back, rfl, hspan⟩ := exists_of_mem_placeFrom hq
      refine ⟨[p], between, q :: back, by simp, by simp [hstop, size], ?_⟩
      rw [hspan, List.singleton_append, textOf_cons, byteSize_append, size, Nat.add_assoc]

namespace Token

variable {t : Text}

/-- Between an opening marker and any later closing marker of a text there is a text, and its
tokens are those of the whole that stand within it, at the places they have there. -/
theorem ofText_between_markers {name name' : Text} {opening closing : Span}
    (h : [(.opening name, opening), (.closing name', closing)] <+ markers t) :
    ∃ body, slice? t ⟨opening.stop, closing.start⟩ = some body ∧
      (ofText body).map (moved opening.stop) =
        (ofText t).filter fun x => x.2.Within ⟨opening.stop, closing.start⟩ := by
  have hread := h.trans List.filter_sublist
  obtain ⟨front, between, back, hpieces, hstop, hstart⟩ := Piece.exists_between_of_sublist hread
  have hspan : (⟨opening.stop, closing.start⟩ : Span) = ⟨byteSize (Piece.textOf front),
      byteSize (Piece.textOf front) + byteSize (Piece.textOf between)⟩ := by
    rw [hstop, hstart, Piece.textOf_append, byteSize_append, Nat.zero_add, Nat.zero_add]
  -- The pieces between the markers are what their text is cut into when it is read alone.
  have halone : Piece.ofText (Piece.textOf between) = between :=
    (Piece.stretch_ofText t).of_isInfix ⟨front, back, hpieces.symm⟩
  have hwhole : Piece.ofText t = front ++ Piece.ofText (Piece.textOf between) ++ back := by
    rw [halone, hpieces]
  refine ⟨Piece.textOf between, slice?_eq_some_iff.mpr ?_, ?_⟩
  · refine ⟨Piece.textOf front, Piece.textOf back, ?_, hspan⟩
    rw [← Piece.textOf_append, ← Piece.textOf_append, ← hpieces, Piece.textOf_ofText]
  · rw [hspan, filter_within_ofText hwhole, (Span.mk.inj hspan).1]

/-- Two markers that are no pair. The text between them has a marker without an end, and it ends
with an inclusion that lacks its brace; alone and within the whole only the placeholder is read. -/
theorem ofText_between_markers_broken_markup :
    let t := "é<!--begin:a-->\x7bx\x7d<!--begin:b \x7bFILE \"q\"<!--end:c-->".toList
    let body := "\x7bx\x7d<!--begin:b \x7bFILE \"q\"".toList
    [(.opening "a".toList, ⟨2, 16⟩), (.closing "c".toList, ⟨40, 52⟩)] <+ markers t ∧
      slice? t ⟨16, 40⟩ = some body ∧
      (ofText body).map (moved 16) = [(.placeholder "x".toList, ⟨16, 19⟩)] := by
  intro t body
  have hmarkers : [(.opening "a".toList, ⟨2, 16⟩), (.closing "c".toList, ⟨40, 52⟩)] <+
      markers t := by
    decide +kernel
  obtain ⟨text, htext, htokens⟩ := ofText_between_markers hmarkers
  have hbody : slice? t ⟨16, 40⟩ = some body := by decide +kernel
  obtain rfl : body = text := Option.some.inj (hbody.symm.trans htext)
  have hwithin : ((ofText t).filter fun x => x.2.Within ⟨16, 40⟩) =
      [(.placeholder "x".toList, ⟨16, 19⟩)] := by
    decide +kernel
  exact ⟨hmarkers, hbody, htokens.trans hwithin⟩

end Token
end BlockTemplate
