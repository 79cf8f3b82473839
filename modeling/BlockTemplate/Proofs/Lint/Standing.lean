import BlockTemplate.Lint.Check
import BlockTemplate.Proofs.Level.Markers

/-!
The places of warnings. The bytes of a warning about a marker or an inclusion are those of the
token in the whole source, and a name that is used again is warned about by the bytes of its
region, from the opening to the closing marker. Spans are found by adding up where the texts of
the levels start, so that a text is looked at with what stands before it and after it.
-/
namespace BlockTemplate

open Text

namespace Warning

theorem insert_perm (w : Warning) (ws : List Warning) : (insert w ws).Perm (w :: ws) := by
  induction ws with
  | nil => rfl
  | cons v vs ih =>
    unfold insert
    split
    · rfl
    · exact (ih.cons v).trans (List.Perm.swap w v vs)

/-- Sorting neither loses a warning nor adds one. -/
theorem sort_perm (ws : List Warning) : (sort ws).Perm ws := by
  induction ws with
  | nil => rfl
  | cons w ws ih => exact (insert_perm w (sort ws)).trans (ih.cons w)

theorem pairwise_insert (w : Warning) {ws : List Warning}
    (h : ws.Pairwise fun u v => u.span.start ≤ v.span.start) :
    (insert w ws).Pairwise fun u v => u.span.start ≤ v.span.start := by
  induction ws with
  | nil => exact List.pairwise_singleton _ w
  | cons v vs ih =>
    obtain ⟨hv, hvs⟩ := List.pairwise_cons.mp h
    by_cases hle : w.span.start ≤ v.span.start
    · rw [insert, if_pos hle]
      refine List.pairwise_cons.mpr ⟨fun u hu => ?_, h⟩
      rcases List.mem_cons.mp hu with rfl | hu
      · exact hle
      · exact Nat.le_trans hle (hv u hu)
    · rw [insert, if_neg hle]
      refine List.pairwise_cons.mpr ⟨fun u hu => ?_, ih hvs⟩
      rcases List.mem_cons.mp ((insert_perm w vs).mem_iff.mp hu) with rfl | hu
      · omega
      · exact hv u hu

theorem pairwise_sort (ws : List Warning) :
    (sort ws).Pairwise fun u v => u.span.start ≤ v.span.start := by
  induction ws with
  | nil => exact List.Pairwise.nil
  | cons w ws ih => exact pairwise_insert w ih

end Warning

/-- What the warning is about stands in the text at the span of the warning. -/
def Warning.Stands (t : Text) (w : Warning) : Prop :=
  match w.finding with
  | .unterminated name => ∃ u, Token.Written (.opening name) u ∧ w.span.Holds t u
  | .strayEnd name => ∃ u, Token.Written (.closing name) u ∧ w.span.Holds t u
  | .duplicate name => ∃ u v body other, Token.Written (.opening name) u ∧
      Token.Written (.closing other) v ∧ sameFolded other name ∧ w.span.Holds t (u ++ body ++ v)
  | .missingInclusion path _ => ∃ u, Token.Written (.inclusion path) u ∧ w.span.Holds t u

namespace Lint

theorem mem_inRegions {inBody : Nat → Text → List Warning} {m : Nat} {seen : List Text}
    {regions : List (Region × Span)} {w : Warning} (h : w ∈ inRegions inBody m seen regions) :
    ∃ r span, (r, span) ∈ regions ∧ (w = ⟨.duplicate r.name, span.shift m⟩ ∨
      w ∈ inBody (m + (r.bodySpan span.start).start) r.bodyText) := by
  induction regions generalizing seen with
  | nil => cases h
  | cons first rest ih =>
    obtain ⟨r, span⟩ := first
    simp only [inRegions, List.mem_append] at h
    rcases h with (h | h) | h
    · split at h
      · exact ⟨r, span, List.mem_cons_self, Or.inl (List.mem_singleton.mp h)⟩
      · cases h
    · exact ⟨r, span, List.mem_cons_self, Or.inr h⟩
    · obtain ⟨r', span', hmem, hw⟩ := ih h
      exact ⟨r', span', List.mem_cons_of_mem _ hmem, hw⟩

/-- The body of a region with the text before and after it, by the place where it starts. -/
theorem exists_around_bodyText {mode : MatchMode} {t : Text} {r : Region} {span : Span}
    (h : (r, span) ∈ Level.regions (Level.ofText mode t)) (before after : Text) :
    ∃ before' after', before ++ t ++ after = before' ++ r.bodyText ++ after' ∧
      byteSize before' = byteSize before + (r.bodySpan span.start).start := by
  obtain ⟨a, b, ht, rfl⟩ := Level.holds_of_mem_locate (Level.mem_locate_of_mem_regions h)
  refine ⟨before ++ a ++ r.opening.text, r.closing.text ++ b ++ after, ?_, ?_⟩
  · rw [ht]
    simp [Part.text, Region.text]
  · simp [Region.bodySpan, Piece.size, Nat.add_assoc]

theorem stands_of_mem_inLevels {mode : MatchMode} {levels : Nat} {before t after : Text}
    {w : Warning} (h : w ∈ inLevels mode levels (byteSize before) t) :
    w.Stands (before ++ t ++ after) := by
  induction levels generalizing before t after with
  | zero => cases h
  | succ levels ih =>
    simp only [inLevels, List.mem_append] at h
    rcases h with (h | h) | h
    · obtain ⟨⟨name, span⟩, hmem, rfl⟩ := List.mem_map.mp h
      obtain ⟨u, hu, hholds⟩ := Level.holds_of_mem_unterminated hmem
      exact ⟨u, hu, hholds.shift before after⟩
    · obtain ⟨⟨name, span⟩, hmem, rfl⟩ := List.mem_map.mp h
      obtain ⟨u, hu, hholds⟩ := Level.holds_of_mem_strayEnds hmem
      exact ⟨u, hu, hholds.shift before after⟩
    · obtain ⟨r, span, hmem, rfl | h⟩ := mem_inRegions h
      · obtain ⟨u, v, other, hu, hv, hother, hholds⟩ := Level.holds_of_mem_regions hmem
        exact ⟨u, v, r.bodyText, other, hu, hv, hother, hholds.shift before after⟩
      · obtain ⟨before', after', htext, hsize⟩ := exists_around_bodyText hmem before after
        rw [htext]
        exact ih (hsize ▸ h)

theorem exists_of_mem_missing {files : Files} {origin : Origin} {t : Text} {w : Warning}
    (h : w ∈ missing files origin t) : ∃ path span, (path, span) ∈ Token.inclusions t ∧
      origin.read? files path = none ∧ w = ⟨.missingInclusion path (origin.locate path), span⟩ := by
  obtain ⟨⟨path, span⟩, hmem, hw⟩ := List.mem_filterMap.mp h
  dsimp only at hw
  split at hw
  · cases hw
  · next hread => exact ⟨path, span, hmem, hread, (Option.some.inj hw).symm⟩

theorem stands_of_mem_missing {files : Files} {origin : Origin} {t : Text} {w : Warning}
    (h : w ∈ missing files origin t) : w.Stands t := by
  obtain ⟨path, span, hmem, -, rfl⟩ := exists_of_mem_missing h
  exact Token.holds_of_mem_ofText (Token.mem_inclusions_iff.mp hmem)

/-- Whatever a check warns about stands in the source at the span of the warning. -/
theorem stands_of_mem_check {files : Files} {origin : Origin} {mode : MatchMode} {t : Text}
    {w : Warning} (h : w ∈ check files origin mode t) : w.Stands t := by
  rcases List.mem_append.mp ((Warning.sort_perm _).mem_iff.mp h) with h | h
  · exact stands_of_mem_missing h
  · have hstands : w.Stands ([] ++ t ++ []) := stands_of_mem_inLevels h
    simpa using hstands

end Lint
end BlockTemplate
