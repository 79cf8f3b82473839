import BlockTemplate.Block.Build
import BlockTemplate.Proofs.Level.Regions
import BlockTemplate.Proofs.Markup.Position

/-!
Texts none of whose inclusions can be read. Expanding such a text changes nothing, and the same
holds for the body of each of its regions, so that its blocks are built from its own characters.
-/
namespace BlockTemplate

namespace Token

theorem exists_mem_inclusions_iff {t path : Text} :
    (∃ span, (path, span) ∈ inclusions t) ↔
      ∃ p ∈ Piece.ofText t, p.token = some (inclusion path) := by
  rw [← mem_map_fst_ofText]
  simp [mem_inclusions_iff]

end Token

namespace Origin

/-- No inclusion of the text can be read. -/
def Unread (o : Origin) (files : Files) (t : Text) : Prop :=
  ∀ p ∈ Token.inclusions t, o.read? files p.1 = none

variable {o : Origin} {files : Files} {t : Text}

theorem unread_iff : o.Unread files t ↔
    ∀ p ∈ Piece.ofText t, ∀ path, p.token = some (.inclusion path) → o.read? files path = none := by
  constructor
  · intro h p hp path hpath
    obtain ⟨span, hspan⟩ := Token.exists_mem_inclusions_iff.mpr ⟨p, hp, hpath⟩
    exact h _ hspan
  · rintro h ⟨path, span⟩ hspan
    obtain ⟨p, hp, hpath⟩ := Token.exists_mem_inclusions_iff.mp ⟨span, hspan⟩
    exact h p hp path hpath

/-- A text that no file can be put into stays as it is. -/
theorem Unread.expand_eq (h : o.Unread files t) : o.expand files t = t := by
  have hsplice : ∀ p ∈ Piece.ofText t, o.splice files p = p.text := by
    intro p hp
    unfold splice
    split
    · next path hpath => rw [unread_iff.mp h p hp path hpath, Option.getD_none]
    · rfl
  rw [expand, List.flatMap_congr hsplice]
  exact Piece.textOf_ofText t

theorem Unread.bodyText {mode : MatchMode} {r : Region} (h : o.Unread files t)
    (hr : Part.region r ∈ Level.ofText mode t) : o.Unread files r.bodyText := by
  rw [unread_iff, Level.pieces_bodyText hr]
  exact fun p hp => unread_iff.mp h p (Level.mem_of_mem_body hr hp)

end Origin
end BlockTemplate
