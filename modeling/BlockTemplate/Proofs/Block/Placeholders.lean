import BlockTemplate.Block.Outline
import BlockTemplate.Block.Snapshot
import BlockTemplate.Proofs.Block.Binding
import BlockTemplate.Proofs.Block.Placing
import BlockTemplate.Proofs.Rendering.Placeholders

/-!
The placeholders of a block, which are read as tokens, and what is substituted for them. If the
template has no markers and no inclusions and only names of placeholders are bound, then each token
gives way to its text and nothing else changes. So the names that are listed for a block are those
whose text can be seen in what is rendered.
-/
namespace BlockTemplate

open Text

theorem Token.mem_placeholders_iff {t name : Text} :
    name ∈ (placeholders t).map Prod.fst ↔
      ∃ p ∈ Piece.ofText t, p.token = some (placeholder name) := by
  have hname : ∀ token : Token, token.variableName? = some name ↔ token = placeholder name := by
    intro token
    cases token <;> simp [variableName?]
  calc name ∈ (placeholders t).map Prod.fst
      ↔ placeholder name ∈ (ofText t).map Prod.fst := by
        simp [placeholders, hname]
    _ ↔ ∃ p ∈ Piece.ofText t, p.token = some (placeholder name) := mem_map_fst_ofText

namespace Block

theorem mem_placeholders_iff {b : Block} {name : Text} : name ∈ b.placeholders ↔
    ∃ p ∈ Piece.ofText b.template, p.token = some (.placeholder name) := by
  rw [placeholders, List.mem_eraseDups, Token.mem_placeholders_iff]

theorem isVariableName_of_mem_placeholders {b : Block} {name : Text} (h : name ∈ b.placeholders) :
    Token.isVariableName name := by
  obtain ⟨p, hp, htoken⟩ := mem_placeholders_iff.mp h
  exact (Piece.written_of_mem_ofText hp htoken).isVariableName

theorem replacement_bind (b : Block) (name value : Text) (unbound : Unbound) (key : Text) :
    replacement (b.bind name value).boundText? unbound key =
      if key = name then value else replacement b.boundText? unbound key := by
  rw [replacement, boundText?_bind, replacement]
  by_cases h : key = name
  · rw [if_pos h, if_pos h]
  · rw [if_neg h, if_neg h]

/-- A text that is bound to a name is seen if the name is that of a placeholder that is read, and
the text is not the one that stands there already. -/
theorem substituted_bind_eq_iff {b : Block} (hinclusion : ¬ Token.inclusionStart <:+: b.template)
    (hmarkers : Token.markers b.template = [])
    (hkeys : ∀ key, (b.boundText? key).isSome → Token.isVariableName key) {name : Text}
    (hname : Token.isVariableName name) (value : Text) :
    (b.bind name value).substituted = b.substituted ↔
      name ∉ b.placeholders ∨ value = replacement b.boundText? b.style.unbound name := by
  have hbound : ∀ key, ((b.bind name value).boundText? key).isSome → Token.isVariableName key := by
    intro key hkey
    rw [boundText?_bind] at hkey
    split at hkey
    · next h => exact h ▸ hname
    · exact hkeys key hkey
  have hother : ∀ key, key ≠ name → replacement (b.bind name value).boundText? b.style.unbound key =
      replacement b.boundText? b.style.unbound key := by
    intro key hkey
    rw [replacement_bind, if_neg hkey]
  rw [substituted, template_bind, style_bind, substituted,
    Piece.substitute_ofText hbound hinclusion hmarkers,
    Piece.substitute_ofText hkeys hinclusion hmarkers, Piece.flatMap_substituted_inj hother,
    replacement_bind, if_pos rfl, mem_placeholders_iff]
  simp

/-- Each placeholder that is read in a template gives way to its text, and nothing else changes.
The list of placeholders has the names of these, each once, in order of first appearance. It has
those to which a text can be bound that is seen, and every text is seen that differs from what is
rendered without it, be that nothing or the placeholder itself. -/
theorem substituted_by_placeholders {b : Block}
    (hinclusion : ¬ Token.inclusionStart <:+: b.template)
    (hmarkers : Token.markers b.template = [])
    (hkeys : ∀ key, (b.boundText? key).isSome → Token.isVariableName key) :
    b.substituted = splice b.template ((Token.placeholders b.template).map fun x =>
      (x.2, replacement b.boundText? b.style.unbound x.1)) ∧
    b.placeholders.Nodup ∧
    (b.placeholders.Pairwise fun x y =>
      ((Token.placeholders b.template).map Prod.fst).idxOf x <
        ((Token.placeholders b.template).map Prod.fst).idxOf y) ∧
    (∀ name, name ∈ b.placeholders ↔ Token.isVariableName name ∧
      ∃ value, (b.bind name value).substituted ≠ b.substituted) ∧
    ∀ name ∈ b.placeholders, ∀ value, (b.bind name value).substituted = b.substituted ↔
      value = replacement b.boundText? b.style.unbound name := by
  have hseen : ∀ name, Token.isVariableName name → ∀ value, _ := fun name hname value =>
    substituted_bind_eq_iff hinclusion hmarkers hkeys hname value
  refine ⟨substitute_eq_splice hkeys hinclusion hmarkers, nodup_eraseDups _,
    pairwise_idxOf_eraseDups _, fun name => ⟨fun hmem => ?_, ?_⟩, fun name hmem value => ?_⟩
  · have hname := isVariableName_of_mem_placeholders hmem
    refine ⟨hname, '\x7b' :: replacement b.boundText? b.style.unbound name, fun heq => ?_⟩
    rcases (hseen name hname _).mp heq with hnot | hsame
    · exact hnot hmem
    · exact List.cons_ne_self _ _ hsame
  · rintro ⟨hname, value, hne⟩
    by_contra hnot
    exact hne ((hseen name hname value).mpr (Or.inl hnot))
  · rw [hseen name (isVariableName_of_mem_placeholders hmem)]
    exact or_iff_right (not_not_intro hmem)

/-- Markers and placeholders that are not closed stay as they are, also around placeholders that
are. A value that reads like a placeholder stays, while an unbound placeholder is left out. -/
theorem substituted_by_placeholders_broken_markup :
    let t := "<!--begin:\x7ba\x7d<-->\x7b\x7bb\x7d\x7b c\x7d\x7ba\x7d".toList
    let b : Block := ⟨[], t, [], [("a".toList, "\x7bb\x7d".toList)], [], { unbound := .blank }⟩
    (¬ Token.inclusionStart <:+: t ∧ Token.markers t = [] ∧
      ∀ key, (b.boundText? key).isSome → Token.isVariableName key) ∧
    b.substituted = splice t
      [(⟨10, 13⟩, "\x7bb\x7d".toList), (⟨18, 21⟩, []), (⟨25, 28⟩, "\x7bb\x7d".toList)] ∧
    b.substituted = "<!--begin:\x7bb\x7d<-->\x7b\x7b c\x7d\x7bb\x7d".toList ∧
    b.placeholders = ["a".toList, "b".toList] ∧
    ∀ value, (b.bind "b".toList value).substituted = b.substituted ↔ value = [] := by
  intro t b
  have hinclusion : ¬ Token.inclusionStart <:+: t := by decide +kernel
  have hmarkers : Token.markers t = [] := by decide +kernel
  have hkeys : ∀ key, (b.boundText? key).isSome → Token.isVariableName key := by
    intro key hkey
    obtain rfl : key = "a".toList := by simpa [b, boundText?, Bindings.get?] using hkey
    decide
  have hspans : (Token.placeholders t).map (fun x =>
      (x.2, replacement b.boundText? b.style.unbound x.1)) =
      [(⟨10, 13⟩, "\x7bb\x7d".toList), (⟨18, 21⟩, []), (⟨25, 28⟩, "\x7bb\x7d".toList)] := by
    decide +kernel
  have hnames : b.placeholders = ["a".toList, "b".toList] := by decide +kernel
  obtain ⟨hsplice, -, -, -, hvalue⟩ := substituted_by_placeholders hinclusion hmarkers hkeys
  rw [hspans] at hsplice
  refine ⟨⟨hinclusion, hmarkers, hkeys⟩, hsplice, hsplice.trans (by decide +kernel), hnames,
    fun value => ?_⟩
  have hunbound : replacement b.boundText? b.style.unbound "b".toList = [] := by decide +kernel
  rw [hvalue "b".toList (by simp [hnames]), hunbound]

end Block
end BlockTemplate
