import BlockTemplate.Proofs.Markup.Occurrence
import BlockTemplate.Proofs.Markup.Splicing
import BlockTemplate.Proofs.Rendering.Substituting

/-!
Placeholders as they are read and as they are substituted. Substitution looks for braces and knows
nothing of tokens. If only names of placeholders are bound, it stops at a placeholder and nowhere
else. In a text without markers and inclusions the placeholders that are written are those that are
read, so that each of them gives way to a text and nothing else changes.
-/
namespace BlockTemplate

open Text

variable {value? : Text → Option Text} {unbound : Unbound}
  (hkeys : ∀ key, (value? key).isSome → Token.isVariableName key)

theorem isVariableName_iff {name : Text} :
    Token.isVariableName name ↔ name ≠ [] ∧ ∀ c ∈ name, Token.isNameChar c := by
  simp [Token.isVariableName]

theorem Token.Written.isVariableName {name w : Text} (h : Written (.placeholder name) w) :
    isVariableName name := by
  cases h with
  | placeholder hne hchars => exact isVariableName_iff.mpr ⟨hne, hchars⟩

/-- The text that is put in the place of a placeholder. -/
def replacement (value? : Text → Option Text) (unbound : Unbound) (name : Text) : Text :=
  match value? name with
  | some value => value
  | none => if unbound = .blank then [] else '\x7b' :: name ++ ['\x7d']

include hkeys in
/-- Where no placeholder is written, a character stays. -/
theorem substitute_cons {c : Char} {t : Text}
    (hc : ∀ name w, Token.Written (.placeholder name) w → ¬ w <+: c :: t) :
    substitute value? unbound (c :: t) = c :: substitute value? unbound t := by
  by_cases hbrace : c = '\x7b'
  · subst hbrace
    by_cases hclose : '\x7d' ∈ t
    · obtain ⟨key, rest, rfl, hkey⟩ := List.eq_append_cons_of_mem hclose
      have hname : ¬ Token.isVariableName key := by
        intro hname
        obtain ⟨hne, hchars⟩ := isVariableName_iff.mp hname
        exact hc key _ (.placeholder hne hchars) ⟨rest, by simp⟩
      have hnone : value? key = none := by
        rw [← Option.not_isSome_iff_eq_none]
        exact fun hsome => hname (hkeys key hsome)
      rw [substitute_of_unbound_key hnone hkey, if_neg fun hblank => hname hblank.2]
    · have hopen : '\x7d' ∉ '\x7b' :: t := by simp [hclose]
      rw [substitute_of_notMem_close hclose, substitute_of_notMem_close hopen]
  · exact substitute_append_of_notMem (s := [c]) (by simpa using Ne.symm hbrace) t

theorem substitute_written {name w : Text} (hw : Token.Written (.placeholder name) w) (t : Text) :
    substitute value? unbound (w ++ t) =
      replacement value? unbound name ++ substitute value? unbound t := by
  have hkey := hw.isVariableName
  cases hw with
  | placeholder hne hchars =>
    have hopen : '\x7b' ∉ name ++ ['\x7d'] := by
      have hname : '\x7b' ∉ name := fun hc => absurd (hchars _ hc) (by decide)
      simp [hname]
    have hclose : '\x7d' ∉ name := fun hc => absurd (hchars _ hc) (by decide)
    have htext : '\x7b' :: name ++ ['\x7d'] ++ t = '\x7b' :: (name ++ '\x7d' :: t) := by simp
    rw [htext, replacement]
    cases hvalue : value? name with
    | some value =>
      exact substitute_of_bound_key hvalue hclose t
    | none =>
      rw [substitute_of_unbound_key hvalue hclose]
      by_cases hblank : unbound = .blank
      · rw [if_pos ⟨hblank, hkey⟩, if_pos hblank, List.nil_append]
      · rw [if_neg fun h => hblank h.1, if_neg hblank, List.append_cons,
          substitute_append_of_notMem hopen]
        rfl

namespace Piece

/-- What substitution makes of the piece, if it is no marker and no inclusion. -/
def substituted (value? : Text → Option Text) (unbound : Unbound) (p : Piece) : Text :=
  (p.token.bind fun token => token.variableName?.map (replacement value? unbound)).getD p.text

/-- The piece is plain text or a placeholder. -/
def PlaceholderOnly (p : Piece) : Prop :=
  ∀ token, p.token = some token → ∃ name, token = .placeholder name

theorem placeholderOnly_of_mem_ofText {t : Text} {p : Piece} (hp : p ∈ ofText t)
    (hinclusion : ¬ Token.inclusionStart <:+: t) (hmarkers : Token.markers t = []) :
    p.PlaceholderOnly := by
  intro token htoken
  have hmarker := Token.markerName?_eq_none hmarkers hp htoken
  cases token with
  | opening name => cases hmarker
  | closing name => cases hmarker
  | inclusion path =>
    have hstart : Token.inclusionStart <+: p.text := by
      rw [(written_of_mem_ofText hp htoken).eq_of_inclusion, List.append_assoc]
      exact List.prefix_append _ _
    have hwithin : p.text <:+: t := by
      rw [← textOf_ofText t]
      exact List.infix_of_mem_flatten (List.mem_map_of_mem hp)
    exact absurd (hstart.isInfix.trans hwithin) hinclusion
  | placeholder name => exact ⟨name, rfl⟩

include hkeys in
/-- Where no inclusion starts, a piece of plain text stays. -/
theorem substitute_plain {p : Piece} {ps : List Piece} (h : Stretch (p :: ps))
    (hp : p.token = none) (hinclusion : ¬ Token.inclusionStart <+: p.text) :
    substitute value? unbound (textOf (p :: ps)) =
      p.text ++ substitute value? unbound (textOf ps) := by
  have hmem := h.mem_ofText List.mem_cons_self
  obtain ⟨c, tail, htext⟩ := List.exists_cons_of_ne_nil (text_ne_nil_of_mem_ofText hmem)
  have htail : '\x7b' ∉ tail := fun hbrace =>
    hinclusion (prefix_of_mem_tail rfl hmem hp (by simpa [htext] using hbrace))
  have hstart : ∀ name w, Token.Written (.placeholder name) w → ¬ w <+: textOf (p :: ps) := by
    rintro name w hw ⟨rest, hrest⟩
    have hfirst : p :: ps = ⟨some (.placeholder name), w⟩ :: ofText rest := by
      rw [← ofText_written_append hw, hrest, h]
    rw [(List.cons.inj hfirst).1] at hp
    cases hp
  rw [textOf_cons, htext, List.cons_append] at hstart ⊢
  rw [substitute_cons hkeys hstart, substitute_append_of_notMem htail, List.cons_append]

include hkeys in
theorem substitute_textOf {ps : List Piece} (h : Stretch ps)
    (hinclusion : ¬ Token.inclusionStart <:+: textOf ps) (honly : ∀ p ∈ ps, p.PlaceholderOnly) :
    substitute value? unbound (textOf ps) = ps.flatMap (substituted value? unbound) := by
  induction ps with
  | nil => exact substitute_of_notMem List.not_mem_nil
  | cons p ps ih =>
    obtain ⟨hp, hps⟩ := List.forall_mem_cons.mp honly
    have hrest : Stretch ([p] ++ ps) := h
    have hsuffix : textOf ps <:+ textOf (p :: ps) := List.suffix_append _ _
    have hbehind := ih hrest.right (fun hin => hinclusion (hin.trans hsuffix.isInfix)) hps
    rw [List.flatMap_cons, ← hbehind, substituted]
    cases htoken : p.token with
    | none =>
      refine substitute_plain hkeys h htoken fun hstart => hinclusion ?_
      exact (hstart.trans (List.prefix_append _ _)).isInfix
    | some token =>
      obtain ⟨name, rfl⟩ := hp token htoken
      have hmem := h.mem_ofText List.mem_cons_self
      exact substitute_written (written_of_mem_ofText hmem htoken) (textOf ps)

include hkeys in
/-- In a text without markers and inclusions, substitution goes piece by piece. -/
theorem substitute_ofText {t : Text} (hinclusion : ¬ Token.inclusionStart <:+: t)
    (hmarkers : Token.markers t = []) :
    substitute value? unbound t = (ofText t).flatMap (substituted value? unbound) := by
  conv_lhs => rw [← textOf_ofText t]
  refine substitute_textOf hkeys (stretch_ofText t) (by rwa [textOf_ofText]) fun p hp => ?_
  exact placeholderOnly_of_mem_ofText hp hinclusion hmarkers

section

variable {value'? : Text → Option Text} {name : Text}

theorem substituted_of_placeholder {p : Piece} (hp : p.token = some (.placeholder name)) :
    p.substituted value? unbound = replacement value? unbound name := by
  rw [substituted, hp]
  rfl

theorem substituted_congr (hother : ∀ key, key ≠ name →
      replacement value? unbound key = replacement value'? unbound key)
    {p : Piece} (hp : p.token ≠ some (.placeholder name)) :
    p.substituted value? unbound = p.substituted value'? unbound := by
  unfold substituted
  cases htoken : p.token with
  | none => rfl
  | some token =>
    cases token with
    | placeholder key =>
      have hkey : key ≠ name := by
        rintro rfl
        exact hp htoken
      exact hother key hkey
    | _ => rfl

/-- The more often a placeholder is read, the more its text counts for the size of the whole. -/
theorem length_flatMap_substituted (hother : ∀ key, key ≠ name →
      replacement value? unbound key = replacement value'? unbound key) (ps : List Piece) :
    (ps.flatMap (substituted value? unbound)).length +
        ps.countP (·.token = some (.placeholder name)) *
          (replacement value'? unbound name).length =
      (ps.flatMap (substituted value'? unbound)).length +
        ps.countP (·.token = some (.placeholder name)) *
          (replacement value? unbound name).length := by
  induction ps with
  | nil => simp
  | cons p ps ih =>
    rw [List.flatMap_cons, List.flatMap_cons, List.countP_cons, List.length_append,
      List.length_append]
    by_cases hp : p.token = some (.placeholder name)
    · rw [if_pos (decide_eq_true hp), Nat.add_mul, Nat.add_mul, substituted_of_placeholder hp,
        substituted_of_placeholder hp]
      omega
    · rw [if_neg (by simpa using hp), Nat.add_zero, substituted_congr hother hp]
      omega

/-- If a placeholder is read, then what is made of the pieces tells which text it gives way to. -/
theorem flatMap_substituted_inj (hother : ∀ key, key ≠ name →
      replacement value? unbound key = replacement value'? unbound key) {ps : List Piece} :
    ps.flatMap (substituted value? unbound) = ps.flatMap (substituted value'? unbound) ↔
      (∀ p ∈ ps, p.token ≠ some (.placeholder name)) ∨
        replacement value? unbound name = replacement value'? unbound name := by
  constructor
  · intro h
    have hlength := length_flatMap_substituted hother ps
    rw [h, Nat.add_right_inj] at hlength
    rcases Nat.eq_zero_or_pos (ps.countP (·.token = some (.placeholder name))) with hcount | hcount
    · exact Or.inl fun p hp => by simpa using List.countP_eq_zero.mp hcount p hp
    · have heq := Nat.eq_of_mul_eq_mul_left hcount hlength
      clear hlength hcount
      induction ps with
      | nil => exact Or.inl fun p hp => absurd hp List.not_mem_nil
      | cons p ps ih =>
        rw [List.flatMap_cons, List.flatMap_cons] at h
        by_cases hp : p.token = some (.placeholder name)
        · rw [substituted_of_placeholder hp, substituted_of_placeholder hp] at h
          exact Or.inr (List.append_inj_left h heq.symm)
        · rw [substituted_congr hother hp, List.append_cancel_left_eq] at h
          exact (ih h).imp_left fun hps => List.forall_mem_cons.mpr ⟨hp, hps⟩
  · rintro (hnone | heq)
    · exact List.flatMap_congr fun p hp => substituted_congr hother (hnone p hp)
    · refine List.flatMap_congr fun p _ => ?_
      by_cases hp : p.token = some (.placeholder name)
      · rw [substituted_of_placeholder hp, substituted_of_placeholder hp, heq]
      · exact substituted_congr hother hp

end

end Piece

include hkeys in
/-- In a text without markers and inclusions, the placeholders that are read give way to their
texts, and nothing else changes. -/
theorem substitute_eq_splice {t : Text} (hinclusion : ¬ Token.inclusionStart <:+: t)
    (hmarkers : Token.markers t = []) :
    substitute value? unbound t = splice t ((Token.placeholders t).map fun x =>
      (x.2, replacement value? unbound x.1)) := by
  have hspans : (Token.placeholders t).map (fun x => (x.2, replacement value? unbound x.1)) =
      (Token.ofText t).filterMap fun x =>
        (x.1.variableName?.map (replacement value? unbound)).map (x.2, ·) := by
    rw [Token.placeholders, List.map_filterMap]
    simp only [Option.map_map]
    rfl
  rw [hspans, Piece.substitute_ofText hkeys hinclusion hmarkers]
  exact (Token.splice_ofText (fun token => token.variableName?.map _) t).symm

end BlockTemplate
