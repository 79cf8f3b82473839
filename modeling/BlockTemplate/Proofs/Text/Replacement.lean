import BlockTemplate.Proofs.Text.Search

/-!
What replacing a pattern leaves alone: a text without the pattern, and the characters before and
after it that the pattern neither starts nor ends with.
-/
namespace BlockTemplate.Text

variable {p r t : Text}

theorem replaceAll_of_cut? (hp : p ≠ []) {a b : Text} (h : cut? p t = some (a, b)) :
    replaceAll p r t = a ++ r ++ replaceAll p r b := by
  rw [replaceAll, dif_neg hp]
  split
  · next hnone => simp [h] at hnone
  · next a' b' hsome =>
    obtain ⟨rfl, rfl⟩ : a = a' ∧ b = b' := by simpa [h] using hsome
    rfl

theorem replaceAll_of_cut?_eq_none (h : cut? p t = none) : replaceAll p r t = t := by
  rw [replaceAll]
  split
  · rfl
  · split
    · rfl
    · next hsome => simp [h] at hsome

theorem replaceAll_of_notInfix (h : ¬ p <:+: t) : replaceAll p r t = t :=
  replaceAll_of_cut?_eq_none (cut?_eq_none_iff.mpr h)

/-- If the search passes over the text before, so does replacing. -/
theorem replaceAll_append_of_cut? (hp : p ≠ []) {s : Text}
    (h : cut? p (s ++ t) = (cut? p t).map fun ab => (s ++ ab.1, ab.2)) :
    replaceAll p r (s ++ t) = s ++ replaceAll p r t := by
  cases hcut : cut? p t with
  | none =>
    rw [hcut, Option.map_none] at h
    rw [replaceAll_of_cut?_eq_none h, replaceAll_of_cut?_eq_none hcut]
  | some ab =>
    rw [hcut, Option.map_some] at h
    rw [replaceAll_of_cut? hp h, replaceAll_of_cut? hp hcut]
    simp

theorem replaceAll_append_of_notMem {c : Char} {s : Text} (hs : c ∉ s) (t : Text) :
    replaceAll (c :: p) r (s ++ t) = s ++ replaceAll (c :: p) r t :=
  replaceAll_append_of_cut? (List.cons_ne_nil _ _) (cut?_append_of_notMem hs t)

theorem replaceAll_append_of_notMem_last {c : Char} {s : Text} (hs : c ∉ s) (t : Text) :
    replaceAll (p ++ [c]) r (t ++ s) = replaceAll (p ++ [c]) r t ++ s := by
  have hp : p ++ [c] ≠ [] := by simp
  induction hn : t.length using Nat.strong_induction_on generalizing t with
  | h n ih =>
    have hcut := cut?_append_of_notMem_last (p := p) hs t
    cases h : cut? (p ++ [c]) t with
    | none =>
      rw [h, Option.map_none] at hcut
      rw [replaceAll_of_cut?_eq_none hcut, replaceAll_of_cut?_eq_none h]
    | some ab =>
      rw [h, Option.map_some] at hcut
      have hlt : ab.2.length < n := hn ▸ length_lt_of_cut? hp h
      rw [replaceAll_of_cut? hp hcut, replaceAll_of_cut? hp h, ih _ hlt ab.2 rfl]
      simp

end BlockTemplate.Text
