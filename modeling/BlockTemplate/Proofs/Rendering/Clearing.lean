import BlockTemplate.Proofs.Text.Lines
import BlockTemplate.Proofs.Text.Search
import BlockTemplate.Rendering.Slot

/-!
What clearing leaves alone: a text in which no slot stands, whatever its name, and the text
before the first and after the last number sign. No line end is ever taken out.
-/
namespace BlockTemplate

namespace Slot

open Text

theorem sign_eq : sign = ['#', '#'] := rfl

theorem ofName_eq_cons (name : Text) : ofName name = '#' :: ('#' :: name ++ sign) := rfl

theorem ofName_eq_append (name : Text) : ofName name = (sign ++ name ++ ['#']) ++ ['#'] := by
  simp [ofName, sign_eq]

theorem ofName_ne_nil (name : Text) : ofName name ≠ [] := List.cons_ne_nil _ _

theorem eq_around_ofName {line before after inner rest : Text}
    (hopen : cut? sign line = some (before, after))
    (hclose : cut? sign after = some (inner, rest)) :
    line = before ++ ofName inner ++ rest := by
  rw [eq_of_cut? hopen, eq_of_cut? hclose, ofName]
  simp

/-- No slot stands in the text, whatever its name. -/
def Free (t : Text) : Prop := ∀ name, ¬ ofName name <:+: t

theorem free_iff {t : Text} : Free t ↔ ((cut? sign t).bind fun ab => cut? sign ab.2) = none := by
  constructor
  · intro h
    cases hopen : cut? sign t with
    | none => rfl
    | some ab =>
      cases hclose : cut? sign ab.2 with
      | none => exact hclose
      | some cd => exact absurd ⟨_, _, (eq_around_ofName hopen hclose).symm⟩ (h cd.1)
  · rintro h name ⟨x, y, hxy⟩
    have ht : t = x ++ sign ++ (name ++ sign ++ y) := by rw [← hxy]; simp [ofName]
    obtain ⟨a, b, hcut, hlen⟩ := exists_cut?_of_eq ht
    have hb : t = a ++ sign ++ b := eq_of_cut? hcut
    have hsuffix : name ++ sign ++ y <:+ b := by
      refine List.suffix_of_suffix_length_le ⟨_, ht.symm⟩ ⟨_, hb.symm⟩ ?_
      have hlength := congrArg List.length (ht.symm.trans hb)
      simp only [List.length_append] at hlength ⊢
      omega
    have hnone : cut? sign b = none := by simpa [hcut] using h
    exact cut?_eq_none_iff.mp hnone (List.IsInfix.trans ⟨name, y, rfl⟩ hsuffix.isInfix)

instance (t : Text) : Decidable (Free t) := decidable_of_iff _ free_iff.symm

theorem free_of_notMem {t : Text} (h : '#' ∉ t) : Free t :=
  fun _ hslot => h (hslot.subset List.mem_cons_self)

theorem Free.of_infix {s t : Text} (h : Free t) (hs : s <:+: t) : Free s :=
  fun name hslot => h name (hslot.trans hs)

theorem clearLine_of_cut? {line before after inner rest : Text}
    (hopen : cut? sign line = some (before, after))
    (hclose : cut? sign after = some (inner, rest)) :
    clearLine line = before ++ clearLine rest := by
  rw [clearLine]
  split
  · next hnone => simp [hopen] at hnone
  · next before' after' hsome =>
    obtain ⟨rfl, rfl⟩ : before = before' ∧ after = after' := by simpa [hopen] using hsome
    split
    · next hnone => simp [hclose] at hnone
    · next inner' rest' hsome' =>
      obtain ⟨rfl, rfl⟩ : inner = inner' ∧ rest = rest' := by simpa [hclose] using hsome'
      rfl

/-- A line is cleared from its first slot on, or it has no slot and stays. -/
theorem clearLine_cases (line : Text) :
    (∃ before after inner rest, cut? sign line = some (before, after) ∧
      cut? sign after = some (inner, rest) ∧ clearLine line = before ++ clearLine rest) ∨
    ((∀ before after, cut? sign line = some (before, after) → cut? sign after = none) ∧
      clearLine line = line) := by
  cases hopen : cut? sign line with
  | none =>
    refine Or.inr ⟨by simp, ?_⟩
    rw [clearLine]
    split
    · rfl
    · next hsome => simp [hopen] at hsome
  | some ab =>
    obtain ⟨before, after⟩ := ab
    cases hclose : cut? sign after with
    | some cd =>
      exact Or.inl ⟨before, after, cd.1, cd.2, rfl, hclose, clearLine_of_cut? hopen hclose⟩
    | none =>
      refine Or.inr ⟨?_, ?_⟩
      · intro before' after' h
        obtain ⟨rfl, rfl⟩ : before = before' ∧ after = after' := by simpa using h
        exact hclose
      · rw [clearLine]
        split
        · rfl
        · next before' after' hsome =>
          obtain ⟨rfl, rfl⟩ : before = before' ∧ after = after' := by simpa [hopen] using hsome
          split
          · rfl
          · next hsome' => simp [hclose] at hsome'

theorem clearLine_of_free {line : Text} (h : Free line) :
    clearLine line = line := by
  rcases clearLine_cases line with ⟨before, after, inner, rest, hopen, hclose, -⟩ | ⟨-, heq⟩
  · exact absurd ⟨before, rest, (eq_around_ofName hopen hclose).symm⟩ (h inner)
  · exact heq

theorem mem_of_mem_clearLine {line : Text} {c : Char} (h : c ∈ clearLine line) : c ∈ line := by
  induction hn : line.length using Nat.strong_induction_on generalizing line with
  | h n ih =>
    rcases clearLine_cases line with ⟨before, after, inner, rest, hopen, hclose, heq⟩ | ⟨-, heq⟩
    · have hline := eq_around_ofName hopen hclose
      have hlt : rest.length < n := by
        have hafter := length_lt_of_cut? sign_ne_nil hopen
        have hrest := length_lt_of_cut? sign_ne_nil hclose
        omega
      rw [heq, List.mem_append] at h
      rw [hline]
      rcases h with h | h
      · simp [h]
      · simp [ih _ hlt h rfl]
    · rwa [heq] at h

theorem clearLine_append_of_notMem {s : Text} (hs : '#' ∉ s) (line : Text) :
    clearLine (s ++ line) = s ++ clearLine line := by
  have hcut : cut? sign (s ++ line) = (cut? sign line).map fun ab => (s ++ ab.1, ab.2) :=
    cut?_append_of_notMem hs line
  rcases clearLine_cases line with ⟨before, after, inner, rest, hopen, hclose, heq⟩ | ⟨hnone, heq⟩
  · rw [hopen, Option.map_some] at hcut
    rw [clearLine_of_cut? hcut hclose, heq, List.append_assoc]
  · rcases clearLine_cases (s ++ line) with ⟨before, after, inner, rest, hopen, hclose, -⟩ | ⟨-, h⟩
    · rw [hopen] at hcut
      obtain ⟨ab, hab, hpair⟩ := Option.map_eq_some_iff.mp hcut.symm
      obtain ⟨-, rfl⟩ := Prod.mk.inj hpair
      rw [hnone _ _ hab] at hclose
      cases hclose
    · rw [h, heq]

theorem clearLine_append_of_notMem_right {s : Text} (hs : '#' ∉ s) (line : Text) :
    clearLine (line ++ s) = clearLine line ++ s := by
  have hcut : ∀ t, cut? sign (t ++ s) = (cut? sign t).map fun ab => (ab.1, ab.2 ++ s) :=
    fun t => cut?_append_of_notMem_last (p := ['#']) hs t
  induction hn : line.length using Nat.strong_induction_on generalizing line with
  | h n ih =>
    rcases clearLine_cases line with ⟨before, after, inner, rest, hopen, hclose, heq⟩ | ⟨hnone, heq⟩
    · have hopen' := hcut line
      have hclose' := hcut after
      rw [hopen, Option.map_some] at hopen'
      rw [hclose, Option.map_some] at hclose'
      have hlt : rest.length < n := by
        have hafter := length_lt_of_cut? sign_ne_nil hopen
        have hrest := length_lt_of_cut? sign_ne_nil hclose
        omega
      rw [clearLine_of_cut? hopen' hclose', heq, ih _ hlt rest rfl, List.append_assoc]
    · rcases clearLine_cases (line ++ s) with
        ⟨before, after, inner, rest, hopen, hclose, -⟩ | ⟨-, h⟩
      · rw [hcut] at hopen
        obtain ⟨ab, hab, hpair⟩ := Option.map_eq_some_iff.mp hopen
        obtain ⟨-, rfl⟩ := Prod.mk.inj hpair
        rw [hcut, hnone _ _ hab] at hclose
        cases hclose
      · rw [h, heq]

theorem clear_of_notMem {l : Text} (hl : '\n' ∉ l) : clear l = clearLine l := by
  rw [clear, lines_of_notMem hl]
  exact List.intercalate_singleton

/-- Clearing goes line by line. -/
theorem clear_append {l : Text} (hl : '\n' ∉ l) (t : Text) :
    clear (l ++ '\n' :: t) = clearLine l ++ '\n' :: clear t := by
  have hne : (lines t).map clearLine ≠ [] :=
    fun h => List.splitOn_ne_nil '\n' t (List.map_eq_nil_iff.mp h)
  rw [clear, lines_append hl, List.map_cons, unlines, List.intercalate_cons_of_ne_nil hne]
  simp [clear, unlines]

theorem clear_of_free {t : Text} (h : Free t) : clear t = t := by
  induction t using lineInduction with
  | line l hl => rw [clear_of_notMem hl, clearLine_of_free h]
  | append l t hl ih =>
    have hline : Free l := h.of_infix (List.infix_append [] l _)
    have hrest : Free t := h.of_infix ⟨l ++ ['\n'], [], by simp⟩
    rw [clear_append hl, clearLine_of_free hline, ih hrest]

theorem clear_append_of_notMem {s : Text} (hs : '#' ∉ s) (t : Text) :
    clear (s ++ t) = s ++ clear t := by
  induction s using lineInduction with
  | line s hs' =>
    by_cases hbreak : '\n' ∈ t
    · obtain ⟨l, u, rfl, hl⟩ := List.eq_append_cons_of_mem hbreak
      have hsl : '\n' ∉ s ++ l := by simp [hs', hl]
      rw [← List.append_assoc, clear_append hsl, clear_append hl, clearLine_append_of_notMem hs,
        List.append_assoc]
    · have hst : '\n' ∉ s ++ t := by simp [hs', hbreak]
      rw [clear_of_notMem hst, clear_of_notMem hbreak, clearLine_append_of_notMem hs]
  | append l s hl ih =>
    simp only [List.mem_append, List.mem_cons, not_or] at hs
    obtain ⟨hline, -, hs⟩ := hs
    rw [List.append_assoc, List.cons_append, clear_append hl,
      clearLine_of_free (free_of_notMem hline), ih hs, List.append_assoc, List.cons_append]

theorem clear_append_of_notMem_right {s : Text} (hs : '#' ∉ s) (t : Text) :
    clear (t ++ s) = clear t ++ s := by
  induction t using lineInduction with
  | line l hl =>
    by_cases hbreak : '\n' ∈ s
    · obtain ⟨s, u, rfl, hs'⟩ := List.eq_append_cons_of_mem hbreak
      have hls : '\n' ∉ l ++ s := by simp [hl, hs']
      simp only [List.mem_append, List.mem_cons, not_or] at hs
      obtain ⟨hs, -, hu⟩ := hs
      rw [← List.append_assoc, clear_append hls, clear_of_notMem hl,
        clearLine_append_of_notMem_right hs, clear_of_free (free_of_notMem hu),
        List.append_assoc]
    · have hls : '\n' ∉ l ++ s := by simp [hl, hbreak]
      rw [clear_of_notMem hls, clear_of_notMem hl, clearLine_append_of_notMem_right hs]
  | append l t hl ih =>
    rw [List.append_assoc, List.cons_append, clear_append hl, ih, clear_append hl,
      List.append_assoc, List.cons_append]

/-- Slots are taken out within their lines, so that there are as many lines as before. -/
theorem count_clear (t : Text) : (clear t).count '\n' = t.count '\n' := by
  have hline : ∀ l : Text, '\n' ∉ l → (clearLine l).count '\n' = l.count '\n' := by
    intro l hl
    rw [List.count_eq_zero_of_not_mem hl,
      List.count_eq_zero_of_not_mem fun h => hl (mem_of_mem_clearLine h)]
  induction t using lineInduction with
  | line l hl => rw [clear_of_notMem hl, hline l hl]
  | append l t hl ih =>
    rw [clear_append hl, List.count_append, List.count_append, hline l hl, List.count_cons_self,
      List.count_cons_self, ih]

end Slot
end BlockTemplate
