import BlockTemplate.Text.Basic
import Mathlib.Data.List.Infix
import Mathlib.Tactic.ByContra

/-!
What the search for a pattern finds, said without the search: the pattern with the shortest
text before it. From this follow the search in a longer text, the search behind characters
that the pattern does not start with, and the search for a pattern that is not there.
-/
namespace BlockTemplate.Text

theorem exists_cut?_of_eq {p t a b : Text} (h : t = a ++ p ++ b) :
    ∃ a' b', cut? p t = some (a', b') ∧ a'.length ≤ a.length := by
  induction a generalizing t with
  | nil =>
    subst h
    cases p with
    | nil =>
      cases b with
      | nil => exact ⟨[], [], rfl, Nat.le_refl _⟩
      | cons c b => exact ⟨[], c :: b, by simp [cut?_cons], Nat.le_refl _⟩
    | cons c p => exact ⟨[], b, by simp [cut?_cons], Nat.le_refl _⟩
  | cons c a ih =>
    obtain ⟨a', b', hcut, hlen⟩ := ih rfl
    subst h
    rw [List.cons_append, List.cons_append, cut?_cons]
    split
    · exact ⟨[], _, rfl, Nat.zero_le _⟩
    · exact ⟨c :: a', b', by rw [hcut]; rfl, Nat.succ_le_succ hlen⟩

/-- A cut is made at the first occurrence of the pattern. -/
theorem cut?_eq_some_iff {p t a b : Text} :
    cut? p t = some (a, b) ↔
      t = a ++ p ++ b ∧ ∀ a' b', t = a' ++ p ++ b' → a.length ≤ a'.length := by
  constructor
  · intro h
    refine ⟨eq_of_cut? h, fun a' b' ht => ?_⟩
    obtain ⟨a₀, b₀, hcut, hlen⟩ := exists_cut?_of_eq ht
    obtain ⟨rfl, -⟩ : a = a₀ ∧ b = b₀ := by simpa [h] using hcut
    exact hlen
  · rintro ⟨ht, hleast⟩
    obtain ⟨a₀, b₀, hcut, hlen⟩ := exists_cut?_of_eq ht
    have ht₀ := eq_of_cut? hcut
    have hlen' : a₀.length = a.length := Nat.le_antisymm hlen (hleast a₀ b₀ ht₀)
    rw [ht, List.append_assoc, List.append_assoc] at ht₀
    obtain ⟨rfl, hb⟩ := List.append_inj ht₀ hlen'.symm
    rw [hcut, List.append_cancel_left hb]

theorem cut?_eq_none_iff {p t : Text} : cut? p t = none ↔ ¬ p <:+: t := by
  constructor
  · rintro h ⟨a, b, rfl⟩
    obtain ⟨a', b', hcut, -⟩ := exists_cut?_of_eq (p := p) (a := a) (b := b) rfl
    rw [h] at hcut
    cases hcut
  · intro h
    cases hcut : cut? p t with
    | none => rfl
    | some ab => exact absurd ⟨ab.1, ab.2, (eq_of_cut? hcut).symm⟩ h

/-- Text behind the first occurrence does not change where the cut is made. -/
theorem cut?_append {p t a b : Text} (h : cut? p t = some (a, b)) (s : Text) :
    cut? p (t ++ s) = some (a, b ++ s) := by
  obtain ⟨ht, hleast⟩ := cut?_eq_some_iff.mp h
  refine cut?_eq_some_iff.mpr ⟨by rw [ht]; simp, fun a' b' hs => ?_⟩
  by_contra hlt
  have hfits : (a' ++ p).length ≤ t.length := by
    have hlen := congrArg List.length ht
    simp only [List.length_append] at hlen ⊢
    omega
  obtain ⟨r, hr⟩ := List.prefix_of_prefix_length_le ⟨b', hs.symm⟩ (List.prefix_append t s) hfits
  exact hlt (hleast a' r hr.symm)

/-- The search passes over characters that the pattern does not start with. -/
theorem cut?_append_of_notMem {c : Char} {p s : Text} (hs : c ∉ s) (t : Text) :
    cut? (c :: p) (s ++ t) = (cut? (c :: p) t).map fun ab => (s ++ ab.1, ab.2) := by
  induction s with
  | nil => simp
  | cons d s ih =>
    obtain ⟨hcd, hs'⟩ := List.ne_and_not_mem_of_not_mem_cons hs
    have hpre : (c :: p).isPrefixOf (d :: (s ++ t)) = false := by
      simp [List.isPrefixOf, hcd]
    rw [List.cons_append, cut?_cons, if_neg (by simp [hpre]), ih hs', Option.map_map]
    rfl

theorem cut?_of_notMem {c : Char} {p s : Text} (hs : c ∉ s) : cut? (c :: p) s = none :=
  cut?_eq_none_iff.mpr fun h => hs (h.subset List.mem_cons_self)

theorem cut?_append_pattern {c : Char} {p s : Text} (hs : c ∉ s) (t : Text) :
    cut? (c :: p) (s ++ (c :: p) ++ t) = some (s, t) := by
  rw [List.append_assoc, cut?_append_of_notMem hs, List.cons_append, cut?_cons]
  simp

theorem cut?_append_cons {c : Char} {s : Text} (hs : c ∉ s) (t : Text) :
    cut? [c] (s ++ c :: t) = some (s, t) := by
  simpa using cut?_append_pattern (p := []) hs t

/-- A character that is in neither front parts equal texts at equal places. -/
theorem append_cons_inj {c : Char} {s s' t t' : Text} (hs : c ∉ s) (hs' : c ∉ s')
    (h : s ++ c :: t = s' ++ c :: t') : s = s' ∧ t = t' := by
  have hcut := cut?_append_cons hs t
  rw [h, cut?_append_cons hs' t'] at hcut
  obtain ⟨rfl, rfl⟩ := Prod.mk.inj (Option.some.inj hcut)
  exact ⟨rfl, rfl⟩

theorem cut?_singleton_eq_none_iff {c : Char} {t : Text} : cut? [c] t = none ↔ c ∉ t := by
  rw [cut?_eq_none_iff, List.singleton_infix_iff]

/-- A single character is cut at where it stands first. -/
theorem eq_of_cut?_singleton {c : Char} {t a b : Text} (h : cut? [c] t = some (a, b)) :
    t = a ++ c :: b ∧ c ∉ a := by
  have hc : c ∈ t := by
    by_contra hc
    rw [cut?_singleton_eq_none_iff.mpr hc] at h
    cases h
  obtain ⟨s, rest, rfl, hs⟩ := List.eq_append_cons_of_mem hc
  rw [cut?_append_cons hs] at h
  obtain ⟨rfl, rfl⟩ := Prod.mk.inj (Option.some.inj h)
  exact ⟨rfl, hs⟩

/-- A pattern whose last character is nowhere else is found where that character stands. -/
theorem cut?_append_pattern_last {c : Char} {p s : Text} (hp : c ∉ p) (hs : c ∉ s) (t : Text) :
    cut? (p ++ [c]) (s ++ (p ++ [c]) ++ t) = some (s, t) := by
  refine cut?_eq_some_iff.mpr ⟨rfl, fun a b h => ?_⟩
  by_contra hlt
  have hshort : (a ++ (p ++ [c])).length ≤ (s ++ p).length := by
    simp only [List.length_append, List.length_singleton]
    omega
  have hpre : a ++ (p ++ [c]) <+: s ++ p :=
    List.prefix_of_prefix_length_le ⟨b, h.symm⟩ ⟨[c] ++ t, by simp⟩ hshort
  have hmem : c ∈ s ++ p := hpre.subset (by simp)
  simp [hp, hs] at hmem

/-- Characters that the pattern does not end with do not change the search before them. -/
theorem cut?_append_of_notMem_last {c : Char} {p s : Text} (hs : c ∉ s) (t : Text) :
    cut? (p ++ [c]) (t ++ s) = (cut? (p ++ [c]) t).map fun ab => (ab.1, ab.2 ++ s) := by
  cases h : cut? (p ++ [c]) t with
  | some ab => exact cut?_append h s
  | none =>
    rw [Option.map_none, cut?_eq_none_iff]
    rintro ⟨a, b, hab⟩
    have hsplit : t ++ s = (a ++ p) ++ c :: b := by rw [← hab]; simp
    rcases List.append_eq_append_iff.mp hsplit with ⟨r, -, hr⟩ | ⟨r, hr, hrest⟩
    · exact hs (by rw [hr]; simp)
    · cases r with
      | nil => exact hs (by rw [← List.nil_append s, ← hrest]; simp)
      | cons d r =>
        obtain ⟨rfl, -⟩ := List.cons.inj hrest
        exact cut?_eq_none_iff.mp h ⟨a, r, by rw [hr]; simp⟩

end BlockTemplate.Text
