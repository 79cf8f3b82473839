import BlockTemplate.Proofs.Text.Search
import BlockTemplate.Rendering.Substitution

/-!
Substitution where it is plain to see: in a text without braces, at the first key of a text, on
both sides of a character that is in no key, and with nothing bound.
-/
namespace BlockTemplate

open Text

variable {value? : Text → Option Text} {unbound : Unbound}

theorem substitute_of_notMem {t : Text} (h : '\x7b' ∉ t) : substitute value? unbound t = t := by
  rw [substitute]
  split
  · rfl
  · next hcut => simp [cut?_of_notMem h] at hcut

/-- Up to the first key a text stays, and whether the key has a value decides what comes next. -/
theorem substitute_of_key {before key : Text} (hbefore : '\x7b' ∉ before) (hkey : '\x7d' ∉ key)
    (rest : Text) : substitute value? unbound (before ++ '\x7b' :: (key ++ '\x7d' :: rest)) =
      match value? key with
      | some value => before ++ value ++ substitute value? unbound rest
      | none =>
        if unbound = .blank ∧ Token.isVariableName key then
          before ++ substitute value? unbound rest
        else before ++ '\x7b' :: substitute value? unbound (key ++ '\x7d' :: rest) := by
  have hopen : cut? ['\x7b'] (before ++ '\x7b' :: (key ++ '\x7d' :: rest)) =
      some (before, key ++ '\x7d' :: rest) := cut?_append_cons hbefore _
  have hclose : cut? ['\x7d'] (key ++ '\x7d' :: rest) = some (key, rest) :=
    cut?_append_cons hkey rest
  conv_lhs => rw [substitute]
  split
  · next h => simp [hopen] at h
  · next a b h =>
    obtain ⟨rfl, rfl⟩ : before = a ∧ key ++ '\x7d' :: rest = b := by simpa [hopen] using h
    split
    · next h => simp [hclose] at h
    · next a b h =>
      obtain ⟨rfl, rfl⟩ : key = a ∧ rest = b := by simpa [hclose] using h
      rfl

theorem substitute_of_unbound_key {key : Text} (h : value? key = none) (hkey : '\x7d' ∉ key)
    (rest : Text) : substitute value? unbound ('\x7b' :: (key ++ '\x7d' :: rest)) =
      if unbound = .blank ∧ Token.isVariableName key then substitute value? unbound rest
      else '\x7b' :: substitute value? unbound (key ++ '\x7d' :: rest) := by
  have hfirst : substitute value? unbound ([] ++ '\x7b' :: (key ++ '\x7d' :: rest)) = _ :=
    substitute_of_key (List.not_mem_nil (a := '\x7b')) hkey rest
  rw [h] at hfirst
  exact hfirst

/-- The first placeholder of a text gives way to its value, which is not read again. -/
theorem substitute_placeholder {before key value after : Text} (hbefore : '\x7b' ∉ before)
    (hkey : '\x7d' ∉ key) (hvalue : value? key = some value) :
    substitute value? unbound (before ++ '\x7b' :: (key ++ '\x7d' :: after)) =
      before ++ value ++ substitute value? unbound after := by
  rw [substitute_of_key hbefore hkey, hvalue]

theorem substitute_of_bound_key {key value : Text} (h : value? key = some value)
    (hkey : '\x7d' ∉ key) (rest : Text) :
    substitute value? unbound ('\x7b' :: (key ++ '\x7d' :: rest)) =
      value ++ substitute value? unbound rest := by
  have hfirst : substitute value? unbound ([] ++ '\x7b' :: (key ++ '\x7d' :: rest)) = _ :=
    substitute_placeholder (List.not_mem_nil (a := '\x7b')) hkey h
  exact hfirst

/-- Without a closing brace behind the first opening brace nothing is a key. -/
theorem substitute_of_unclosed {before after : Text} (hbefore : '\x7b' ∉ before)
    (hafter : '\x7d' ∉ after) :
    substitute value? unbound (before ++ '\x7b' :: after) = before ++ '\x7b' :: after := by
  have hopen : cut? ['\x7b'] (before ++ '\x7b' :: after) = some (before, after) :=
    cut?_append_cons hbefore after
  rw [substitute]
  split
  · rfl
  · next a b h =>
    obtain ⟨rfl, rfl⟩ : before = a ∧ after = b := by simpa [hopen] using h
    split
    · rfl
    · next h => simp [cut?_of_notMem hafter] at h

/-- A text has no key, or is looked at up to the end of its first key. -/
theorem exists_key (t : Text) : '\x7b' ∉ t ∨
    ∃ before after, t = before ++ '\x7b' :: after ∧ '\x7b' ∉ before ∧
      ('\x7d' ∉ after ∨ ∃ key rest, after = key ++ '\x7d' :: rest ∧ '\x7d' ∉ key) := by
  by_cases hopen : '\x7b' ∈ t
  · obtain ⟨before, after, rfl, hbefore⟩ := List.eq_append_cons_of_mem hopen
    refine Or.inr ⟨before, after, rfl, hbefore, ?_⟩
    by_cases hclose : '\x7d' ∈ after
    · obtain ⟨key, rest, rfl, hkey⟩ := List.eq_append_cons_of_mem hclose
      exact Or.inr ⟨key, rest, rfl, hkey⟩
    · exact Or.inl hclose
  · exact Or.inl hopen

theorem substitute_of_notMem_close {t : Text} (ht : '\x7d' ∉ t) :
    substitute value? unbound t = t := by
  rcases exists_key t with hopen | ⟨before, after, rfl, hbefore, -⟩
  · exact substitute_of_notMem hopen
  · exact substitute_of_unclosed hbefore fun hafter => ht (by simp [hafter])

theorem substitute_append_of_notMem {s : Text} (hs : '\x7b' ∉ s) (t : Text) :
    substitute value? unbound (s ++ t) = s ++ substitute value? unbound t := by
  have hjoin : ∀ {u : Text}, '\x7b' ∉ u → '\x7b' ∉ s ++ u := by
    intro u hu
    simp [hs, hu]
  rcases exists_key t with ht | ⟨before, after, rfl, hbefore, hafter | ⟨key, rest, rfl, hkey⟩⟩
  · rw [substitute_of_notMem ht, substitute_of_notMem (hjoin ht)]
  · rw [substitute_of_unclosed hbefore hafter, ← List.append_assoc,
      substitute_of_unclosed (hjoin hbefore) hafter, List.append_assoc]
  · rw [substitute_of_key hbefore hkey, ← List.append_assoc, substitute_of_key (hjoin hbefore) hkey]
    split
    · simp
    · split <;> simp

/-- The character is no brace, and no key that it is in has a value or is the name of a
placeholder. -/
structure InNoKey (value? : Text → Option Text) (c : Char) : Prop where
  ne_open : c ≠ '\x7b'
  ne_close : c ≠ '\x7d'
  notName : Token.isNameChar c = false
  noValue : ∀ key, c ∈ key → value? key = none

namespace InNoKey

variable {c : Char} (h : InNoKey value? c)

include h

theorem substitute_append_of_notMem_open {s : Text} (hs : '\x7b' ∉ s) (t : Text) :
    substitute value? unbound (s ++ c :: t) = s ++ c :: substitute value? unbound t := by
  have hpass : '\x7b' ∉ s ++ [c] := by simp [hs, Ne.symm h.ne_open]
  rw [List.append_cons, substitute_append_of_notMem hpass, ← List.append_cons]

/-- An opening brace before the character stays, even if a closing one stands behind it. -/
theorem substitute_append_of_notMem_close {s : Text} (hs : '\x7d' ∉ s) (t : Text) :
    substitute value? unbound (s ++ c :: t) = s ++ c :: substitute value? unbound t := by
  induction hn : s.length using Nat.strong_induction_on generalizing s with
  | h n ih =>
    rcases exists_key s with hplain | ⟨before, after, rfl, hbefore, -⟩
    · exact h.substitute_append_of_notMem_open hplain t
    · have hafter : '\x7d' ∉ after := fun hmem => hs (by simp [hmem])
      have hlt : after.length < n := by
        simp only [List.length_append, List.length_cons] at hn
        omega
      have hrest := ih after.length hlt hafter rfl
      rw [List.append_assoc, List.append_assoc, List.cons_append, List.cons_append]
      by_cases ht : '\x7d' ∈ t
      · -- The key behind the brace reaches over the character.
        obtain ⟨key, rest, rfl, hkey⟩ := List.eq_append_cons_of_mem ht
        have hlonger : after ++ c :: (key ++ '\x7d' :: rest) =
            (after ++ c :: key) ++ '\x7d' :: rest := by simp
        have hmem : c ∈ after ++ c :: key := by simp
        have hunclosed : '\x7d' ∉ after ++ c :: key := by simp [hafter, hkey, Ne.symm h.ne_close]
        have hblank : ¬ (unbound = .blank ∧ Token.isVariableName (after ++ c :: key)) := by
          simp [Token.isVariableName, h.notName]
        rw [← hrest, hlonger, substitute_of_key hbefore hunclosed, h.noValue _ hmem]
        exact if_neg hblank
      · have hunclosed : '\x7d' ∉ after ++ c :: t := by simp [hafter, ht, Ne.symm h.ne_close]
        rw [substitute_of_unclosed hbefore hunclosed, substitute_of_notMem_close ht]

/-- Substitution starts afresh behind the character. -/
theorem substitute_append (s t : Text) : substitute value? unbound (s ++ c :: t) =
    substitute value? unbound s ++ c :: substitute value? unbound t := by
  induction hn : s.length using Nat.strong_induction_on generalizing s with
  | h n ih =>
    rcases exists_key s with hs | ⟨before, after, rfl, hbefore, hafter | ⟨key, rest, rfl, hkey⟩⟩
    · rw [substitute_of_notMem hs, h.substitute_append_of_notMem_open hs]
    · have hclose : '\x7d' ∉ '\x7b' :: after := by simp [hafter]
      rw [List.append_assoc, substitute_append_of_notMem hbefore,
        h.substitute_append_of_notMem_close hclose, substitute_of_unclosed hbefore hafter]
      simp
    · have hlt : (key ++ '\x7d' :: rest).length < n ∧ rest.length < n := by
        simp only [List.length_append, List.length_cons] at hn ⊢
        omega
      have hwhole : before ++ '\x7b' :: (key ++ '\x7d' :: rest) ++ c :: t =
          before ++ '\x7b' :: (key ++ '\x7d' :: (rest ++ c :: t)) := by simp
      have hrest := ih _ hlt.2 rest rfl
      have hinner := ih _ hlt.1 (key ++ '\x7d' :: rest) rfl
      rw [List.append_assoc, List.cons_append] at hinner
      rw [hwhole, substitute_of_key hbefore hkey, substitute_of_key hbefore hkey]
      split
      · simp [hrest]
      · split
        · simp [hrest]
        · simp [hinner]

end InNoKey

/-- A character that comes with no value comes from the text itself. -/
theorem notMem_substitute {c : Char} (hvalue : ∀ key value, value? key = some value → c ∉ value)
    {t : Text} (ht : c ∉ t) : c ∉ substitute value? unbound t := by
  induction hn : t.length using Nat.strong_induction_on generalizing t with
  | h n ih =>
    rcases exists_key t with h | ⟨before, after, rfl, hbefore, hafter | ⟨key, rest, rfl, hkey⟩⟩
    · rwa [substitute_of_notMem h]
    · rwa [substitute_of_unclosed hbefore hafter]
    · have hlt : (key ++ '\x7d' :: rest).length < n ∧ rest.length < n := by
        simp only [List.length_append, List.length_cons] at hn ⊢
        omega
      have hparts : c ∉ before ∧ c ≠ '\x7b' ∧ c ∉ key ++ '\x7d' :: rest := by simpa using ht
      have hrest : c ∉ rest := fun h => hparts.2.2 (by simp [h])
      have hafter := ih _ hlt.1 hparts.2.2 rfl
      have hbehind := ih _ hlt.2 hrest rfl
      rw [substitute_of_key hbefore hkey]
      split
      · next value hsome => simp [hparts.1, hvalue _ _ hsome, hbehind]
      · split
        · simp [hparts.1, hbehind]
        · simp [hparts.1, hparts.2.1, hafter]

/-- With nothing bound and unbound placeholders kept, a text stays as it is. -/
theorem substitute_of_unbound (h : ∀ key, value? key = none) (t : Text) :
    substitute value? .keep t = t := by
  induction hn : t.length using Nat.strong_induction_on generalizing t with
  | h n ih =>
    rw [substitute]
    split
    · rfl
    · next before after hopen =>
      have hlt : after.length < n := hn ▸ length_lt_of_cut? (List.cons_ne_nil _ _) hopen
      split
      · rfl
      · simp [h, ih _ hlt after rfl, eq_of_cut? hopen]

end BlockTemplate
