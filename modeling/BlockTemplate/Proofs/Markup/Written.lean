import BlockTemplate.Markup.Token
import BlockTemplate.Proofs.Text.Search
import Mathlib.Data.List.DropRight
import Mathlib.Data.List.TakeWhile

/-!
How tokens are written, as a relation between tokens and texts, and the main fact about it:
a token is read at the start of a text if and only if the text starts with a way to write it.
So what follows a token has no influence on how the token is read.
-/
namespace BlockTemplate.Token

open Text

/-- The texts that stand for a token. Two texts stand for one marker if they differ in the case
of the keyword or in the white space before the name. -/
inductive Written : Token → Text → Prop
  | opening {word name : Text} (hword : fold word = openingWord)
      (hopen : '<' ∉ name) (hclose : '>' ∉ name) :
      Written (.opening (trimStart name)) (word ++ name ++ markerEnd)
  | closing {word name : Text} (hword : fold word = closingWord)
      (hopen : '<' ∉ name) (hclose : '>' ∉ name) :
      Written (.closing (trimStart name)) (word ++ name ++ markerEnd)
  | inclusion {path : Text} (hpath : '"' ∉ path) :
      Written (.inclusion path) (inclusionStart ++ path ++ inclusionEnd)
  | placeholder {name : Text} (hname : name ≠ []) (hchars : ∀ c ∈ name, isNameChar c) :
      Written (.placeholder name) ('\x7b' :: name ++ ['\x7d'])

/-- The name of an opening marker stands in the marker. -/
theorem Written.subset_of_opening {name w : Text} (h : Written (.opening name) w) : name ⊆ w := by
  cases h with
  | @opening word key =>
    intro c hc
    have hkey : c ∈ key := List.dropWhile_subset _ hc
    simp [hkey]

/-- The name of an opening marker has no angle bracket in it and no white space in front. -/
theorem Written.name_of_opening {name w : Text} (h : Written (.opening name) w) :
    '<' ∉ name ∧ '>' ∉ name ∧ trimStart name = name := by
  cases h with
  | @opening word key _ hopen hclose =>
    have hkey : trimStart key ⊆ key := List.dropWhile_subset _
    exact ⟨fun hmem => hopen (hkey hmem), fun hmem => hclose (hkey hmem),
      List.dropWhile_idempotent _ _⟩

theorem Written.eq_of_inclusion {path w : Text} (h : Written (.inclusion path) w) :
    w = inclusionStart ++ path ++ inclusionEnd := by
  cases h
  rfl

theorem fold_append (s t : Text) : fold (s ++ t) = fold s ++ fold t := List.map_append

theorem length_fold (t : Text) : (fold t).length = t.length := List.length_map ..

theorem drop_length_takeWhile (p : Char → Bool) (t : Text) :
    t.drop (t.takeWhile p).length = t.dropWhile p := by
  calc t.drop (t.takeWhile p).length
      = (t.takeWhile p ++ t.dropWhile p).drop (t.takeWhile p).length := by
        rw [List.takeWhile_append_dropWhile]
    _ = t.dropWhile p := List.drop_left

theorem markerAt?_eq_some_iff {word t : Text} {mark : Text → Token} {token : Token} {n : Nat} :
    markerAt? word mark t = some (token, n) ↔
      ∃ key name rest, t = key ++ name ++ markerEnd ++ rest ∧ fold key = word ∧
        '<' ∉ name ∧ '>' ∉ name ∧ token = mark (trimStart name) ∧
        n = (key ++ name ++ markerEnd).length := by
  constructor
  · intro h
    simp only [markerAt?, afterWord?, Option.bind_eq_bind, Option.bind_eq_some_iff,
      Option.ite_none_right_eq_some, Option.some.injEq, Prod.mk.injEq] at h
    obtain ⟨_, ⟨hword, rfl⟩, ⟨name, rest⟩, hcut, hname, rfl, rfl⟩ := h
    have hlen : (t.take word.length).length = word.length := by
      rw [← length_fold, hword]
    have hbrackets : '<' ∉ name ∧ '>' ∉ name := by
      simp only [List.all_eq_true, Bool.and_eq_true, bne_iff_ne, ne_eq] at hname
      exact ⟨fun hm => (hname _ hm).1 rfl, fun hm => (hname _ hm).2 rfl⟩
    refine ⟨t.take word.length, name, rest, ?_, hword, hbrackets.1, hbrackets.2, rfl, ?_⟩
    · have hsplit := eq_of_cut? hcut
      calc t = t.take word.length ++ t.drop word.length := (List.take_append_drop ..).symm
        _ = _ := by rw [hsplit]; simp
    · simp only [List.length_append, hlen]
  · rintro ⟨key, name, rest, rfl, hword, hopen, hclose, rfl, rfl⟩
    have hlen : word.length = key.length := by rw [← hword, length_fold]
    have hcut : cut? markerEnd (name ++ markerEnd ++ rest) = some (name, rest) :=
      cut?_append_pattern_last (p := ['-', '-']) (by decide) hclose rest
    have hall : (name.all fun c => c != '<' && c != '>') = true := by
      simp only [List.all_eq_true, Bool.and_eq_true, bne_iff_ne, ne_eq]
      exact fun c hc => ⟨fun h => hopen (h ▸ hc), fun h => hclose (h ▸ hc)⟩
    have hafter : afterWord? word (key ++ name ++ markerEnd ++ rest) =
        some (name ++ markerEnd ++ rest) := by
      simp [afterWord?, hlen, hword]
    simp only [markerAt?, hafter, hcut, Option.bind_eq_bind, Option.bind_some, if_pos hall]
    simp [hlen, Nat.add_assoc]

theorem inclusionAt?_eq_some_iff {t : Text} {token : Token} {n : Nat} :
    inclusionAt? t = some (token, n) ↔
      ∃ path rest, t = inclusionStart ++ path ++ inclusionEnd ++ rest ∧ '"' ∉ path ∧
        token = inclusion path ∧ n = (inclusionStart ++ path ++ inclusionEnd).length := by
  constructor
  · intro h
    simp only [inclusionAt?, Option.bind_eq_bind, Option.bind_eq_some_iff, after?_eq_some_iff,
      Option.ite_none_right_eq_some, Option.some.injEq, Prod.mk.injEq,
      List.isPrefixOf_iff_prefix] at h
    obtain ⟨after, rfl, ⟨rest, hrest⟩, rfl, rfl⟩ := h
    refine ⟨after.takeWhile (· != '"'), rest, ?_, ?_, rfl, by simp [Nat.add_assoc]⟩
    · rw [List.append_assoc, List.append_assoc, hrest, drop_length_takeWhile,
        List.takeWhile_append_dropWhile]
    · intro hm
      simpa using List.mem_takeWhile_imp hm
  · rintro ⟨path, rest, rfl, hpath, rfl, rfl⟩
    have hafter : after? inclusionStart (inclusionStart ++ path ++ inclusionEnd ++ rest) =
        some (path ++ inclusionEnd ++ rest) := after?_eq_some_iff.mpr (by simp)
    have htake : (path ++ inclusionEnd ++ rest).takeWhile (· != '"') = path := by
      rw [List.append_assoc, List.takeWhile_append_of_pos]
      · simp [inclusionEnd]
      · intro c hc
        simpa using fun h : c = '"' => hpath (h ▸ hc)
    simp only [inclusionAt?, hafter, Option.bind_eq_bind, Option.bind_some, htake]
    simp [Nat.add_assoc]

theorem placeholderAt?_eq_some_iff {t : Text} {token : Token} {n : Nat} :
    placeholderAt? t = some (token, n) ↔
      ∃ name rest, t = '\x7b' :: name ++ ['\x7d'] ++ rest ∧ name ≠ [] ∧
        (∀ c ∈ name, isNameChar c) ∧ token = placeholder name ∧
        n = ('\x7b' :: name ++ ['\x7d']).length := by
  constructor
  · intro h
    simp only [placeholderAt?, Option.bind_eq_bind, Option.bind_eq_some_iff, after?_eq_some_iff,
      Option.ite_none_right_eq_some, Option.some.injEq, Prod.mk.injEq, Bool.and_eq_true,
      Bool.not_eq_true', List.isEmpty_eq_false_iff, List.isPrefixOf_iff_prefix] at h
    obtain ⟨after, rfl, ⟨hne, rest, hrest⟩, rfl, rfl⟩ := h
    refine ⟨after.takeWhile isNameChar, rest, ?_, hne, fun c hc => List.mem_takeWhile_imp hc,
      rfl, by simp⟩
    rw [List.append_assoc, hrest, drop_length_takeWhile]
    simp only [List.cons_append, List.nil_append, List.takeWhile_append_dropWhile]
  · rintro ⟨name, rest, rfl, hne, hchars, rfl, rfl⟩
    have htake : (name ++ ['\x7d'] ++ rest).takeWhile isNameChar = name := by
      rw [List.append_assoc, List.takeWhile_append_of_pos hchars]
      simp [show isNameChar '\x7d' = false by decide]
    have hafter : after? ['\x7b'] ('\x7b' :: name ++ ['\x7d'] ++ rest) =
        some (name ++ ['\x7d'] ++ rest) := after?_eq_some_iff.mpr (by simp)
    simp only [placeholderAt?, hafter, Option.bind_eq_bind, Option.bind_some, htake]
    simp [hne]

theorem openingWord_eq : openingWord = ['<', '!', '-', '-', 'b', 'e', 'g', 'i', 'n', ':'] := by
  decide

theorem closingWord_eq : closingWord = ['<', '!', '-', '-', 'e', 'n', 'd', ':'] := by
  decide

theorem inclusionStart_eq : inclusionStart = ['\x7b', 'F', 'I', 'L', 'E', ' ', '"'] := by
  decide

/-- No text starts with the keywords of both markers. -/
theorem fold_ne_closingWord {key key' s s' : Text} (h : key ++ s = key' ++ s')
    (hkey : fold key = openingWord) : fold key' ≠ closingWord := by
  intro hkey'
  have hfold := congrArg fold h
  rw [fold_append, fold_append, hkey, hkey', openingWord_eq, closingWord_eq] at hfold
  simp at hfold

/-- Only letters change when the case of a text is folded. -/
theorem eq_of_toLower_eq {c d : Char} (hd : d.toNat < 97) (h : c.toLower = d) : c = d := by
  unfold Char.toLower at h
  split at h
  · next hc =>
    have hval := congrArg (fun x : Char => x.val.toNat) h
    simp only [ge_iff_le, UInt32.le_iff_toNat_le] at hc
    have hfirst : 'A'.val.toNat = 65 := rfl
    have hlast : 'Z'.val.toNat = 90 := rfl
    have hgap : ('a'.val - 'A'.val).toNat = 32 := rfl
    have hsum : (c.val + ('a'.val - 'A'.val)).toNat = c.val.toNat + 32 := by
      rw [UInt32.toNat_add]
      omega
    have hd' : d.val.toNat = d.toNat := rfl
    dsimp only at hval
    omega
  · exact h

theorem exists_eq_cons_of_fold {key word : Text} {d : Char} (hd : d.toNat < 97)
    (h : fold key = d :: word) : ∃ rest, key = d :: rest := by
  cases key with
  | nil => cases h
  | cons c rest =>
    obtain ⟨hc, -⟩ := List.cons.inj h
    exact ⟨rest, by rw [eq_of_toLower_eq hd hc]⟩

/-- A text that starts with a brace starts with no marker. -/
theorem markerAt?_brace {word : Text} (mark : Text → Token) (t : Text) :
    markerAt? ('<' :: word) mark ('\x7b' :: t) = none := by
  cases h : markerAt? ('<' :: word) mark ('\x7b' :: t) with
  | none => rfl
  | some found =>
    obtain ⟨key, name, rest, ht, hkey, -⟩ := markerAt?_eq_some_iff.mp h
    obtain ⟨r, rfl⟩ := exists_eq_cons_of_fold (by decide) hkey
    simp at ht

/-- The name of a placeholder has no blank, so that no inclusion starts where a placeholder does. -/
theorem inclusionAt?_placeholder {name : Text} (hchars : ∀ c ∈ name, isNameChar c) (rest : Text) :
    inclusionAt? ('\x7b' :: name ++ ['\x7d'] ++ rest) = none := by
  cases h : inclusionAt? ('\x7b' :: name ++ ['\x7d'] ++ rest) with
  | none => rfl
  | some found =>
    obtain ⟨path, rest', ht, -⟩ := inclusionAt?_eq_some_iff.mp h
    rw [inclusionStart_eq] at ht
    simp only [List.cons_append, List.append_assoc, List.cons.injEq, true_and,
      List.nil_append] at ht
    have hname := congrArg (List.takeWhile isNameChar) ht
    rw [List.takeWhile_append_of_pos hchars] at hname
    simp [show isNameChar '\x7d' = false by decide, show isNameChar 'F' by decide,
      show isNameChar 'I' by decide, show isNameChar 'L' by decide,
      show isNameChar 'E' by decide, show isNameChar ' ' = false by decide] at hname
    simp [hname] at ht

/-- A token is read where a text starts that stands for it, and nowhere else. -/
theorem at?_eq_some_iff {t : Text} {token : Token} {n : Nat} :
    at? t = some (token, n) ↔ ∃ w rest, t = w ++ rest ∧ Written token w ∧ n = w.length := by
  constructor
  · intro h
    simp only [at?, Option.or_eq_some_iff, markerAt?_eq_some_iff, inclusionAt?_eq_some_iff,
      placeholderAt?_eq_some_iff] at h
    obtain ⟨key, name, rest, ht, hkey, hopen, hclose, rfl, hn⟩ |
      ⟨-, ⟨key, name, rest, ht, hkey, hopen, hclose, rfl, hn⟩ |
        ⟨-, ⟨path, rest, ht, hpath, rfl, hn⟩ | ⟨-, name, rest, ht, hne, hchars, rfl, hn⟩⟩⟩ := h
    · exact ⟨_, rest, ht, .opening hkey hopen hclose, hn⟩
    · exact ⟨_, rest, ht, .closing hkey hopen hclose, hn⟩
    · exact ⟨_, rest, ht, .inclusion hpath, hn⟩
    · exact ⟨_, rest, ht, .placeholder hne hchars, hn⟩
  · rintro ⟨w, rest, rfl, hw, rfl⟩
    cases hw with
    | @opening key name hkey hopen hclose =>
      have h : markerAt? openingWord opening (key ++ name ++ markerEnd ++ rest) = _ :=
        markerAt?_eq_some_iff.mpr ⟨key, name, rest, rfl, hkey, hopen, hclose, rfl, rfl⟩
      simp only [at?, h, Option.some_or]
    | @closing key name hkey hopen hclose =>
      have h : markerAt? closingWord closing (key ++ name ++ markerEnd ++ rest) = _ :=
        markerAt?_eq_some_iff.mpr ⟨key, name, rest, rfl, hkey, hopen, hclose, rfl, rfl⟩
      have hnone : markerAt? openingWord opening (key ++ name ++ markerEnd ++ rest) = none := by
        cases h' : markerAt? openingWord opening (key ++ name ++ markerEnd ++ rest) with
        | none => rfl
        | some found =>
          obtain ⟨key', name', rest', ht, hkey', -⟩ := markerAt?_eq_some_iff.mp h'
          simp only [List.append_assoc] at ht
          exact absurd hkey (fold_ne_closingWord ht.symm hkey')
      simp only [at?, hnone, h, Option.none_or, Option.some_or]
    | @inclusion path hpath =>
      have h := inclusionAt?_eq_some_iff.mpr ⟨path, rest, rfl, hpath, rfl, rfl⟩
      have hbrace : inclusionStart ++ path ++ inclusionEnd ++ rest =
          '\x7b' :: (inclusionStart.tail ++ path ++ inclusionEnd ++ rest) := by
        simp [inclusionStart_eq]
      have hopening : markerAt? openingWord opening _ = none :=
        markerAt?_brace opening (inclusionStart.tail ++ path ++ inclusionEnd ++ rest)
      have hclosing : markerAt? closingWord closing _ = none :=
        markerAt?_brace closing (inclusionStart.tail ++ path ++ inclusionEnd ++ rest)
      rw [← hbrace] at hopening hclosing
      simp only [at?, hopening, hclosing, h, Option.none_or, Option.some_or]
    | @placeholder name hne hchars =>
      have h := placeholderAt?_eq_some_iff.mpr ⟨name, rest, rfl, hne, hchars, rfl, rfl⟩
      have hinclusion := inclusionAt?_placeholder hchars rest
      have hopening : markerAt? openingWord opening _ = none :=
        markerAt?_brace opening (name ++ ['\x7d'] ++ rest)
      have hclosing : markerAt? closingWord closing _ = none :=
        markerAt?_brace closing (name ++ ['\x7d'] ++ rest)
      simp only [List.cons_append] at h hinclusion hopening hclosing ⊢
      simp only [at?, hopening, hclosing, hinclusion, h, Option.none_or]

/-- A token is written with an angle bracket or a brace in front. -/
theorem Written.exists_eq_cons {token : Token} {w : Text} (h : Written token w) :
    ∃ c rest, w = c :: rest ∧ (c = '<' ∨ c = '\x7b') := by
  cases h with
  | opening hword =>
    rw [openingWord_eq] at hword
    obtain ⟨rest, rfl⟩ := exists_eq_cons_of_fold (by decide) hword
    exact ⟨'<', _, rfl, Or.inl rfl⟩
  | closing hword =>
    rw [closingWord_eq] at hword
    obtain ⟨rest, rfl⟩ := exists_eq_cons_of_fold (by decide) hword
    exact ⟨'<', _, rfl, Or.inl rfl⟩
  | inclusion => exact ⟨'\x7b', _, by rw [inclusionStart_eq]; rfl, Or.inr rfl⟩
  | placeholder => exact ⟨'\x7b', _, rfl, Or.inr rfl⟩

/-- What follows a token does not change how it is read. -/
theorem at?_append {t : Text} {token : Token} {n : Nat} (h : at? t = some (token, n)) (s : Text) :
    at? (t ++ s) = some (token, n) := by
  obtain ⟨w, rest, rfl, hw, hn⟩ := at?_eq_some_iff.mp h
  exact at?_eq_some_iff.mpr ⟨w, rest ++ s, by simp, hw, hn⟩

theorem at?_of_append {t s : Text} {token : Token} {n : Nat} (h : at? (t ++ s) = some (token, n))
    (hn : n ≤ t.length) : at? t = some (token, n) := by
  obtain ⟨w, rest, ht, hw, rfl⟩ := at?_eq_some_iff.mp h
  obtain ⟨r, hr⟩ := List.prefix_of_prefix_length_le ⟨rest, ht.symm⟩ (List.prefix_append t s) hn
  exact at?_eq_some_iff.mpr ⟨w, r, hr.symm, hw, rfl⟩

end BlockTemplate.Token
