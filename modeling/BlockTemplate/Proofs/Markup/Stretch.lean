import BlockTemplate.Markup.Piece
import BlockTemplate.Proofs.Markup.Written

/-!
Stretches of the pieces of a text. Cutting a text between two of its pieces and cutting both
parts again gives the same pieces: nothing that is read depends on the text around it. So a
body of a region is read alone as it was read within the whole.
-/
namespace BlockTemplate.Piece

open Text

@[simp] theorem textOf_nil : textOf [] = [] := rfl

@[simp] theorem textOf_cons (p : Piece) (ps : List Piece) :
    textOf (p :: ps) = p.text ++ textOf ps := List.flatMap_cons

@[simp] theorem textOf_append (ps qs : List Piece) :
    textOf (ps ++ qs) = textOf ps ++ textOf qs := List.flatMap_append

theorem takeWhile_append_of_lt (p : Char → Bool) {s : Text} (t : Text)
    (h : ((s ++ t).takeWhile p).length < s.length) :
    (s ++ t).takeWhile p = s.takeWhile p := by
  rw [List.takeWhile_append] at h ⊢
  split at h
  · simp only [List.length_append] at h
    omega
  · next hne => rw [if_neg hne]

theorem length_takeWhile_append_le (p : Char → Bool) {s : Text} (t : Text)
    (h : ((s ++ t).takeWhile p).length ≤ s.length) :
    ((s ++ t).takeWhile p).length = (s.takeWhile p).length := by
  rw [List.takeWhile_append] at h ⊢
  split at h
  · next heq =>
    rw [if_pos heq, List.length_append]
    simp only [List.length_append] at h
    omega
  · next hne => rw [if_neg hne]

/-- The number of plain characters is found within them. -/
theorem plainLength_of_append {s t : Text} (hs : s ≠ []) (h : plainLength (s ++ t) ≤ s.length) :
    plainLength s = plainLength (s ++ t) := by
  unfold plainLength at h ⊢
  cases hwhole : after? Token.inclusionStart (s ++ t) with
  | some rest =>
    rw [hwhole] at h
    dsimp only at h
    have hst := after?_eq_some_iff.mp hwhole
    obtain ⟨r, rfl⟩ := List.prefix_of_prefix_length_le ⟨rest, hst.symm⟩ (List.prefix_append s t)
      (by omega)
    rw [List.append_assoc, List.append_cancel_left_eq] at hst
    subst hst
    rw [after?_eq_some_iff.mpr (rfl : Token.inclusionStart ++ r = Token.inclusionStart ++ r)]
    dsimp only
    rw [List.length_append] at h
    rw [takeWhile_append_of_lt _ t (by omega)]
  | none =>
    have hpart : after? Token.inclusionStart s = none := by
      cases hs : after? Token.inclusionStart s with
      | none => rfl
      | some r =>
        rw [after?_eq_some_iff] at hs
        have hlong : after? Token.inclusionStart (s ++ t) = some (r ++ t) :=
          after?_eq_some_iff.mpr (by rw [hs, List.append_assoc])
        rw [hwhole] at hlong
        cases hlong
    rw [hwhole] at h
    rw [hpart]
    obtain ⟨c, r, rfl⟩ := List.exists_cons_of_ne_nil hs
    simp only [List.cons_append] at h ⊢
    split
    · rfl
    · next hc =>
      rw [if_neg hc] at h
      simp only [List.length_cons] at h
      rw [length_takeWhile_append_le _ t (by omega)]

/-- The first piece is found within its own characters. -/
theorem first_of_append {s t : Text} (hs : s ≠ []) (h : (first (s ++ t)).2 ≤ s.length) :
    first s = first (s ++ t) := by
  unfold first at h ⊢
  cases hwhole : Token.at? (s ++ t) with
  | some found =>
    obtain ⟨token, n⟩ := found
    rw [hwhole] at h
    rw [Token.at?_of_append hwhole h]
  | none =>
    have hnone : Token.at? s = none := by
      cases hpart : Token.at? s with
      | none => rfl
      | some found =>
        obtain ⟨token, n⟩ := found
        have hlonger := Token.at?_append hpart t
        rw [hwhole] at hlonger
        cases hlonger
    rw [hwhole] at h
    rw [hnone]
    exact congrArg (Prod.mk none) (plainLength_of_append hs h)

theorem ofText_cons (c : Char) (t : Text) :
    ofText (c :: t) = ⟨(first (c :: t)).1, (c :: t).take (first (c :: t)).2⟩ ::
      ofText ((c :: t).drop (first (c :: t)).2) := by
  rw [ofText]

@[simp] theorem ofText_nil : ofText [] = [] := by
  rw [ofText]

/-- A text whose first piece has the text `w` has the pieces of the rest after it. -/
theorem ofText_append_of_first {w s : Text} (hw : w ≠ [])
    (htake : (w ++ s).take (first (w ++ s)).2 = w) :
    ofText (w ++ s) = ⟨(first (w ++ s)).1, w⟩ :: ofText s := by
  have hdrop : (w ++ s).drop (first (w ++ s)).2 = s := by
    have hsplit := List.take_append_drop (first (w ++ s)).2 (w ++ s)
    rw [htake] at hsplit
    exact List.append_cancel_left hsplit
  obtain ⟨c, w', rfl⟩ := List.exists_cons_of_ne_nil hw
  rw [List.cons_append] at htake hdrop ⊢
  rw [ofText_cons, htake, hdrop]

/-- A token that is written at the start of a text is the first piece. -/
theorem ofText_written_append {token : Token} {w : Text} (h : Token.Written token w) (t : Text) :
    ofText (w ++ t) = ⟨some token, w⟩ :: ofText t := by
  have hat : Token.at? (w ++ t) = some (token, w.length) :=
    Token.at?_eq_some_iff.mpr ⟨w, t, rfl, h, rfl⟩
  have hfirst : first (w ++ t) = (some token, w.length) := by
    rw [first, hat]
  obtain ⟨c, r, hw, -⟩ := h.exists_eq_cons
  rw [ofText_append_of_first (by simp [hw]) (by rw [hfirst]; exact List.take_left), hfirst]

/-- Each piece of a text is the first one of what is left of the text. -/
theorem exists_first_of_mem_ofText {t : Text} {p : Piece} (h : p ∈ ofText t) :
    ∃ c rest, p = ⟨(first (c :: rest)).1, (c :: rest).take (first (c :: rest)).2⟩ := by
  fun_induction ofText t with
  | case1 => cases h
  | case2 c t _ ih =>
    rcases List.mem_cons.mp h with heq | hrest
    · exact ⟨c, t, heq⟩
    · exact ih hrest

/-- A piece with a token is a way to write the token. -/
theorem written_of_mem_ofText {t : Text} {p : Piece} {token : Token} (h : p ∈ ofText t)
    (hp : p.token = some token) : Token.Written token p.text := by
  obtain ⟨c, rest, rfl⟩ := exists_first_of_mem_ofText h
  unfold first at hp ⊢
  split at hp
  · next found n hat =>
    obtain rfl := Option.some.inj hp
    obtain ⟨w, behind, ht, hw, rfl⟩ := Token.at?_eq_some_iff.mp hat
    change Token.Written found ((c :: rest).take w.length)
    rwa [ht, List.take_left]
  · cases hp

theorem notMem_of_mem_ofText {c : Char} {t : Text} {p : Piece} (ht : c ∉ t) (hp : p ∈ ofText t) :
    c ∉ p.text := by
  intro hc
  rw [← textOf_ofText t] at ht
  exact ht (List.mem_flatMap.mpr ⟨p, hp, hc⟩)

/-- Parting a text between two of its pieces parts the list of its pieces there. -/
theorem ofText_of_append {t : Text} {ps qs : List Piece} (h : ofText t = ps ++ qs) :
    ofText (textOf ps) = ps ∧ ofText (textOf qs) = qs := by
  fun_induction ofText t generalizing ps with
  | case1 =>
    obtain ⟨rfl, rfl⟩ := List.append_eq_nil_iff.mp h.symm
    exact ⟨ofText_nil, ofText_nil⟩
  | case2 c t hpos ih =>
    cases ps with
    | nil =>
      refine ⟨ofText_nil, ?_⟩
      rw [← ofText_cons, List.nil_append] at h
      rw [← h, textOf_ofText]
    | cons p ps =>
      obtain ⟨rfl, hrest⟩ := List.cons.inj h
      obtain ⟨hps, hqs⟩ := ih hrest
      refine ⟨?_, hqs⟩
      have hsplit : (c :: t).drop (first (c :: t)).2 = textOf ps ++ textOf qs := by
        rw [← textOf_append, ← textOf_ofText ((c :: t).drop _)]
        exact congrArg textOf hrest
      have htext := List.take_append_drop (first (c :: t)).2 (c :: t)
      rw [hsplit, ← List.append_assoc] at htext
      have hw : (c :: t).take (first (c :: t)).2 ≠ [] := by
        simp only [ne_eq, List.take_eq_nil_iff, List.cons_ne_nil, or_false]
        omega
      have hlen := congrArg List.length htext
      simp only [List.length_append, List.length_take] at hlen
      -- A first piece that reaches past the end takes the whole text, so that the parts after
      -- it are empty. Any other lies within the part before the cut.
      by_cases hn : (first (c :: t)).2 ≤ (c :: t).length
      · have hfirst : first ((c :: t).take (first (c :: t)).2 ++ textOf ps) = first (c :: t) := by
          conv_rhs => rw [← htext]
          refine first_of_append (List.append_ne_nil_of_left_ne_nil hw _) ?_
          rw [htext, List.length_append, List.length_take]
          omega
        have hlength : ((c :: t).take (first (c :: t)).2).length = (first (c :: t)).2 := by
          rw [List.length_take, Nat.min_eq_left hn]
        rw [textOf_cons, ofText_append_of_first hw (by rw [hfirst]; exact List.take_left' hlength),
          hfirst, hps]
      · have hwhole : (c :: t).take (first (c :: t)).2 = c :: t :=
          List.take_of_length_le (by omega)
        have hnil : textOf ps = [] := List.length_eq_zero_iff.mp (by omega)
        rw [hnil, ofText_nil] at hps
        rw [textOf_cons, ← hps, textOf_nil, List.append_nil, hwhole, ofText_cons, hwhole,
          List.drop_of_length_le (by omega), ofText_nil]

/-- Pieces that are what their own text is cut into. -/
def Stretch (ps : List Piece) : Prop := ofText (textOf ps) = ps

theorem stretch_ofText (t : Text) : Stretch (ofText t) := by
  rw [Stretch, textOf_ofText]

theorem Stretch.mem_ofText {ps : List Piece} {p : Piece} (h : Stretch ps) (hp : p ∈ ps) :
    p ∈ ofText (textOf ps) := by
  rwa [h]

theorem Stretch.left {ps qs : List Piece} (h : Stretch (ps ++ qs)) : Stretch ps :=
  (ofText_of_append h).1

theorem Stretch.right {ps qs : List Piece} (h : Stretch (ps ++ qs)) : Stretch qs :=
  (ofText_of_append h).2

theorem Stretch.of_isInfix {ps qs : List Piece} (h : Stretch qs) (hps : ps <:+: qs) :
    Stretch ps := by
  obtain ⟨before, after, rfl⟩ := hps
  exact h.left.right

end BlockTemplate.Piece
