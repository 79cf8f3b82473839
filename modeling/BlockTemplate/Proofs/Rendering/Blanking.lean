import BlockTemplate.Proofs.Rendering.Placeholders

/-!
Texts without their placeholders, which is what substitution leaves of them if nothing is bound and
unbound placeholders are left out. Wherever a placeholder is written it goes, in the path of an
inclusion too, but no placeholder reaches from one piece of a text into the next. So the pieces
lose their placeholders each on its own.
-/
namespace BlockTemplate

open Text

variable {value? : Text → Option Text} {unbound : Unbound}

/-- No placeholder is written in the text. -/
def Bare (t : Text) : Prop := ∀ name w, Token.Written (.placeholder name) w → ¬ w <:+: t

/-- The second text is the first one without the placeholders that are written in it. -/
inductive Bared : Text → Text → Prop
  | nil : Bared [] []
  | kept {c : Char} {t u : Text}
      (hc : ∀ name w, Token.Written (.placeholder name) w → ¬ w <+: c :: t) (h : Bared t u) :
      Bared (c :: t) (c :: u)
  | removed {name w t u : Text} (hw : Token.Written (.placeholder name) w) (h : Bared t u) :
      Bared (w ++ t) u

/-- Every text can be read from left to right for its placeholders. -/
theorem exists_bared (t : Text) : ∃ u, Bared t u := by
  induction hn : t.length using Nat.strong_induction_on generalizing t with
  | h n ih =>
    by_cases hstart : ∃ name w, Token.Written (.placeholder name) w ∧ w <+: t
    · obtain ⟨name, w, hw, rest, rfl⟩ := hstart
      have hlt : rest.length < n := by
        obtain ⟨c, w', rfl, -⟩ := hw.exists_eq_cons
        simp only [List.cons_append, List.length_cons, List.length_append] at hn
        omega
      obtain ⟨u, hu⟩ := ih _ hlt rest rfl
      exact ⟨u, .removed hw hu⟩
    · cases t with
      | nil => exact ⟨[], .nil⟩
      | cons c t =>
        obtain ⟨u, hu⟩ := ih _ (hn ▸ Nat.lt_succ_self _) t rfl
        exact ⟨c :: u, .kept (fun name w hw hpre => hstart ⟨name, w, hw, hpre⟩) hu⟩

/-- With nothing bound and unbound placeholders left out, substitution takes them out. -/
theorem Bared.substitute_eq (h : ∀ key, value? key = none) {t u : Text} (ht : Bared t u) :
    substitute value? .blank t = u := by
  induction ht with
  | nil => exact substitute_of_notMem List.not_mem_nil
  | kept hc _ ih => rw [substitute_cons (by simp [h]) hc, ih]
  | removed hw _ ih => rw [substitute_written hw, replacement, h, ih, if_pos rfl, List.nil_append]

theorem Bared.sublist {t u : Text} (h : Bared t u) : u.Sublist t := by
  induction h with
  | nil => exact List.Sublist.refl []
  | kept _ _ ih => exact ih.cons_cons _
  | removed _ _ ih => exact ih.trans (List.sublist_append_right _ _)

/-- Taking out placeholders leaves a text alone if none is written in it, and only then. -/
theorem Bared.eq_iff {t u : Text} (h : Bared t u) : u = t ↔ Bare t := by
  induction h with
  | nil =>
    refine iff_of_true rfl fun name w hw hinfix => ?_
    obtain ⟨c, w', rfl, -⟩ := hw.exists_eq_cons
    simp at hinfix
  | @kept c t u hc h ih =>
    rw [List.cons_inj_right, ih]
    refine forall₃_congr fun name w hw => ?_
    rw [List.infix_cons_iff, not_or]
    exact (and_iff_right (hc name w hw)).symm
  | @removed name w t u hw h ih =>
    refine iff_of_false (fun heq => ?_) fun hbare => hbare name w hw (List.infix_append [] w t)
    have hlen := h.sublist.length_le
    obtain ⟨c, w', rfl, -⟩ := hw.exists_eq_cons
    have htext := congrArg List.length heq
    simp only [List.cons_append, List.length_cons, List.length_append] at htext
    omega

/-- A text that has a character of no placeholder decides alone which placeholder it starts with. -/
theorem prefix_of_prefix_append {d : Char} {v y s : Text} (h : v <+: y ++ s) (hy : d ∈ y)
    (hv : d ∉ v) : v <+: y := by
  rcases List.prefix_or_prefix_of_prefix h (List.prefix_append y s) with hpre | hpre
  · exact hpre
  · exact absurd (hpre.subset hy) hv

/-- If no placeholder reaches from one text into the next, both are read alone. -/
theorem Bared.append {s t u v : Text} (hs : Bared s u) (ht : Bared t v)
    (hst : ∀ name w y, Token.Written (.placeholder name) w → y <:+ s → y ≠ [] → w <+: y ++ t →
      w <+: y) : Bared (s ++ t) (u ++ v) := by
  induction hs with
  | nil => exact ht
  | @kept c s u hc _ ih =>
    refine .kept (fun name w hw hpre => ?_) (ih fun name w y hw hy => ?_)
    · exact hc name w hw (hst name w _ hw List.suffix_rfl (List.cons_ne_nil c s) hpre)
    · exact hst name w y hw (hy.trans (List.suffix_cons c s))
  | @removed name w s u hw _ ih =>
    rw [List.append_assoc]
    refine .removed hw (ih fun name w' y hw' hy => ?_)
    exact hst name w' y hw' (hy.trans (List.suffix_append w s))

namespace Token

theorem Written.exists_placeholder {name w : Text} (h : Written (.placeholder name) w) :
    ∃ rest, w = '\x7b' :: rest ∧ '"' ∉ w ∧ '>' ∉ w := by
  cases h with
  | placeholder hne hchars =>
    refine ⟨name ++ ['\x7d'], rfl, ?_, ?_⟩
    · have hname : '"' ∉ name := fun hc => absurd (hchars _ hc) (by decide)
      simp [hname]
    · have hname : '>' ∉ name := fun hc => absurd (hchars _ hc) (by decide)
      simp [hname]

theorem mem_of_suffix_append {d : Char} {x y : Text} (h : y <:+ x ++ [d]) (hy : y ≠ []) :
    d ∈ y := by
  rcases List.suffix_concat_iff.mp h with rfl | ⟨t, rfl, -⟩
  · exact absurd rfl hy
  · simp

/-- Behind a brace within a token there is a character that no placeholder has. -/
theorem Written.mem_of_suffix_tail {token : Token} {w y : Text} (h : Written token w)
    (hy : '\x7b' :: y <:+ w.tail) : '"' ∈ y ∨ '>' ∈ y := by
  have hsuffix := hy.trans (List.tail_suffix w)
  cases h with
  | @opening key name =>
    have hmem := mem_of_suffix_append (x := key ++ name ++ ['-', '-']) (d := '>')
      (by simpa [markerEnd] using hsuffix) (List.cons_ne_nil _ _)
    exact Or.inr (by simpa using hmem)
  | @closing key name =>
    have hmem := mem_of_suffix_append (x := key ++ name ++ ['-', '-']) (d := '>')
      (by simpa [markerEnd] using hsuffix) (List.cons_ne_nil _ _)
    exact Or.inr (by simpa using hmem)
  | @inclusion path =>
    have hend : inclusionStart ++ path ++ inclusionEnd =
        (inclusionStart ++ path ++ ['"']) ++ ['\x7d'] := by
      simp [inclusionEnd]
    rw [hend] at hsuffix
    rcases List.suffix_concat_iff.mp hsuffix with hnil | ⟨s, hs, hsuffix⟩
    · cases hnil
    · have hne : s ≠ [] := by
        rintro rfl
        simp at hs
      have hmem : '"' ∈ '\x7b' :: y := by
        rw [hs]
        simp [mem_of_suffix_append hsuffix hne]
      exact Or.inl (by simpa using hmem)
  | @placeholder name _ hchars =>
    have hmem : '\x7b' ∈ name ++ ['\x7d'] := hy.subset List.mem_cons_self
    have hname : '\x7b' ∉ name := fun hc => absurd (hchars _ hc) (by decide)
    simp [hname] at hmem

end Token

namespace Piece

/-- Behind a brace within a piece of plain text there is a quotation mark, or nothing is read
after the piece. -/
theorem mem_of_suffix_plain {t y : Text} {p : Piece} {ps : List Piece} (h : ofText t = p :: ps)
    (hp : p.token = none) (hy : '\x7b' :: y <:+ p.text.tail) : '"' ∈ y ∨ textOf ps = [] := by
  have hmem : p ∈ ofText t := h ▸ List.mem_cons_self
  obtain ⟨rest, hrest⟩ := prefix_of_mem_tail rfl hmem hp (hy.subset List.mem_cons_self)
  have ht : t = Token.inclusionStart ++ (rest ++ textOf ps) := by
    rw [← textOf_ofText t, h, textOf_cons, ← hrest, List.append_assoc]
  rw [ht] at h
  obtain ⟨path, mark, htext, -, ⟨rfl, -⟩ | ⟨-, hback⟩⟩ := cases_text_unclosed h hp
  · left
    have hsuffix := hy.trans (List.tail_suffix p.text)
    rw [htext] at hsuffix
    simpa using Token.mem_of_suffix_append hsuffix (List.cons_ne_nil _ _)
  · exact Or.inr hback

/-- No placeholder reaches from one piece into the next. -/
theorem prefix_of_prefix_append_textOf {t name w y : Text} {p : Piece} {ps : List Piece}
    (h : ofText t = p :: ps) (hw : Token.Written (.placeholder name) w) (hy : y <:+ p.text)
    (hne : y ≠ []) (hpre : w <+: y ++ textOf ps) : w <+: y := by
  obtain ⟨rest, hbrace, hquote, hangle⟩ := hw.exists_placeholder
  obtain ⟨c, y', rfl⟩ := List.exists_cons_of_ne_nil hne
  obtain rfl : c = '\x7b' := by
    rw [hbrace, List.cons_append, List.cons_prefix_cons] at hpre
    exact hpre.1.symm
  cases htext : p.text with
  | nil =>
    rw [htext] at hy
    simp at hy
  | cons d tail =>
    rw [htext] at hy
    rcases List.suffix_cons_iff.mp hy with heq | htail
    · -- A placeholder at the start of a piece is the token that is read there.
      obtain ⟨r, hr⟩ := hpre
      have ht : t = w ++ r := by
        rw [hr, heq, ← htext, ← textOf_cons, ← h, textOf_ofText]
      rw [ht, ofText_written_append hw] at h
      obtain ⟨rfl, -⟩ := List.cons.inj h
      rw [heq, ← htext]
    · have hend : '"' ∈ y' ∨ '>' ∈ y' ∨ textOf ps = [] := by
        have hsuffix : '\x7b' :: y' <:+ p.text.tail := by rwa [htext]
        cases htoken : p.token with
        | some token =>
          have hwritten := written_of_mem_ofText (h ▸ List.mem_cons_self) htoken
          rcases hwritten.mem_of_suffix_tail hsuffix with hmem | hmem
          · exact Or.inl hmem
          · exact Or.inr (Or.inl hmem)
        | none =>
          rcases mem_of_suffix_plain h htoken hsuffix with hmem | hnil
          · exact Or.inl hmem
          · exact Or.inr (Or.inr hnil)
      rcases hend with hmem | hmem | hnil
      · exact prefix_of_prefix_append hpre (List.mem_cons_of_mem _ hmem) hquote
      · exact prefix_of_prefix_append hpre (List.mem_cons_of_mem _ hmem) hangle
      · rwa [hnil, List.append_nil] at hpre

/-- The placeholders of a text are taken out piece by piece. -/
theorem bared_textOf {ps : List Piece} (h : Stretch ps) {shown : Piece → Text}
    (hshown : ∀ p ∈ ps, Bared p.text (shown p)) : Bared (textOf ps) (ps.flatMap shown) := by
  induction ps with
  | nil => exact .nil
  | cons p ps ih =>
    obtain ⟨hp, hps⟩ := List.forall_mem_cons.mp hshown
    have hrest : Stretch ([p] ++ ps) := h
    rw [textOf_cons, List.flatMap_cons]
    exact hp.append (ih hrest.right hps) fun name w y hw hy hne hpre =>
      prefix_of_prefix_append_textOf h hw hy hne hpre

end Piece

theorem bare_of_notMem {c : Char} (hc : c = '\x7b' ∨ c = '\x7d') {t : Text} (h : c ∉ t) :
    Bare t := by
  intro name w hw hwithin
  refine h (hwithin.subset ?_)
  cases hw with
  | placeholder => rcases hc with rfl | rfl <;> simp

theorem bared_of_bare {t : Text} (h : Bare t) : Bared t t := by
  obtain ⟨u, hu⟩ := exists_bared t
  rwa [hu.eq_iff.mpr h] at hu

/-- Of an inclusion the placeholders in its path are taken out and nothing else. -/
theorem Bared.inclusion {path path' : Text} (h : Bared path path') :
    Bared (Token.inclusionStart ++ path ++ Token.inclusionEnd)
      (Token.inclusionStart ++ path' ++ Token.inclusionEnd) := by
  have hstart : Bared Token.inclusionStart Token.inclusionStart :=
    bared_of_bare (bare_of_notMem (Or.inr rfl) (by decide))
  have hend : Bared Token.inclusionEnd Token.inclusionEnd :=
    bared_of_bare (bare_of_notMem (Or.inl rfl) (by decide))
  refine Bared.append (hstart.append h ?_) hend ?_
  · intro name w y hw hy hne hpre
    obtain ⟨-, -, hquote, -⟩ := hw.exists_placeholder
    have hmem : '"' ∈ y := Token.mem_of_suffix_append (x := ['\x7b', 'F', 'I', 'L', 'E', ' '])
      (by rwa [Token.inclusionStart_eq] at hy) hne
    exact prefix_of_prefix_append hpre hmem hquote
  · intro name w y hw hy hne hpre
    obtain ⟨-, -, hquote, -⟩ := hw.exists_placeholder
    have hlonger : w <+: y ++ ['"'] := by
      have hsplit : y ++ Token.inclusionEnd = y ++ ['"'] ++ ['\x7d'] := by
        simp [Token.inclusionEnd]
      rw [hsplit] at hpre
      exact prefix_of_prefix_append hpre (by simp) hquote
    rcases List.prefix_concat_iff.mp hlonger with rfl | hpre
    · simp at hquote
    · exact hpre

end BlockTemplate
