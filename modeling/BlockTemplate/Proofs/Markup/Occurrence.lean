import BlockTemplate.Proofs.Markup.Position

/-!
Markers that are written in a text, whether or not they are read. Behind the first character of a
piece an angle bracket stands only if the piece starts as an inclusion does. So a marker is read
wherever it is written, unless it begins within an inclusion, or within one that is not closed
properly and reaches up to the next quotation mark.
-/
namespace BlockTemplate

open Text

/-- The byte `n` lies behind the start of the span and before its end. -/
def Span.Covers (s : Span) (n : Nat) : Prop := s.start < n ∧ n < s.stop

instance (s : Span) (n : Nat) : Decidable (s.Covers n) := inferInstanceAs (Decidable (_ ∧ _))

/-- An inclusion starts at the span that is not closed: the span ends with the next quotation mark
and no brace follows, or no quotation mark is left and the span ends with the text. -/
def Span.IsUnclosed (s : Span) (t : Text) : Prop :=
  ∃ before path mark after, t = before ++ (Token.inclusionStart ++ path ++ mark) ++ after ∧
    s = ⟨byteSize before, byteSize before + byteSize (Token.inclusionStart ++ path ++ mark)⟩ ∧
    '"' ∉ path ∧ (mark = ['"'] ∧ after.head? ≠ some '\x7d' ∨ mark = [] ∧ after = [])

namespace Token

theorem notMem_tail_of_fold {key word : Text} (hkey : fold key = word) (hword : '<' ∉ word.tail) :
    '<' ∉ key.tail := by
  intro hmem
  have hfold : Char.toLower '<' ∈ key.tail.map Char.toLower := List.mem_map_of_mem hmem
  rw [List.map_tail] at hfold
  rw [← hkey] at hword
  exact hword hfold

theorem Written.exists_eq_bracket {token : Token} {w : Text} (h : Written token w)
    (hmarker : token.markerName?.isSome) : ∃ rest, w = '<' :: rest := by
  cases h with
  | opening hword =>
    obtain ⟨rest, rfl⟩ := exists_eq_cons_of_fold (by decide) (openingWord_eq ▸ hword)
    exact ⟨_, rfl⟩
  | closing hword =>
    obtain ⟨rest, rfl⟩ := exists_eq_cons_of_fold (by decide) (closingWord_eq ▸ hword)
    exact ⟨_, rfl⟩
  | inclusion => cases hmarker
  | placeholder => cases hmarker

/-- Only in an inclusion there is an angle bracket behind the first character. -/
theorem Written.prefix_of_mem_tail {token : Token} {w : Text} (h : Written token w)
    (hmem : '<' ∈ w.tail) : inclusionStart <+: w := by
  have hmarker : ∀ {key name word : Text}, fold key = word → word ≠ [] → '<' ∉ word.tail →
      '<' ∉ name → '<' ∉ (key ++ name ++ markerEnd).tail := by
    intro key name word hkey hne hword hname
    have hkeyne : key ≠ [] := by
      rintro rfl
      exact hne hkey.symm
    have hend : '<' ∉ markerEnd := by decide
    rw [List.append_assoc, List.tail_append_of_ne_nil hkeyne]
    simp [notMem_tail_of_fold hkey hword, hname, hend]
  cases h with
  | opening hword hopen _ =>
    exact absurd hmem (hmarker hword (by decide) (by decide) hopen)
  | closing hword hopen _ =>
    exact absurd hmem (hmarker hword (by decide) (by decide) hopen)
  | inclusion _ => exact ⟨_, (List.append_assoc ..).symm⟩
  | @placeholder name _ hchars =>
    have hname : '<' ∉ name := fun hc => absurd (hchars '<' hc) (by decide)
    simp [hname] at hmem

end Token

namespace Piece

variable {t : Text} {p : Piece} {ps : List Piece} {m : Nat}

/-- Whether the text is that of an inclusion, or would be if it were closed properly. -/
def startsInclusion (p : Piece) : Bool := Token.inclusionStart.isPrefixOf p.text

theorem startsInclusion_iff : p.startsInclusion ↔ Token.inclusionStart <+: p.text :=
  List.isPrefixOf_iff_prefix

theorem take_length_takeWhile (f : Char → Bool) (t : Text) :
    t.take (t.takeWhile f).length = t.takeWhile f :=
  (List.prefix_iff_eq_take.mp (List.takeWhile_prefix f)).symm

theorem prefix_of_mem_tail_plain {c : Char} (hc : startsToken c)
    (h : c ∈ (t.take (plainLength t)).tail) :
    Token.inclusionStart <+: t.take (plainLength t) := by
  unfold plainLength at h ⊢
  cases hafter : after? Token.inclusionStart t with
  | some rest =>
    obtain rfl := after?_eq_some_iff.mp hafter
    refine List.prefix_take_iff.mpr ⟨List.prefix_append _ _, ?_⟩
    dsimp only
    omega
  | none =>
    rw [hafter] at h
    cases t with
    | nil => cases h
    | cons d t =>
      dsimp only at h
      split at h
      · simp at h
      · rw [Nat.add_comm, List.take_succ_cons, List.tail_cons, take_length_takeWhile] at h
        have hplain := List.mem_takeWhile_imp h
        simp [hc] at hplain

/-- Behind the first character of plain text no token starts, but in an inclusion that is not
closed properly. -/
theorem prefix_of_mem_tail {c : Char} (hc : startsToken c) (h : p ∈ ofText t)
    (hp : p.token = none) (hmem : c ∈ p.text.tail) : Token.inclusionStart <+: p.text := by
  obtain ⟨d, rest, rfl⟩ := exists_first_of_mem_ofText h
  unfold first at hp hmem ⊢
  split at hp
  · cases hp
  · next hnone =>
    simp only [hnone] at hmem ⊢
    exact prefix_of_mem_tail_plain hc hmem

/-- Within a piece an angle bracket is found only if the piece starts as an inclusion. -/
theorem startsInclusion_of_mem_tail (h : p ∈ ofText t) (hmem : '<' ∈ p.text.tail) :
    p.startsInclusion := by
  rw [startsInclusion_iff]
  cases hp : p.token with
  | none => exact prefix_of_mem_tail rfl h hp hmem
  | some token => exact (written_of_mem_ofText h hp).prefix_of_mem_tail hmem

/-- An inclusion that is not closed properly is taken as text up to the next quotation mark. -/
theorem text_unclosed {rest : Text} (hfirst : (first (Token.inclusionStart ++ rest)).1 = none) :
    (Token.inclusionStart ++ rest).take (first (Token.inclusionStart ++ rest)).2 =
      Token.inclusionStart ++
        (rest.takeWhile (· != '"') ++ (rest.dropWhile (· != '"')).take 1) := by
  have hlength : (first (Token.inclusionStart ++ rest)).2 = Token.inclusionStart.length +
      ((rest.takeWhile (· != '"')).length + 1) := by
    unfold first at hfirst ⊢
    split at hfirst
    · cases hfirst
    · unfold plainLength
      rw [after?_eq_some_iff.mpr rfl]
      exact Nat.add_assoc ..
  have hrest : rest.take ((rest.takeWhile (· != '"')).length + 1) =
      rest.takeWhile (· != '"') ++ (rest.dropWhile (· != '"')).take 1 := by
    rw [← List.take_length_add_append 1, List.takeWhile_append_dropWhile]
  rw [hlength, List.take_length_add_append, hrest]

/-- Such a piece ends with the quotation mark, which no brace follows, or with the whole text. -/
theorem cases_text_unclosed {back : List Piece} {body : Text}
    (h : ofText (Token.inclusionStart ++ body) = p :: back) (hp : p.token = none) :
    ∃ path mark, p.text = Token.inclusionStart ++ path ++ mark ∧ '"' ∉ path ∧
      (mark = ['"'] ∧ (textOf back).head? ≠ some '\x7d' ∨ mark = [] ∧ textOf back = []) := by
  have hcons : Token.inclusionStart ++ body = '\x7b' :: (Token.inclusionStart.tail ++ body) := by
    rw [Token.inclusionStart_eq]
    rfl
  rw [hcons, ofText_cons, ← hcons] at h
  obtain ⟨rfl, rfl⟩ := List.cons.inj h
  have htext := text_unclosed hp
  have hsplit := List.take_append_drop (first (Token.inclusionStart ++ body)).2
    (Token.inclusionStart ++ body)
  have hbody := List.takeWhile_append_dropWhile (p := (· != '"')) (l := body)
  have hquote : '"' ∉ body.takeWhile (· != '"') := by
    intro hmem
    simpa using List.mem_takeWhile_imp hmem
  rw [htext, List.append_assoc, List.append_cancel_left_eq, List.append_assoc] at hsplit
  rw [textOf_ofText]
  generalize (Token.inclusionStart ++ body).drop _ = behind at hsplit ⊢
  cases hmark : body.dropWhile (· != '"') with
  | nil =>
    rw [hmark] at htext hsplit hbody
    refine ⟨body.takeWhile (· != '"'), [], ?_, hquote, Or.inr ⟨rfl, ?_⟩⟩
    · rw [List.append_assoc]
      exact htext
    · simpa using hsplit.trans hbody.symm
  | cons c tail =>
    have hc := List.head?_dropWhile_not (· != '"') body
    rw [hmark] at hc htext hsplit
    obtain rfl : c = '"' := by simpa using hc
    refine ⟨body.takeWhile (· != '"'), ['"'], ?_, hquote, Or.inl ⟨rfl, fun hbrace => ?_⟩⟩
    · rw [List.append_assoc]
      exact htext
    · obtain ⟨rest, rfl⟩ := List.head?_eq_some_iff.mp hbrace
      have hclosed : Token.inclusionStart ++ body =
          Token.inclusionStart ++ body.takeWhile (· != '"') ++ Token.inclusionEnd ++ rest := by
        conv_lhs => rw [← hsplit]
        simp [Token.inclusionEnd]
      have hat := Token.at?_eq_some_iff.mpr ⟨_, rest, hclosed, .inclusion hquote, rfl⟩
      simp only [first, hat] at hp
      cases hp

/-- No piece covers the place where another one starts. -/
theorem not_covers_of_mem_placeFrom {x y : Piece × Span} (hx : x ∈ placeFrom m ps)
    (hy : y ∈ placeFrom m ps) : ¬ x.2.Covers y.2.start := by
  induction ps generalizing m with
  | nil => cases hx
  | cons p ps ih =>
    intro hcovers
    rcases List.mem_cons.mp hx with rfl | hxrest
    · rcases List.mem_cons.mp hy with rfl | hyrest
      · exact Nat.lt_irrefl m hcovers.1
      · have hstart := (bounds_of_mem_placeFrom hyrest).1
        exact Nat.not_lt.mpr hstart hcovers.2
    · rcases List.mem_cons.mp hy with rfl | hyrest
      · have hstart := (bounds_of_mem_placeFrom hxrest).1
        have hlt := hcovers.1
        simp only at hlt
        omega
      · exact ih hxrest hyrest hcovers

theorem mem_placeFrom_append (m : Nat) (ps : List Piece) (p : Piece) (qs : List Piece) :
    (p, ⟨m + byteSize (textOf ps), m + byteSize (textOf ps) + p.size⟩) ∈
      placeFrom m (ps ++ p :: qs) := by
  rw [placeFrom_append]
  exact List.mem_append_right _ List.mem_cons_self

/-- Each character of the pieces stands in one of them. -/
theorem exists_piece_of_textOf {before after : Text} {c : Char}
    (h : textOf ps = before ++ c :: after) :
    ∃ front p back s s', ps = front ++ p :: back ∧ before = textOf front ++ s ∧
      p.text = s ++ c :: s' ∧ after = s' ++ textOf back := by
  induction ps generalizing before with
  | nil => simp at h
  | cons p ps ih =>
    have hlater : ∀ s, before = p.text ++ s → textOf ps = s ++ c :: after →
        ∃ front q back s s', p :: ps = front ++ q :: back ∧ before = textOf front ++ s ∧
          q.text = s ++ c :: s' ∧ after = s' ++ textOf back := by
      intro s hbefore hrest
      obtain ⟨front, q, back, u, u', rfl, rfl, hq, hafter⟩ := ih hrest
      exact ⟨p :: front, q, back, u, u', rfl, by simp [hbefore], hq, hafter⟩
    rw [textOf_cons] at h
    rcases List.append_eq_append_iff.mp h with ⟨s, hbefore, hrest⟩ | ⟨s, hp, hrest⟩
    · exact hlater s hbefore hrest
    · cases s with
      | nil => exact hlater [] (by simpa using hp.symm) (by simpa using hrest.symm)
      | cons d s =>
        obtain ⟨rfl, hafter⟩ := List.cons.inj hrest
        exact ⟨[], p, ps, before, s, rfl, rfl, hp, hafter⟩

/-- A token that is written is a piece of its own, or it begins behind the start of a piece. -/
theorem placed_or_inside {token : Token} {w before after : Text} (hw : Token.Written token w)
    (ht : t = before ++ w ++ after) :
    ((⟨some token, w⟩, ⟨byteSize before, byteSize before + byteSize w⟩) ∈
        placeFrom 0 (ofText t)) ∨
      ∃ p start s u behind, (p, ⟨start, start + p.size⟩) ∈ placeFrom 0 (ofText t) ∧
        p.text = s ++ u ∧ s ≠ [] ∧ u ≠ [] ∧ byteSize before = start + byteSize s ∧
        w ++ after = u ++ behind := by
  obtain ⟨c, w', rfl, -⟩ := hw.exists_eq_cons
  have htext : textOf (ofText t) = before ++ c :: (w' ++ after) := by
    rw [textOf_ofText, ht, List.append_assoc, List.cons_append]
  obtain ⟨front, p, back, s, s', hpieces, rfl, hp, hafter⟩ := exists_piece_of_textOf htext
  have hplaced := mem_placeFrom_append 0 front p back
  rw [← hpieces, Nat.zero_add] at hplaced
  cases s with
  | nil =>
    -- The token is at the start of what is still to be read.
    left
    have hrest := (ofText_of_append hpieces).2
    have hback : textOf (p :: back) = c :: w' ++ after := by
      rw [textOf_cons, hp, List.nil_append, List.cons_append, List.cons_append, hafter]
    have hcut := ofText_written_append hw after
    rw [← hback, hrest] at hcut
    obtain ⟨rfl, -⟩ := List.cons.inj hcut
    rw [List.append_nil]
    exact hplaced
  | cons d s =>
    right
    refine ⟨p, _, d :: s, c :: s', textOf back, hplaced, hp, List.cons_ne_nil _ _,
      List.cons_ne_nil _ _, byteSize_append _ _, ?_⟩
    rw [List.cons_append, List.cons_append, hafter]

/-- A marker that is written is a piece of its own, or it begins within a piece that starts as an
inclusion does. -/
theorem placed_or_covered {token : Token} {w before after : Text} (hw : Token.Written token w)
    (hmarker : token.markerName?.isSome) (ht : t = before ++ w ++ after) :
    ((⟨some token, w⟩, ⟨byteSize before, byteSize before + byteSize w⟩) ∈
        placeFrom 0 (ofText t)) ∨
      ∃ x ∈ placeFrom 0 (ofText t), x.1.startsInclusion ∧ x.2.Covers (byteSize before) := by
  rcases placed_or_inside hw ht with hplaced | ⟨p, start, s, u, behind, hp, htext, hs, hu,
    hstart, h⟩
  · exact Or.inl hplaced
  · right
    refine ⟨_, hp, ?_, ?_⟩
    · obtain ⟨w', rfl⟩ := hw.exists_eq_bracket hmarker
      obtain ⟨c, u', rfl⟩ := List.exists_cons_of_ne_nil hu
      obtain rfl : '<' = c := (List.cons.inj h).1
      refine startsInclusion_of_mem_tail (mem_of_mem_placeFrom hp) ?_
      rw [htext, List.tail_append_of_ne_nil hs]
      simp
    · have hspos := byteSize_pos hs
      have hupos := byteSize_pos hu
      simp only [Span.Covers, size, htext, byteSize_append]
      omega

end Piece

namespace Token

variable {t w : Text} {token : Token} {span : Span}

/-- The spans of the inclusions that are not closed properly, as they are read. -/
def unclosed (t : Text) : List Span :=
  ((Piece.placeFrom 0 (Piece.ofText t)).filter fun x =>
    x.1.token.isNone && x.1.startsInclusion).map Prod.snd

theorem exists_placed_of_mem_inclusions {path : Text} (h : (path, span) ∈ inclusions t) :
    ∃ p, (p, span) ∈ Piece.placeFrom 0 (Piece.ofText t) := by
  obtain ⟨p, hp, -⟩ := Piece.mem_locateFrom_iff.mp (mem_inclusions_iff.mp h)
  exact ⟨p, hp⟩

theorem exists_placed_of_mem_unclosed (h : span ∈ unclosed t) :
    ∃ p, (p, span) ∈ Piece.placeFrom 0 (Piece.ofText t) ∧ p.token = none ∧ p.startsInclusion := by
  obtain ⟨⟨p, s⟩, hx, rfl⟩ := List.mem_map.mp h
  obtain ⟨hp, hunclosed⟩ := List.mem_filter.mp hx
  obtain ⟨hnone, hstarts⟩ := Bool.and_eq_true_iff.mp hunclosed
  exact ⟨p, hp, Option.isNone_iff_eq_none.mp hnone, hstarts⟩

/-- No token but an inclusion is written with the start of an inclusion. -/
theorem Written.eq_inclusion_of_prefix {token : Token} {w : Text} (h : Written token w)
    (hpre : inclusionStart <+: w) : ∃ path, token = .inclusion path := by
  have hbrace : ∀ {token : Token} {w : Text}, Written token w → token.markerName?.isSome →
      ¬ inclusionStart <+: w := by
    rintro token w hw hmarker ⟨rest, hrest⟩
    obtain ⟨w', rfl⟩ := hw.exists_eq_bracket hmarker
    rw [inclusionStart_eq] at hrest
    simp at hrest
  cases h with
  | opening hword hopen hclose =>
    exact absurd hpre (hbrace (.opening hword hopen hclose) rfl)
  | closing hword hopen hclose =>
    exact absurd hpre (hbrace (.closing hword hopen hclose) rfl)
  | inclusion _ => exact ⟨_, rfl⟩
  | @placeholder name _ hchars =>
    have hquote : '"' ∈ '\x7b' :: name ++ ['\x7d'] := hpre.subset (by decide)
    have hname : '"' ∉ name := fun hc => absurd (hchars '"' hc) (by decide)
    simp [hname] at hquote

/-- A piece that starts as an inclusion is one, or is not closed properly. -/
theorem mem_inclusions_or_unclosed {p : Piece}
    (h : (p, span) ∈ Piece.placeFrom 0 (Piece.ofText t)) (hp : p.startsInclusion) :
    (∃ path, (path, span) ∈ inclusions t) ∨ span ∈ unclosed t := by
  cases htoken : p.token with
  | none =>
    right
    refine List.mem_map.mpr ⟨(p, span), List.mem_filter.mpr ⟨h, ?_⟩, rfl⟩
    simp [htoken, hp]
  | some token =>
    left
    have hw := Piece.written_of_mem_ofText (Piece.mem_of_mem_placeFrom h) htoken
    obtain ⟨path, rfl⟩ := hw.eq_inclusion_of_prefix (Piece.startsInclusion_iff.mp hp)
    have hread : (Token.inclusion path, span) ∈ ofText t :=
      Piece.mem_locateFrom_iff.mpr ⟨p, h, htoken⟩
    exact ⟨path, mem_inclusions_iff.mpr hread⟩

/-- A marker is read where it is written, unless it begins within an inclusion, or within one
that is not closed properly. -/
theorem mem_ofText_iff_of_written (hw : Written token w) (hmarker : token.markerName?.isSome)
    (hspan : span.Holds t w) :
    (token, span) ∈ ofText t ↔ (∀ x ∈ inclusions t, ¬ x.2.Covers span.start) ∧
      ∀ s ∈ unclosed t, ¬ s.Covers span.start := by
  constructor
  · intro h
    obtain ⟨q, hq, -⟩ := Piece.mem_locateFrom_iff.mp h
    constructor
    · rintro ⟨path, s⟩ hs
      obtain ⟨p, hp⟩ := exists_placed_of_mem_inclusions hs
      exact Piece.not_covers_of_mem_placeFrom hp hq
    · intro s hs
      obtain ⟨p, hp, -⟩ := exists_placed_of_mem_unclosed hs
      exact Piece.not_covers_of_mem_placeFrom hp hq
  · rintro ⟨hinclusions, hunclosed⟩
    obtain ⟨before, after, ht, rfl⟩ := hspan
    rcases Piece.placed_or_covered hw hmarker ht with hplaced | ⟨⟨p, s⟩, hp, hstarts, hcovers⟩
    · exact Piece.mem_locateFrom_iff.mpr ⟨_, hplaced, rfl⟩
    · rcases mem_inclusions_or_unclosed hp hstarts with ⟨path, hpath⟩ | hs
      · exact absurd hcovers (hinclusions _ hpath)
      · exact absurd hcovers (hunclosed _ hs)

/-- The places named so hold an inclusion that is not closed. -/
theorem isUnclosed_of_mem_unclosed (h : span ∈ unclosed t) : span.IsUnclosed t := by
  obtain ⟨p, hp, hnone, hstarts⟩ := exists_placed_of_mem_unclosed h
  obtain ⟨front, back, hpieces, rfl⟩ := Piece.exists_of_mem_placeFrom hp
  have ht : t = Piece.textOf front ++ p.text ++ Piece.textOf back := by
    rw [← Piece.textOf_ofText t, hpieces]
    simp
  obtain ⟨rest, hrest⟩ := Piece.startsInclusion_iff.mp hstarts
  have hback : Piece.ofText (inclusionStart ++ (rest ++ Piece.textOf back)) = p :: back := by
    rw [← List.append_assoc, hrest]
    exact (Piece.ofText_of_append hpieces).2
  obtain ⟨path, mark, htext, hpath, hend⟩ := Piece.cases_text_unclosed hback hnone
  refine ⟨Piece.textOf front, path, mark, Piece.textOf back, htext ▸ ht, ?_, hpath, hend⟩
  simp [Piece.size, htext]

end Token
end BlockTemplate
