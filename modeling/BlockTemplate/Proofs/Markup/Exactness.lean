import BlockTemplate.Proofs.Markup.Occurrence

/-!
The tokens of a text in which no inclusion starts. Such a text has no stretch that is lost: every
marker that is written in it is read, and so is every placeholder but those that stand in the name
of a marker. A placeholder that begins in a marker cannot reach past its end, because the marker
ends with an angle bracket, which no placeholder has.
-/
namespace BlockTemplate

open Text

/-- At the span stands a marker: the keyword in some case, a text without angle brackets, and the
first `-->` behind the keyword. -/
def Span.HoldsMarker (span : Span) (t word inner : Text) : Prop :=
  ∃ before key after, t = before ++ (key ++ inner ++ Token.markerEnd) ++ after ∧
    span = ⟨byteSize before, byteSize before + byteSize (key ++ inner ++ Token.markerEnd)⟩ ∧
    fold key = word ∧ '<' ∉ inner ∧ '>' ∉ inner ∧
    ∀ a b, inner ++ Token.markerEnd ++ after = a ++ Token.markerEnd ++ b →
      inner.length ≤ a.length

namespace Token

variable {t w : Text} {token : Token} {span : Span}

/-- The keyword of a marker. -/
def keyword? : Token → Option Text
  | opening _ => some openingWord
  | closing _ => some closingWord
  | _ => none

/-- A text without `>` ends at the first `-->`. -/
theorem length_le_of_notMem {inner after : Text} (hclose : '>' ∉ inner) (a b : Text)
    (h : inner ++ markerEnd ++ after = a ++ markerEnd ++ b) : inner.length ≤ a.length := by
  have hcut : cut? markerEnd (inner ++ markerEnd ++ after) = some (inner, after) :=
    cut?_append_pattern_last (p := ['-', '-']) (by decide) hclose after
  exact (cut?_eq_some_iff.mp hcut).2 a b h

theorem Written.exists_inner {word : Text} (h : Written token w)
    (hword : token.keyword? = some word) :
    ∃ key inner, w = key ++ inner ++ markerEnd ∧ fold key = word ∧ '<' ∉ inner ∧ '>' ∉ inner ∧
      token.markerName? = some (trimStart inner) := by
  cases h with
  | @opening key inner hkey hopen hclose =>
    obtain rfl := Option.some.inj hword
    exact ⟨key, inner, rfl, hkey, hopen, hclose, rfl⟩
  | @closing key inner hkey hopen hclose =>
    obtain rfl := Option.some.inj hword
    exact ⟨key, inner, rfl, hkey, hopen, hclose, rfl⟩
  | inclusion => cases hword
  | placeholder => cases hword

theorem written_of_keyword {word key inner : Text} (hword : token.keyword? = some word)
    (hkey : fold key = word) (hopen : '<' ∉ inner) (hclose : '>' ∉ inner)
    (hname : token.markerName? = some (trimStart inner)) :
    Written token (key ++ inner ++ markerEnd) := by
  cases token with
  | opening name =>
    obtain rfl := Option.some.inj hword
    obtain rfl := Option.some.inj hname
    exact .opening hkey hopen hclose
  | closing name =>
    obtain rfl := Option.some.inj hword
    obtain rfl := Option.some.inj hname
    exact .closing hkey hopen hclose
  | inclusion path => cases hword
  | placeholder name => cases hword

/-- A marker is written at a span if the text has its keyword there, and its name up to the next
`-->`. -/
theorem exists_written_iff_holdsMarker {word : Text} (hword : token.keyword? = some word) :
    (∃ w, Written token w ∧ span.Holds t w) ↔
      ∃ inner, span.HoldsMarker t word inner ∧ token.markerName? = some (trimStart inner) := by
  constructor
  · rintro ⟨w, hw, before, after, ht, hspan⟩
    obtain ⟨key, inner, rfl, hkey, hopen, hclose, hname⟩ := hw.exists_inner hword
    refine ⟨inner, ⟨before, key, after, ht, hspan, hkey, hopen, hclose, ?_⟩, hname⟩
    exact length_le_of_notMem hclose
  · rintro ⟨inner, ⟨before, key, after, ht, hspan, hkey, hopen, hclose, -⟩, hname⟩
    exact ⟨_, written_of_keyword hword hkey hopen hclose hname, before, after, ht, hspan⟩

/-- A marker ends with an angle bracket. -/
theorem Written.getLast?_marker (h : Written token w) (hmarker : token.markerName?.isSome) :
    w.getLast? = some '>' := by
  have hend : ∀ s : Text, (s ++ markerEnd).getLast? = some '>' := fun s =>
    List.getLast?_append_of_ne_nil s (by decide)
  cases h with
  | opening => exact hend _
  | closing => exact hend _
  | inclusion => cases hmarker
  | placeholder => cases hmarker

/-- Behind the first character of a token there is a brace only in a marker or an inclusion. -/
theorem Written.marker_of_brace_mem_tail (h : Written token w) (hmem : '\x7b' ∈ w.tail)
    (hinclusion : ¬ inclusionStart <+: w) : token.markerName?.isSome := by
  cases h with
  | opening => rfl
  | closing => rfl
  | inclusion => exact absurd ⟨_, (List.append_assoc ..).symm⟩ hinclusion
  | @placeholder name _ hchars =>
    have hname : '\x7b' ∉ name := fun hc => absurd (hchars _ hc) (by decide)
    simp [hname] at hmem

theorem Written.exists_placeholder_of_brace {w' : Text} (h : Written token ('\x7b' :: w'))
    (hinclusion : ¬ inclusionStart <+: '\x7b' :: w') : ∃ name, token = .placeholder name := by
  cases htoken : token.markerName? with
  | some name =>
    obtain ⟨rest, hrest⟩ := h.exists_eq_bracket (htoken ▸ rfl)
    cases hrest
  | none =>
    cases token with
    | opening name => cases htoken
    | closing name => cases htoken
    | inclusion path =>
      exact absurd ⟨_, (h.eq_of_inclusion.trans (List.append_assoc ..)).symm⟩ hinclusion
    | placeholder name => exact ⟨name, rfl⟩

/-- A placeholder that begins within a marker ends within it. -/
theorem Written.append_of_inside {name s u after behind : Text}
    (hw : Written (.placeholder name) w) (hmarker : Written token (s ++ u))
    (hsome : token.markerName?.isSome) (hu : u ≠ []) (h : w ++ after = u ++ behind) :
    ∃ r, u = w ++ r := by
  have hclose : '>' ∉ w := by
    cases hw with
    | placeholder _ hchars =>
      have hname : '>' ∉ name := fun hc => absurd (hchars _ hc) (by decide)
      simp [hname]
  have hlast := hmarker.getLast?_marker hsome
  rw [List.getLast?_append_of_ne_nil s hu] at hlast
  rcases List.append_eq_append_iff.mp h with ⟨r, hr, -⟩ | ⟨r, rfl, -⟩
  · exact ⟨r, hr⟩
  · exact absurd (List.mem_append_left r (List.mem_of_getLast? hlast)) hclose

/-- Where no inclusion starts, a token that is written is read, unless it is a placeholder within
a marker. -/
theorem mem_ofText_or_inside (hfile : ¬ inclusionStart <:+: t) (hw : Written token w)
    (hspan : span.Holds t w) :
    (token, span) ∈ ofText t ∨
      token.markerName? = none ∧ ∃ x ∈ markers t, span.Within x.2 := by
  obtain ⟨before, after, ht, rfl⟩ := hspan
  rcases Piece.placed_or_inside hw ht with hplaced | ⟨p, start, s, u, behind, hp, htext, hs, hu,
    hstart, h⟩
  · exact Or.inl (Piece.mem_locateFrom_iff.mpr ⟨_, hplaced, rfl⟩)
  · have hmem := Piece.mem_of_mem_placeFrom hp
    have hwithin : p.text <:+: t := by
      rw [← Piece.textOf_ofText t]
      exact List.infix_of_mem_flatten (List.mem_map_of_mem hmem)
    have hpstart : ¬ inclusionStart <+: p.text := fun hpre =>
      hfile (hpre.isInfix.trans hwithin)
    have hwstart : ¬ inclusionStart <+: w := fun hpre =>
      hfile (hpre.isInfix.trans ⟨before, after, ht.symm⟩)
    obtain ⟨c, w', rfl, hc⟩ := hw.exists_eq_cons
    obtain ⟨d, u', rfl⟩ := List.exists_cons_of_ne_nil hu
    obtain rfl : c = d := (List.cons.inj h).1
    have htail : c ∈ p.text.tail := by
      rw [htext, List.tail_append_of_ne_nil hs]
      simp
    have hstarts : Piece.startsToken c := by
      rcases hc with rfl | rfl <;> rfl
    cases hptoken : p.token with
    | none => exact absurd (Piece.prefix_of_mem_tail hstarts hmem hptoken htail) hpstart
    | some found =>
      have hpw := Piece.written_of_mem_ofText hmem hptoken
      rcases hc with rfl | rfl
      · exact absurd (hpw.prefix_of_mem_tail htail) hpstart
      · right
        have hmarker := hpw.marker_of_brace_mem_tail htail hpstart
        obtain ⟨name, rfl⟩ := hw.exists_placeholder_of_brace hwstart
        rw [htext] at hpw
        obtain ⟨r, hr⟩ := hw.append_of_inside hpw hmarker hu h
        refine ⟨rfl, (found, ⟨start, start + p.size⟩), mem_markers_iff.mpr ⟨?_, hmarker⟩, ?_⟩
        · exact Piece.mem_locateFrom_iff.mpr ⟨p, hp, hptoken⟩
        · simp only [Span.Within, Piece.size, htext, hr, byteSize_append] at hstart ⊢
          omega

theorem mem_ofText_iff_of_marker (hfile : ¬ inclusionStart <:+: t)
    (hmarker : token.markerName?.isSome) :
    (token, span) ∈ ofText t ↔ ∃ w, Written token w ∧ span.Holds t w := by
  refine ⟨holds_of_mem_ofText, ?_⟩
  rintro ⟨w, hw, hspan⟩
  rcases mem_ofText_or_inside hfile hw hspan with h | ⟨hnone, -⟩
  · exact h
  · rw [hnone] at hmarker
    cases hmarker

theorem mem_ofText_iff_of_placeholder (hfile : ¬ inclusionStart <:+: t) {name : Text} :
    (.placeholder name, span) ∈ ofText t ↔
      (∃ w, Written (.placeholder name) w ∧ span.Holds t w) ∧
        ∀ x ∈ markers t, ¬ span.Within x.2 := by
  constructor
  · intro h
    refine ⟨holds_of_mem_ofText h, ?_⟩
    rintro ⟨token, span'⟩ hx ⟨hstart, hstop⟩
    obtain ⟨hread, hmarker⟩ := mem_markers_iff.mp hx
    have hlt := start_lt_stop_of_mem_ofText h
    simp only at hstart hstop hlt
    have heq := eq_of_mem_ofText h hread (by simp only; omega) (by simp only; omega)
    obtain ⟨rfl, -⟩ := Prod.mk.inj heq
    cases hmarker
  · rintro ⟨⟨w, hw, hspan⟩, houtside⟩
    rcases mem_ofText_or_inside hfile hw hspan with h | ⟨-, x, hx, hwithin⟩
    · exact h
    · exact absurd hwithin (houtside x hx)

theorem inclusion_notMem_ofText (hfile : ¬ inclusionStart <:+: t) (path : Text) :
    (.inclusion path, span) ∉ ofText t := by
  intro h
  obtain ⟨w, hw, before, after, rfl, -⟩ := holds_of_mem_ofText h
  refine hfile ⟨before, path ++ inclusionEnd ++ after, ?_⟩
  rw [hw.eq_of_inclusion]
  simp

theorem opening_mem_ofText_iff (hfile : ¬ inclusionStart <:+: t) {name : Text} :
    (.opening name, span) ∈ ofText t ↔
      ∃ inner, span.HoldsMarker t openingWord inner ∧ name = trimStart inner := by
  rw [mem_ofText_iff_of_marker hfile rfl, exists_written_iff_holdsMarker rfl]
  exact exists_congr fun inner => and_congr_right fun _ => Option.some_inj

theorem closing_mem_ofText_iff (hfile : ¬ inclusionStart <:+: t) {name : Text} :
    (.closing name, span) ∈ ofText t ↔
      ∃ inner, span.HoldsMarker t closingWord inner ∧ name = trimStart inner := by
  rw [mem_ofText_iff_of_marker hfile rfl, exists_written_iff_holdsMarker rfl]
  exact exists_congr fun inner => and_congr_right fun _ => Option.some_inj

/-- The spans of markers are those at which a marker of either kind stands. -/
theorem exists_mem_markers_iff (hfile : ¬ inclusionStart <:+: t) :
    (∃ token, (token, span) ∈ markers t) ↔
      ∃ word ∈ [openingWord, closingWord], ∃ inner, span.HoldsMarker t word inner := by
  constructor
  · rintro ⟨token, h⟩
    obtain ⟨hread, hmarker⟩ := mem_markers_iff.mp h
    cases token with
    | opening name =>
      obtain ⟨inner, hinner, -⟩ := (opening_mem_ofText_iff hfile).mp hread
      exact ⟨openingWord, by simp, inner, hinner⟩
    | closing name =>
      obtain ⟨inner, hinner, -⟩ := (closing_mem_ofText_iff hfile).mp hread
      exact ⟨closingWord, by simp, inner, hinner⟩
    | inclusion path => cases hmarker
    | placeholder name => cases hmarker
  · rintro ⟨word, hword, inner, hinner⟩
    rcases List.mem_pair.mp hword with rfl | rfl
    · have hread := (opening_mem_ofText_iff hfile).mpr ⟨inner, hinner, rfl⟩
      exact ⟨_, mem_markers_iff.mpr ⟨hread, rfl⟩⟩
    · have hread := (closing_mem_ofText_iff hfile).mpr ⟨inner, hinner, rfl⟩
      exact ⟨_, mem_markers_iff.mpr ⟨hread, rfl⟩⟩

theorem exists_written_placeholder_iff {name : Text} :
    (∃ w, Written (.placeholder name) w ∧ span.Holds t w) ↔
      name ≠ [] ∧ (∀ c ∈ name, isNameChar c) ∧ span.Holds t ('\x7b' :: name ++ ['\x7d']) := by
  constructor
  · rintro ⟨w, hw, hspan⟩
    cases hw with
    | placeholder hname hchars => exact ⟨hname, hchars, hspan⟩
  · rintro ⟨hname, hchars, hspan⟩
    exact ⟨_, .placeholder hname hchars, hspan⟩

/-- Where no inclusion starts, the tokens are the markers that stand in the text and the
placeholders that stand outside of them, one behind the other, and nothing else. -/
theorem ofText_exact_of_no_inclusion (t : Text) (hfile : ¬ inclusionStart <:+: t) :
    (∀ name span, (.opening name, span) ∈ ofText t ↔
      ∃ inner, span.HoldsMarker t openingWord inner ∧ name = trimStart inner) ∧
    (∀ name span, (.closing name, span) ∈ ofText t ↔
      ∃ inner, span.HoldsMarker t closingWord inner ∧ name = trimStart inner) ∧
    (∀ name span, (.placeholder name, span) ∈ ofText t ↔
      (name ≠ [] ∧ (∀ c ∈ name, isNameChar c) ∧ span.Holds t ('\x7b' :: name ++ ['\x7d'])) ∧
        ¬ ∃ word ∈ [openingWord, closingWord], ∃ inner s,
          s.HoldsMarker t word inner ∧ span.Within s) ∧
    (∀ path span, (.inclusion path, span) ∉ ofText t) ∧
    (∀ x ∈ ofText t, x.2.start < x.2.stop) ∧
    (ofText t).Pairwise fun x y => x.2.stop ≤ y.2.start := by
  refine ⟨fun _ _ => opening_mem_ofText_iff hfile, fun _ _ => closing_mem_ofText_iff hfile, ?_,
    fun path _ => inclusion_notMem_ofText hfile path, fun _ => start_lt_stop_of_mem_ofText,
    pairwise_ofText t⟩
  intro name span
  rw [mem_ofText_iff_of_placeholder hfile, exists_written_placeholder_iff]
  refine and_congr_right fun _ => ⟨?_, ?_⟩
  · rintro houtside ⟨word, hword, inner, s, hinner, hwithin⟩
    obtain ⟨token, hx⟩ := (exists_mem_markers_iff hfile).mpr ⟨word, hword, inner, hinner⟩
    exact houtside _ hx hwithin
  · rintro houtside ⟨token, s⟩ hx hwithin
    obtain ⟨word, hword, inner, hinner⟩ := (exists_mem_markers_iff hfile).mp ⟨token, hx⟩
    exact houtside ⟨word, hword, inner, s, hinner, hwithin⟩

/-- Behind a marker that is broken off stands one with a placeholder in its name. That placeholder
is not read, and the one behind a closing keyword without an end is. -/
theorem ofText_exact_of_no_inclusion_broken_markup :
    let t := "<!--begin:a- <!--BEGIN: \x7bx\x7d---><!--end:\x7bw\x7d".toList
    ¬ inclusionStart <:+: t ∧ (.opening "\x7bx\x7d-".toList, ⟨13, 31⟩) ∈ ofText t ∧
      (.placeholder "x".toList, ⟨24, 27⟩) ∉ ofText t ∧
      (.placeholder "w".toList, ⟨39, 42⟩) ∈ ofText t := by
  intro t
  have hfile : ¬ inclusionStart <:+: t := by decide +kernel
  obtain ⟨hopening, -, hplaceholder, -⟩ := ofText_exact_of_no_inclusion t hfile
  have hmarker : Span.HoldsMarker ⟨13, 31⟩ t openingWord " \x7bx\x7d-".toList :=
    ⟨"<!--begin:a- ".toList, "<!--BEGIN:".toList, "<!--end:\x7bw\x7d".toList, by decide +kernel,
      by decide +kernel, by decide, by decide, by decide, length_le_of_notMem (by decide)⟩
  refine ⟨hfile, (hopening _ _).mpr ⟨_, hmarker, by decide +kernel⟩, fun h => ?_, ?_⟩
  · have houtside := ((hplaceholder _ _).mp h).2
    exact houtside ⟨openingWord, by simp, _, _, hmarker, by decide⟩
  · have hchars : ∀ c ∈ "w".toList, isNameChar c := by
      intro c hc
      obtain rfl : c = 'w' := List.mem_singleton.mp hc
      rfl
    refine (hplaceholder _ _).mpr ⟨⟨by decide, hchars, ?_⟩, ?_⟩
    · exact ⟨"<!--begin:a- <!--BEGIN: \x7bx\x7d---><!--end:".toList, [], by decide +kernel,
        by decide +kernel⟩
    · have hnone : ∀ x ∈ ofText t, x.1.markerName?.isSome → ¬ Span.Within ⟨39, 42⟩ x.2 := by
        decide +kernel
      rintro ⟨word, hword, inner, s, hs, hwithin⟩
      obtain ⟨token, hx⟩ := (exists_mem_markers_iff hfile).mpr ⟨word, hword, inner, hs⟩
      obtain ⟨hread, hsome⟩ := mem_markers_iff.mp hx
      exact hnone _ hread hsome hwithin

end Token
end BlockTemplate
