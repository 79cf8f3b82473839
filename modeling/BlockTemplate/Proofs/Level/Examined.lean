import BlockTemplate.Proofs.Level.Matching
import BlockTemplate.Proofs.Level.Slices

/-!
What becomes of the opening markers that the scan of a level examines, which are those that are in
the body of no region. The piece of such a marker is the first one of a part, and what is behind
the part is a level again. So the marker begins a region up to the closing marker that ends it, or
it has no end and is left as text.
-/
namespace BlockTemplate

open Text Token

namespace Level

variable {mode : MatchMode} {name : Text} {t : Text} {level : Level} {span : Span}
  {before after : List (Token × Span)}

/-- The scan does not pass over the marker: it is in the body of no region. -/
def Examines (level : Level) (span : Span) : Prop :=
  ∀ x ∈ level.regions, ¬ span.Within (x.1.bodySpan x.2.start)

instance (level : Level) (span : Span) : Decidable (level.Examines span) :=
  inferInstanceAs (Decidable (∀ x ∈ level.regions, ¬ span.Within (x.1.bodySpan x.2.start)))

/-- The level has a region of the name from one marker to another. -/
def HasRegion (level : Level) (name : Text) (opening closing : Span) : Prop :=
  ∃ r, (r, ⟨opening.start, closing.stop⟩) ∈ level.regions ∧ r.name = name ∧
    r.bodySpan opening.start = ⟨opening.stop, closing.start⟩

theorem exists_of_ofPieces_eq_cons {ps : List Piece} {part : Part}
    (h : ofPieces mode ps = part :: level) : ∃ qs, ofPieces mode qs = level := by
  revert h
  fun_cases ofPieces mode ps with
  | case1 =>
    intro h
    cases h
  | case2 _ _ _ _ c =>
    intro h
    exact ⟨c.rest, (List.cons.inj h).2⟩
  | case3 _ ps =>
    intro h
    exact ⟨ps, (List.cons.inj h).2⟩
  | case4 _ ps =>
    intro h
    exact ⟨ps, (List.cons.inj h).2⟩

/-- What is behind the first parts of a level is the level of its own pieces. -/
theorem ofPieces_flatMap_pieces {ps : List Piece} {first : Level}
    (h : ofPieces mode ps = first ++ level) :
    ofPieces mode (level.flatMap Part.pieces) = level := by
  induction first generalizing ps with
  | nil =>
    rw [List.nil_append] at h
    rw [← h, flatMap_pieces_ofPieces]
  | cons part first ih =>
    obtain ⟨qs, hqs⟩ := exists_of_ofPieces_eq_cons h
    exact ih hqs

/-- Each of the pieces of a level is a piece of one of its parts. -/
theorem exists_part_of_flatMap_pieces {front back : List Piece} {p : Piece}
    (h : level.flatMap Part.pieces = front ++ p :: back) :
    ∃ first part behind inside outside, level = first ++ part :: behind ∧
      front = first.flatMap Part.pieces ++ inside ∧ part.pieces = inside ++ p :: outside ∧
      back = outside ++ behind.flatMap Part.pieces := by
  induction level generalizing front with
  | nil => exact absurd h.symm (by simp)
  | cons part rest ih =>
    have hlater : ∀ front', front = part.pieces ++ front' →
        rest.flatMap Part.pieces = front' ++ p :: back → ∃ first part' behind inside outside,
          part :: rest = first ++ part' :: behind ∧
          front = first.flatMap Part.pieces ++ inside ∧ part'.pieces = inside ++ p :: outside ∧
          back = outside ++ behind.flatMap Part.pieces := by
      rintro front' rfl hrest
      obtain ⟨first, part', behind, inside, outside, rfl, rfl, hpart, hback⟩ := ih hrest
      exact ⟨part :: first, part', behind, inside, outside, rfl, by simp, hpart, hback⟩
    rw [List.flatMap_cons] at h
    rcases List.append_eq_append_iff.mp h with ⟨front', hfront, hrest⟩ | ⟨inside, hpart, hback⟩
    · exact hlater front' hfront hrest
    · cases inside with
      | nil => exact hlater [] (by simpa using hpart.symm) hback.symm
      | cons q outside =>
        obtain ⟨rfl, hrest⟩ := List.cons.inj hback
        exact ⟨[], part, rest, front, outside, rfl, rfl, hpart, hrest⟩

/-- An opening marker behind that of a region, and before the end of the region, is in its body. -/
theorem within_bodySpan {r : Region} {p : Piece} {inside outside : List Piece}
    (hr : Part.region r ∈ ofText mode t) (hp : p.token = some (.opening name))
    (hbody : r.body ++ [r.closing] = inside ++ p :: outside) {m : Nat}
    (hspan : span = ⟨m + byteSize (Piece.textOf (r.opening :: inside)),
      m + byteSize (Piece.textOf (r.opening :: inside)) + p.size⟩) :
    span.Within (r.bodySpan m) := by
  rcases List.eq_nil_or_concat' outside with rfl | ⟨outside, last, rfl⟩
  · obtain ⟨-, hclosing⟩ := List.append_inj' hbody rfl
    obtain rfl : r.closing = p := List.singleton_inj.mp hclosing
    obtain ⟨n, htoken, -⟩ := token_closing hr
    cases hp.symm.trans htoken
  · obtain ⟨hinside, -⟩ := List.append_inj'
      (hbody.trans (List.append_assoc inside (p :: outside) [last]).symm) rfl
    rw [hspan]
    simp only [Span.Within, Region.bodySpan, Region.bodyText, hinside, Piece.textOf_append,
      Piece.textOf_cons, byteSize_append, Piece.size]
    omega

/-- A closing marker that is found makes a region of the level. -/
theorem hasRegion_of_find? {p : Piece} {ps : List Piece} {c : Closing} {m : Nat}
    (hfind : Closing.find? mode name ps = some c)
    (h : (.region ⟨name, p, c.body, c.marker⟩, ⟨m, m + byteSize (Region.text
      ⟨name, p, c.body, c.marker⟩)⟩) ∈ level.locate) :
    ∃ inner x rest, Piece.markersFrom (m + p.size) ps = inner ++ x :: rest ∧
      mode.Ends name inner x rest ∧ level.HasRegion name ⟨m, m + p.size⟩ x.2 := by
  obtain ⟨x, rest, hmarkers, hstart, hstop, hends⟩ := Closing.ends_of_find? hfind (m + p.size)
  refine ⟨_, x, rest, hmarkers, hends, ⟨name, p, c.body, c.marker⟩,
    mem_regions_of_mem_locate ?_, rfl, ?_⟩
  · have hregion : x.2.stop = m + byteSize (Region.text ⟨name, p, c.body, c.marker⟩) := by
      rw [hstop, hstart]
      simp only [Region.text, Region.bodyText, Piece.size, byteSize_append]
      omega
    rw [hregion]
    exact h
  · rw [hstart]
    rfl

/-- An opening marker that is in the body of no region begins one, or it has no end. -/
theorem hasRegion_or_unterminated (h : Token.markers t = before ++ (.opening name, span) :: after)
    (hexamined : (ofText mode t).Examines span) :
    (∃ inner x rest, after = inner ++ x :: rest ∧ mode.Ends name inner x rest ∧
        (ofText mode t).HasRegion name span x.2) ∨
      (mode.NeverEnds name after ∧ (name, span) ∈ (ofText mode t).unterminated) := by
  obtain ⟨front, p, back, hpieces, hp, hspan, hback⟩ := Piece.exists_of_markersFrom_eq h
  rw [← flatMap_pieces_ofPieces mode (Piece.ofText t)] at hpieces
  obtain ⟨first, part, behind, inside, outside, hlevel, rfl, hpart, rfl⟩ :=
    exists_part_of_flatMap_pieces hpieces
  have hlocate := mem_locate_append_cons first part behind
  rw [← hlevel, ← textOf_flatMap_pieces] at hlocate
  have hbehind := ofPieces_flatMap_pieces hlevel
  simp only [Nat.zero_add, Piece.textOf_append, byteSize_append] at hspan
  generalize byteSize (Piece.textOf (first.flatMap Part.pieces)) = start at hspan hlocate
  cases inside with
  | nil =>
    -- the marker is the first piece of the part
    obtain rfl : span = ⟨start, start + p.size⟩ := hspan
    rw [List.flatMap_cons, hpart, List.nil_append, List.cons_append] at hbehind
    cases hfind : Closing.find? mode name (outside ++ behind.flatMap Part.pieces) with
    | some c =>
      rw [ofPieces_cons_of_find? hp hfind] at hbehind
      obtain ⟨rfl, -⟩ := List.cons.inj hbehind
      rw [← hback]
      exact Or.inl (hasRegion_of_find? hfind hlocate)
    | none =>
      rw [ofPieces_cons_of_find?_eq_none hp hfind] at hbehind
      obtain ⟨rfl, -⟩ := List.cons.inj hbehind
      rw [← hback]
      exact Or.inr ⟨Closing.neverEnds_of_find?_eq_none hfind _,
        mem_unterminated_iff.mpr ⟨p, hp, hlocate⟩⟩
  | cons q inside =>
    cases part with
    | kept p' => simp [Part.pieces] at hpart
    | region r =>
      obtain ⟨rfl, hbody⟩ : q = r.opening ∧ r.body ++ [r.closing] = inside ++ p :: outside := by
        simpa [Part.pieces, eq_comm] using hpart
      exact absurd (within_bodySpan (mem_of_mem_locate hlocate) hp hbody hspan)
        (hexamined _ (mem_regions_of_mem_locate hlocate))

theorem text_ne_nil_of_mem {part : Part} (h : part ∈ ofText mode t) : part.text ≠ [] := by
  cases part with
  | kept p => exact Piece.text_ne_nil_of_mem_ofText (mem_of_kept_mem h)
  | region r =>
    have hopening : r.opening ∈ Piece.ofText t := (infix_of_region_mem h).subset (by simp)
    have htext := Piece.text_ne_nil_of_mem_ofText hopening
    simp [Part.text, Region.text, htext]

/-- Two parts of a level that start at one place are one. -/
theorem eq_of_mem_locate {x y : Part × Span} (hx : x ∈ locate (ofText mode t))
    (hy : y ∈ locate (ofText mode t)) (hstart : x.2.start = y.2.start) : x = y := by
  have hpos : ∀ z ∈ locate (ofText mode t), z.2.start < z.2.stop := by
    intro z hz
    have hstop := stop_of_mem_locate hz
    have htext := byteSize_pos (text_ne_nil_of_mem (mem_of_mem_locate hz))
    omega
  have hxpos := hpos x hx
  have hypos := hpos y hy
  exact Span.eq_of_overlap (pairwise_locateFrom 0 _) hx hy (by omega) (by omega)

theorem HasRegion.notMem_unterminated {s : Span} (h : (ofText mode t).HasRegion name span s) :
    (name, span) ∉ (ofText mode t).unterminated := by
  intro hmem
  obtain ⟨r, hr, -⟩ := h
  obtain ⟨p, -, hp⟩ := mem_unterminated_iff.mp hmem
  have heq := eq_of_mem_locate (mem_locate_of_mem_regions hr) hp rfl
  cases (Prod.mk.inj heq).1

theorem HasRegion.unique {s s' : Span} (h : (ofText mode t).HasRegion name span s)
    (h' : (ofText mode t).HasRegion name span s') : s = s' := by
  obtain ⟨r, hr, -, hbody⟩ := h
  obtain ⟨r', hr', -, hbody'⟩ := h'
  obtain ⟨hregion, hspan⟩ := Prod.mk.inj
    (eq_of_mem_locate (mem_locate_of_mem_regions hr) (mem_locate_of_mem_regions hr') rfl)
  obtain rfl := Part.region.inj hregion
  obtain ⟨-, hstart⟩ := Span.mk.inj (hbody.symm.trans hbody')
  obtain ⟨-, hstop⟩ := Span.mk.inj hspan
  cases s
  cases s'
  exact congrArg₂ Span.mk hstart hstop

/-- The markers of a body close the regions of the name that they open, and none before it is
opened. -/
theorem balanced_bodyText {r : Region} (hr : Part.region r ∈ ofText .nested t) :
    ((Token.markers r.bodyText).countP fun x => x.1.opens r.name) =
        ((Token.markers r.bodyText).countP fun x => x.1.closes r.name) ∧
      ∀ q, q <+: Token.markers r.bodyText → ¬ Outnumbered r.name q := by
  obtain ⟨_, qs, rest, -, -, hfind⟩ := exists_find?_of_region_mem hr
  obtain ⟨hbody, hprefix⟩ := Closing.balance_body_of_balanced? hfind 0
  have hmarkers : Token.markers r.bodyText = Piece.markersFrom 0 r.body := by
    rw [← pieces_bodyText hr]
    rfl
  rw [hmarkers]
  constructor
  · simp only [balance_eq_sub] at hbody
    omega
  · intro q hq
    have hnonneg := hprefix q hq
    rw [outnumbered_iff]
    omega

/-- If the markers of a text are parted in two ways at one place, the parts are the same. -/
theorem eq_of_markers_eq {front rest front' rest' : List (Token × Span)} {x x' : Token × Span}
    (h : Token.markers t = front ++ x :: rest) (h' : Token.markers t = front' ++ x' :: rest')
    (hspan : x.2 = x'.2) : front = front' ∧ x = x' ∧ rest = rest' := by
  have hx : x ∈ Token.ofText t := List.mem_of_mem_filter (h ▸ by simp : x ∈ Token.markers t)
  have hx' : x' ∈ Token.ofText t := List.mem_of_mem_filter (h' ▸ by simp : x' ∈ Token.markers t)
  have hpos := start_lt_stop_of_mem_ofText hx
  obtain rfl : x = x' := eq_of_mem_ofText hx hx' (hspan ▸ hpos) (hspan ▸ hpos)
  have hnodup : (front ++ x :: rest).Nodup := by
    rw [← h]
    exact (nodup_ofText t).filter _
  have hnotMem := (List.nodup_cons.mp (List.nodup_middle.mp hnodup)).1
  rw [List.mem_append, not_or] at hnotMem
  exact (List.append_cons_inj_of_notMem hnotMem.1 hnotMem.2).mp (h.symm.trans h')

/-- An opening marker that is in the body of no region begins the region up to the marker that ends
it, and it is without an end just if no marker does. While nested matching looks for the end, the
count of open regions is not below zero, and it comes to zero at the end only. So in the body of a
nested region the markers of its name balance. -/
theorem ends_iff_hasRegion (mode : MatchMode) (t : Text) :
    (∀ before name span after, Token.markers t = before ++ (.opening name, span) :: after →
      (ofText mode t).Examines span →
        (∀ inner x rest, after = inner ++ x :: rest →
          (mode.Ends name inner x rest ↔ (ofText mode t).HasRegion name span x.2)) ∧
        ((name, span) ∈ (ofText mode t).unterminated ↔ mode.NeverEnds name after) ∧
        (mode = .nested →
          (∀ inner x rest, after = inner ++ x :: rest →
            (ofText mode t).HasRegion name span x.2 → ∀ q, q <+: inner ++ [x] →
              0 ≤ depth name q ∧ (depth name q = 0 ↔ q = inner ++ [x])) ∧
          ((name, span) ∈ (ofText mode t).unterminated →
            ∀ q, q <+: after → 0 < depth name q))) ∧
      ∀ r span, (r, span) ∈ (ofText .nested t).regions →
        ((Token.markers r.bodyText).countP fun x => x.1.opens r.name) =
            ((Token.markers r.bodyText).countP fun x => x.1.closes r.name) ∧
          ∀ q, q <+: Token.markers r.bodyText → ¬ Outnumbered r.name q := by
  refine ⟨?_, fun r span hr => balanced_bodyText (mem_of_mem_regions hr)⟩
  intro before name span after hmarkers hexamined
  have hcases := hasRegion_or_unterminated hmarkers hexamined
  have hends : ∀ inner x rest, after = inner ++ x :: rest →
      (mode.Ends name inner x rest ↔ (ofText mode t).HasRegion name span x.2) := by
    rintro inner x rest rfl
    rcases hcases with ⟨inner', x', rest', hafter, hends', hregion'⟩ | ⟨hnever, hunterminated⟩
    · constructor
      · intro hends
        obtain ⟨-, rfl, -⟩ := hends.unique hends' hafter
        exact hregion'
      · intro hregion
        have hmarkers' := hmarkers
        rw [hafter] at hmarkers'
        rw [← List.cons_append, ← List.append_assoc] at hmarkers hmarkers'
        obtain ⟨hfront, rfl, rfl⟩ := eq_of_markers_eq hmarkers hmarkers' (hregion.unique hregion')
        obtain ⟨-, rfl⟩ := List.cons.inj (List.append_cancel_left hfront)
        exact hends'
    · exact ⟨fun hends => absurd hnever hends.not_neverEnds,
        fun hregion => absurd hunterminated hregion.notMem_unterminated⟩
  have hnever : (name, span) ∈ (ofText mode t).unterminated ↔ mode.NeverEnds name after := by
    rcases hcases with ⟨inner, x, rest, rfl, hends, hregion⟩ | ⟨hnever, hunterminated⟩
    · exact iff_of_false hregion.notMem_unterminated hends.not_neverEnds
    · exact iff_of_true hunterminated hnever
  refine ⟨hends, hnever, ?_⟩
  rintro rfl
  constructor
  · intro inner x rest hafter hregion q hq
    exact ((hends inner x rest hafter).mpr hregion).depth_nonneg hq
  · intro hmem q hq
    exact (hnever.mp hmem).depth_pos hq

/-- Of one opening marker, nested and greedy matching find different ends. Another one has none. -/
theorem ends_iff_hasRegion_crossing :
    let t := ("<!--begin:c--><!--begin:A--><!--begin:b--><!--begin:a--><!--end:b--><!--END:A-->" ++
      "<!--end:a--><!--end:A-->").toList
    let span : Span := ⟨14, 28⟩
    ((ofText .nested t).Examines span ∧ (ofText .nested t).HasRegion "A".toList span ⟨80, 92⟩) ∧
      ((ofText .greedy t).Examines span ∧ (ofText .greedy t).HasRegion "A".toList span ⟨92, 104⟩) ∧
      (ofText .nested t).Examines ⟨0, 14⟩ ∧
        ("c".toList, ⟨0, 14⟩) ∈ (ofText .nested t).unterminated := by
  intro t span
  let c : Token × Span := (.opening "c".toList, ⟨0, 14⟩)
  let inner : List (Token × Span) := [(.opening "b".toList, ⟨28, 42⟩),
    (.opening "a".toList, ⟨42, 56⟩), (.closing "b".toList, ⟨56, 68⟩),
    (.closing "A".toList, ⟨68, 80⟩)]
  let x : Token × Span := (.closing "a".toList, ⟨80, 92⟩)
  let x' : Token × Span := (.closing "A".toList, ⟨92, 104⟩)
  have hmarkers : Token.markers t =
      [c] ++ (.opening "A".toList, span) :: (inner ++ x :: [x']) := by
    decide +kernel
  have hnested : (ofText .nested t).Examines span := by decide +kernel
  have hgreedy : (ofText .greedy t).Examines span := by decide +kernel
  have hc : (ofText .nested t).Examines c.2 := by decide +kernel
  refine ⟨⟨hnested, ?_⟩, ⟨hgreedy, ?_⟩, hc, ?_⟩
  · obtain ⟨hends, -⟩ := (ends_iff_hasRegion .nested t).1 _ _ _ _ hmarkers hnested
    have hopen : ∀ q ∈ inner.inits, ¬ Outnumbered "A".toList q := by decide +kernel
    exact (hends inner x [x'] rfl).mp ⟨by decide +kernel, fun q hq =>
      hopen q ((List.mem_inits q inner).mpr hq)⟩
  · obtain ⟨hends, -⟩ := (ends_iff_hasRegion .greedy t).1 _ _ _ _ hmarkers hgreedy
    exact (hends (inner ++ [x]) x' [] rfl).mp ⟨by decide +kernel, by simp⟩
  · obtain ⟨-, hnever, -⟩ := (ends_iff_hasRegion .nested t).1 [] _ _ _ hmarkers hc
    have hopen : ∀ q ∈ ((.opening "A".toList, span) :: (inner ++ x :: [x'])).inits,
        ¬ Outnumbered "c".toList q := by decide +kernel
    exact hnever.mpr fun q hq => hopen q ((List.mem_inits _ _).mpr hq)

end Level
end BlockTemplate
