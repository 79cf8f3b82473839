import BlockTemplate.Proofs.Level.Markers
import BlockTemplate.Proofs.Level.Row

/-!
Slices of a text from one byte to another. A slice exists only if both bytes stand between two
characters or at an end of the text, and the first is not behind the second. The regions of a level
stand one behind the other and each around its body, so every slice that is taken of the text
exists: the bodies, the regions, and the gaps between them, which together are the text.
-/
namespace BlockTemplate

namespace Text

/-- The text up to byte `n` and the text behind it, if no character covers the place. -/
def splitAtByte? : Text → Nat → Option (Text × Text)
  | t, 0 => some ([], t)
  | [], _ + 1 => none
  | c :: t, n + 1 =>
    if c.utf8Size ≤ n + 1 then
      (splitAtByte? t (n + 1 - c.utf8Size)).map fun x => (c :: x.1, x.2)
    else none

/-- The text within a span. -/
def slice? (t : Text) (span : Span) : Option Text := do
  let (upTo, _) ← splitAtByte? t span.stop
  let (_, within) ← splitAtByte? upTo span.start
  return within

/-- The text from byte `m`, sliced at the spans, with another text in the place of each. -/
def recut? (t : Text) (m : Nat) : List (Span × Text) → Option Text
  | [] => slice? t ⟨m, byteSize t⟩
  | (span, shown) :: rest => do
    let gap ← slice? t ⟨m, span.start⟩
    let behind ← recut? t span.stop rest
    return gap ++ shown ++ behind

/-- The place is not within a character. -/
def IsBoundary (t : Text) (n : Nat) : Prop := ∃ a b, t = a ++ b ∧ n = byteSize a

variable {t w a b : Text} {n : Nat} {span : Span}

theorem splitAtByte?_append (a b : Text) : splitAtByte? (a ++ b) (byteSize a) = some (a, b) := by
  induction a with
  | nil => cases b <;> rfl
  | cons c a ih =>
    obtain ⟨n, hn⟩ := Nat.exists_eq_add_one_of_ne_zero (byteSize_pos (List.cons_ne_nil c a)).ne'
    have hsize : c.utf8Size + byteSize a = n + 1 := hn
    have hrest : n + 1 - c.utf8Size = byteSize a := by omega
    rw [List.cons_append, hn, splitAtByte?, if_pos (by omega), hrest, ih]
    rfl

theorem eq_of_splitAtByte? (h : splitAtByte? t n = some (a, b)) : t = a ++ b ∧ n = byteSize a := by
  fun_induction splitAtByte? t n generalizing a with
  | case1 t =>
    obtain ⟨rfl, rfl⟩ := Prod.mk.inj (Option.some.inj h)
    exact ⟨rfl, rfl⟩
  | case2 => cases h
  | case3 n c t hle ih =>
    obtain ⟨⟨a', b'⟩, hsplit, heq⟩ := Option.map_eq_some_iff.mp h
    obtain ⟨rfl, rfl⟩ := Prod.mk.inj heq
    obtain ⟨rfl, hn⟩ := ih hsplit
    refine ⟨rfl, ?_⟩
    simp only [byteSize_cons] at hn ⊢
    omega
  | case4 => cases h

theorem splitAtByte?_eq_some_iff :
    splitAtByte? t n = some (a, b) ↔ t = a ++ b ∧ n = byteSize a := by
  refine ⟨eq_of_splitAtByte?, ?_⟩
  rintro ⟨rfl, rfl⟩
  exact splitAtByte?_append a b

/-- A slice exists where the span holds a text, and it is that text. -/
theorem slice?_eq_some_iff : slice? t span = some w ↔ span.Holds t w := by
  simp only [slice?, Option.bind_eq_bind, Option.bind_eq_some_iff, Option.pure_def,
    Option.some.injEq, Prod.exists, splitAtByte?_eq_some_iff]
  constructor
  · rintro ⟨upTo, after, ⟨rfl, hstop⟩, before, _, ⟨rfl, hstart⟩, rfl⟩
    refine ⟨before, after, rfl, ?_⟩
    rw [← byteSize_append, ← hstart, ← hstop]
  · rintro ⟨before, after, rfl, rfl⟩
    exact ⟨before ++ w, after, ⟨rfl, (byteSize_append ..).symm⟩, before, w, ⟨rfl, rfl⟩, rfl⟩

end Text

open Text

namespace Span.Holds

variable {span : Span} {t w : Text} (h : span.Holds t w)

include h

theorem isBoundary_start : t.IsBoundary span.start := by
  obtain ⟨before, after, rfl, rfl⟩ := h
  exact ⟨before, w ++ after, List.append_assoc .., rfl⟩

theorem isBoundary_stop : t.IsBoundary span.stop := by
  obtain ⟨before, after, rfl, rfl⟩ := h
  exact ⟨before ++ w, after, rfl, (byteSize_append ..).symm⟩

theorem stop_le : span.stop ≤ byteSize t := by
  obtain ⟨before, after, rfl, rfl⟩ := h
  simp only [byteSize_append]
  omega

end Span.Holds

namespace Level

variable {mode : MatchMode} {t : Text} {level : Level} {m : Nat}

theorem start_of_mem_locateFrom {x : Part × Span} (h : x ∈ locateFrom m level) : m ≤ x.2.start := by
  obtain ⟨part, span⟩ := x
  obtain ⟨before, after, -, rfl⟩ := exists_of_mem_locateFrom h
  exact Nat.le_add_right ..

/-- The parts of a level stand one behind the other. -/
theorem pairwise_locateFrom (m : Nat) (level : Level) :
    (locateFrom m level).Pairwise fun x y => x.2.stop ≤ y.2.start := by
  induction level generalizing m with
  | nil => exact List.Pairwise.nil
  | cons part rest ih => exact List.Pairwise.cons (fun _ => start_of_mem_locateFrom) (ih _)

theorem pairwise_regions (level : Level) :
    level.regions.Pairwise fun x y => x.2.stop ≤ y.2.start := by
  refine (pairwise_locateFrom 0 level).filterMap _ ?_
  rintro ⟨_ | r, span⟩ ⟨_ | r', span'⟩ hle x hx y hy <;> cases hx <;> cases hy
  exact hle

theorem holds_bodySpan {r : Region} {span : Span} (h : (r, span) ∈ (ofText mode t).regions) :
    (r.bodySpan span.start).Holds t r.bodyText := by
  obtain ⟨before, after, ht, rfl⟩ := holds_of_mem_locate (mem_locate_of_mem_regions h)
  refine ⟨before ++ r.opening.text, r.closing.text ++ after, ?_, ?_⟩
  · rw [ht]
    simp [Part.text, Region.text]
  · simp [Region.bodySpan, Piece.size]

/-- A region begins before its body and ends behind it. -/
theorem bounds_of_mem_regions {r : Region} {span : Span} (h : (r, span) ∈ level.regions) :
    span.start ≤ (r.bodySpan span.start).start ∧
      (r.bodySpan span.start).start ≤ (r.bodySpan span.start).stop ∧
      (r.bodySpan span.start).stop ≤ span.stop := by
  have hstop := stop_of_mem_locate (mem_locate_of_mem_regions h)
  simp only [Part.text, Region.text, byteSize_append] at hstop
  simp only [Region.bodySpan, Piece.size]
  omega

/-- The spans of the regions with what takes their place, where the first part starts at byte
`m`. -/
def cutsFrom (out : Region → Text) (m : Nat) : Level → List (Span × Text)
  | [] => []
  | .kept p :: rest => cutsFrom out (m + p.size) rest
  | .region r :: rest =>
    (⟨m, m + byteSize r.text⟩, out r) :: cutsFrom out (m + byteSize r.text) rest

theorem map_regions_eq_cutsFrom (out : Region → Text) (level : Level) :
    level.regions.map (fun x => (x.2, out x.1)) = cutsFrom out 0 level := by
  have hfrom : ∀ m, ((locateFrom m level).filterMap fun x => x.1.region?.map fun r =>
      (x.2, out r)) = cutsFrom out m level := by
    induction level with
    | nil => exact fun _ => rfl
    | cons part rest ih =>
      intro m
      cases part with
      | kept p => exact ih _
      | region r => exact congrArg (List.cons _) (ih _)
  rw [← hfrom 0, regions, locate, List.map_filterMap]
  refine List.filterMap_congr fun x _ => ?_
  obtain ⟨_ | r, span⟩ := x <;> rfl

/-- Slicing at the regions puts something else in their place. Text kept before the level is in
the first gap. -/
theorem recut?_cutsFrom (out : Region → Text) (before kept : Text) (level : Level) :
    recut? (before ++ kept ++ level.flatMap Part.text) (byteSize before)
      (cutsFrom out (byteSize (before ++ kept)) level) = some (kept ++ fillWith out level) := by
  induction level generalizing before kept with
  | nil =>
    have hgap : slice? (before ++ kept ++ []) ⟨byteSize before, byteSize (before ++ kept ++ [])⟩ =
        some kept := by
      rw [slice?_eq_some_iff]
      exact ⟨before, [], rfl, by simp⟩
    rw [cutsFrom, recut?, List.flatMap_nil, hgap]
    simp [fillWith]
  | cons part rest ih =>
    cases part with
    | kept p =>
      have hbehind := ih before (kept ++ p.text)
      rw [← List.append_assoc, byteSize_append, List.append_assoc (before ++ kept)] at hbehind
      rw [List.flatMap_cons, cutsFrom]
      refine hbehind.trans ?_
      simp [fillWith]
    | region r =>
      have hgap : slice? (before ++ kept ++ (r.text ++ rest.flatMap Part.text))
          ⟨byteSize before, byteSize (before ++ kept)⟩ = some kept := by
        rw [slice?_eq_some_iff]
        exact ⟨before, _, rfl, by rw [byteSize_append]⟩
      have hbehind := ih (before ++ kept ++ r.text) []
      rw [List.append_nil, byteSize_append, List.append_assoc (before ++ kept)] at hbehind
      rw [List.flatMap_cons, cutsFrom, recut?]
      simp only [Part.text, hgap, hbehind, Option.bind_eq_bind, Option.bind_some]
      simp [fillWith]

theorem recut?_regions (out : Region → Text) (mode : MatchMode) (t : Text) :
    recut? t 0 ((ofText mode t).regions.map fun x => (x.2, out x.1)) =
      some (fillWith out (ofText mode t)) := by
  have hcuts := recut?_cutsFrom out [] [] (ofText mode t)
  rw [List.nil_append, List.nil_append, text_ofText] at hcuts
  rw [map_regions_eq_cutsFrom]
  exact hcuts

theorem fillWith_text (mode : MatchMode) (t : Text) :
    fillWith Region.text (ofText mode t) = t := by
  conv_rhs => rw [← text_ofText mode t]
  refine List.flatMap_congr fun part _ => ?_
  cases part <;> rfl

/-- The markers of a text are those left at its level, those of its regions, and those within the
bodies of these. -/
theorem markers_perm_within (mode : MatchMode) (t : Text) :
    (Token.markers t).Perm
      ((ofText mode t).unterminated.map (fun x => (.opening x.1, x.2)) ++
        (ofText mode t).strayEnds.map (fun x => (.closing x.1, x.2)) ++
        (ofText mode t).regions.flatMap fun x => x.1.markersAt x.2.start ++
          (Token.markers t).filter fun y => y.2.Within (x.1.bodySpan x.2.start)) := by
  refine (markers_perm mode t).trans (List.Perm.append_left _ (List.Perm.of_eq ?_))
  refine List.flatMap_congr fun ⟨r, span⟩ hr => ?_
  rw [filter_within_bodySpan hr]

/-- The regions of a level stand one behind the other, each around its body and with both ends of
it between characters. The slices at their spans put the text together again, or its template with
slots. Each marker of the text is left at the level, is one of the two markers of a region, or
stands within the body of one. -/
theorem slices_regions (mode : MatchMode) (t : Text) :
    let level := ofText mode t
    (level.regions.Pairwise fun x y => x.2.stop ≤ y.2.start) ∧
      (∀ r span, (r, span) ∈ level.regions →
        let body := r.bodySpan span.start
        (span.start ≤ body.start ∧ body.start ≤ body.stop ∧ body.stop ≤ span.stop ∧
          span.stop ≤ byteSize t) ∧
        (t.IsBoundary span.start ∧ t.IsBoundary body.start ∧ t.IsBoundary body.stop ∧
          t.IsBoundary span.stop) ∧
        slice? t span = some r.text ∧ slice? t body = some r.bodyText ∧
        ∃ name, sameFolded name r.name ∧ r.markersAt span.start =
          [(.opening r.name, ⟨span.start, body.start⟩),
            (.closing name, ⟨body.stop, span.stop⟩)]) ∧
      recut? t 0 (level.regions.map fun x => (x.2, x.1.text)) = some t ∧
      recut? t 0 (level.regions.map fun x => (x.2, Slot.ofName x.1.name)) =
        some (Block.slotted level) ∧
      (Token.markers t).Nodup ∧
      (Token.markers t).Perm
        (level.unterminated.map (fun x => (.opening x.1, x.2)) ++
          level.strayEnds.map (fun x => (.closing x.1, x.2)) ++
          level.regions.flatMap fun x => x.1.markersAt x.2.start ++
            (Token.markers t).filter fun y => y.2.Within (x.1.bodySpan x.2.start)) := by
  intro level
  refine ⟨pairwise_regions level, ?_, ?_, recut?_regions (fun r => Slot.ofName r.name) mode t,
    (Token.nodup_ofText t).filter _, markers_perm_within mode t⟩
  · intro r span hr body
    have hspan : span.Holds t r.text := holds_of_mem_locate (mem_locate_of_mem_regions hr)
    have hbody : body.Holds t r.bodyText := holds_bodySpan hr
    have hstop := stop_of_mem_locate (mem_locate_of_mem_regions hr)
    obtain ⟨hstart, hle, hend⟩ := bounds_of_mem_regions hr
    refine ⟨⟨hstart, hle, hend, hspan.stop_le⟩, ⟨hspan.isBoundary_start, hbody.isBoundary_start,
      hbody.isBoundary_stop, hspan.isBoundary_stop⟩, slice?_eq_some_iff.mpr hspan,
      slice?_eq_some_iff.mpr hbody, ?_⟩
    rw [hstop]
    exact markersAt_of_mem (mem_of_mem_regions hr) span.start
  · rw [recut?_regions, fillWith_text]

end Level
end BlockTemplate
