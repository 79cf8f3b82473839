import BlockTemplate.Proofs.Lint.Accounting
import BlockTemplate.Proofs.Markup.Occurrence

/-!
What a check without warnings says about the markers that are written in a source. All markers
that are read open or close a region then, and a marker is read wherever it is written, unless it
begins within an inclusion or within one that is not closed properly. Nothing is said of the
bodies of the regions at the last depth, which are not read.
-/
namespace BlockTemplate.Lint

open Token (mem_markers_iff)

variable {files : Files} {origin : Origin} {mode : MatchMode} {t w : Text} {token : Token}
  {span : Span}

/-- A marker of a region that is found is a marker of the source. -/
theorem mem_markers_of_mem_found {f : Found} (hf : f ∈ found mode t)
    (h : (token, span) ∈ f.markers) : (token, span) ∈ Token.markers t := by
  have hperm := markers_perm_check (fun _ => .error .notFound) {} mode t
  refine hperm.mem_iff.mpr (List.mem_append_left _ (List.mem_append_right _ ?_))
  exact List.mem_flatMap.mpr ⟨f, hf, h⟩

/-- Without warnings, the markers that are read are those of the regions, as deep as is read. -/
theorem exists_found_of_clean (hclean : check files origin mode t = [])
    (h : (token, span) ∈ Token.markers t)
    (hdeep : ∀ f ∈ found mode t, f.depth = maxDepth → ¬ span.Within f.bodySpan) :
    ∃ f ∈ found mode t, (token, span) ∈ f.markers := by
  have hmem := (markers_perm_check files origin mode t).mem_iff.mp h
  rw [hclean, List.filterMap_nil, List.nil_append] at hmem
  rcases List.mem_append.mp hmem with hpaired | hunread
  · exact List.mem_flatMap.mp hpaired
  · obtain ⟨f, hf, hwithin⟩ := List.mem_flatMap.mp hunread
    obtain ⟨hfound, hdepth⟩ := List.mem_filter.mp hf
    have hspan := of_decide_eq_true (List.mem_filter.mp hwithin).2
    exact absurd hspan (hdeep f hfound (of_decide_eq_true hdepth))

/-- If a check warns about nothing, a marker that is written opens or closes a region unless it
begins within an inclusion, or within one that is not closed and so reaches up to the next
quotation mark or to the end. Both are inclusions that are read as such when the text is read from
left to right. What looks like the start of one within the name of a marker is part of the name. -/
theorem paired_iff_of_clean (hclean : check files origin mode t = [])
    (hmarker : token.markerName?.isSome) (hw : Token.Written token w) (hspan : span.Holds t w)
    (hdeep : ∀ f ∈ found mode t, f.depth = maxDepth → ¬ span.Within f.bodySpan) :
    ((∃ f ∈ found mode t, (token, span) ∈ f.markers) ↔
      (∀ x ∈ Token.inclusions t, ¬ x.2.Covers span.start) ∧
        ∀ s ∈ Token.unclosed t, ¬ s.Covers span.start) ∧
      ∀ s ∈ Token.unclosed t, s.IsUnclosed t := by
  refine ⟨?_, fun s hs => Token.isUnclosed_of_mem_unclosed hs⟩
  rw [← Token.mem_ofText_iff_of_written hw hmarker hspan]
  constructor
  · rintro ⟨f, hf, h⟩
    exact (mem_markers_iff.mp (mem_markers_of_mem_found hf h)).1
  · intro h
    exact exists_found_of_clean hclean (mem_markers_iff.mpr ⟨h, hmarker⟩) hdeep

/-- The end of a region at the second level is paired. The marker in an inclusion that has no brace
behind its second quotation mark is not. -/
theorem paired_iff_of_clean_two_levels :
    let files : Files := fun _ => .error .notFound
    let t := ("<!--begin:a--><!--begin:b--><!--END:B-->" ++
      "\x7bFILE \"<!--begin:c-->\"<!--end:a-->").toList
    check files {} .nested t = [] ∧
      (∃ f ∈ found .nested t, (Token.closing "B".toList, ⟨28, 40⟩) ∈ f.markers) ∧
      ¬ ∃ f ∈ found .nested t, (Token.opening "c".toList, ⟨47, 61⟩) ∈ f.markers := by
  intro files t
  have hclean : check files {} .nested t = [] := by decide +kernel
  have hdeep : ∀ f ∈ found .nested t, f.depth ≠ maxDepth := by decide +kernel
  have hB : Token.Written (.closing "B".toList) "<!--END:B-->".toList :=
    @Token.Written.closing "<!--END:".toList "B".toList (by decide) (by decide) (by decide)
  have hBspan : Span.Holds ⟨28, 40⟩ t "<!--END:B-->".toList :=
    ⟨"<!--begin:a--><!--begin:b-->".toList, "\x7bFILE \"<!--begin:c-->\"<!--end:a-->".toList,
      by decide +kernel, by decide +kernel⟩
  have hc : Token.Written (.opening "c".toList) "<!--begin:c-->".toList :=
    @Token.Written.opening "<!--begin:".toList "c".toList (by decide) (by decide) (by decide)
  have hcspan : Span.Holds ⟨47, 61⟩ t "<!--begin:c-->".toList :=
    ⟨"<!--begin:a--><!--begin:b--><!--END:B-->\x7bFILE \"".toList, "\"<!--end:a-->".toList,
      by decide +kernel, by decide +kernel⟩
  refine ⟨hclean, ?_, ?_⟩
  · have hpaired := paired_iff_of_clean hclean rfl hB hBspan fun f hf h => absurd h (hdeep f hf)
    refine hpaired.1.mpr ?_
    decide +kernel
  · have hpaired := paired_iff_of_clean hclean rfl hc hcspan fun f hf h => absurd h (hdeep f hf)
    rw [hpaired.1]
    decide +kernel

/-- A marker behind an inclusion that is not closed is lost without a warning. -/
theorem not_paired_of_unclosed :
    let files : Files := fun _ => .error .notFound
    let t := "\x7bFILE \"<!--begin:a-->".toList
    (check files {} .greedy t = [] ∧ Token.Written (.opening "a".toList) "<!--begin:a-->".toList ∧
      Span.Holds ⟨7, 21⟩ t "<!--begin:a-->".toList ∧ Token.inclusions t = [] ∧
      found .greedy t = []) ∧
    ¬ ∀ (files : Files) (origin : Origin) (mode : MatchMode) (t : Text),
      check files origin mode t = [] → ∀ (token : Token) (w : Text) (span : Span),
        token.markerName?.isSome → Token.Written token w → span.Holds t w →
        (∀ x ∈ Token.inclusions t, ¬ x.2.Covers span.start) →
        (∀ f ∈ found mode t, f.depth = maxDepth → ¬ span.Within f.bodySpan) →
        ∃ f ∈ found mode t, (token, span) ∈ f.markers := by
  intro files t
  have hclean : check files {} .greedy t = [] := by decide +kernel
  have hw : Token.Written (.opening "a".toList) "<!--begin:a-->".toList :=
    @Token.Written.opening "<!--begin:".toList "a".toList (by decide) (by decide) (by decide)
  have hspan : Span.Holds ⟨7, 21⟩ t "<!--begin:a-->".toList :=
    ⟨"\x7bFILE \"".toList, [], by decide +kernel, by decide +kernel⟩
  have hinclusions : Token.inclusions t = [] := by decide +kernel
  have hfound : found .greedy t = [] := by decide +kernel
  refine ⟨⟨hclean, hw, hspan, hinclusions, hfound⟩, fun hall => ?_⟩
  have hpaired := hall files {} .greedy t hclean _ _ _ rfl hw hspan
  rw [hinclusions, hfound] at hpaired
  obtain ⟨f, hf, -⟩ := hpaired (by simp) (by simp)
  cases hf

end BlockTemplate.Lint
