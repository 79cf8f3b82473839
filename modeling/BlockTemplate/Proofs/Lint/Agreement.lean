import BlockTemplate.Proofs.Block.Sighting
import BlockTemplate.Proofs.Block.Unread
import BlockTemplate.Proofs.Lint.Standing

/-!
Check and build meet the same markup. If no inclusion of a source can be read, the markers that
a build leaves as text and the regions whose block takes the place of another are, with their
places in the source and as often as they are met, what the check of that source warns about.
-/
namespace BlockTemplate

/-- Whether a finding is about markers, and not about an inclusion. -/
def Finding.isAboutMarkers : Finding → Bool
  | .missingInclusion .. => false
  | _ => true

namespace Lint

open Block

theorem filterMap_warning?_wholeSightings {notices : List Notice}
    (h : ∀ notice ∈ notices, ∀ span, Sighting.warning? ⟨notice, span⟩ = none) (m : Nat) (t : Text) :
    (wholeSightings m t notices).filterMap Sighting.warning? = [] := by
  rw [wholeSightings, List.filterMap_map, List.filterMap_eq_nil_iff]
  exact fun notice hmem => h notice hmem _

theorem warning?_of_mem_expandNotices {files : Files} {origin : Origin} {t : Text} {notice : Notice}
    (h : notice ∈ origin.expandNotices files t) (span : Span) :
    Sighting.warning? ⟨notice, span⟩ = none := by
  obtain ⟨⟨path, s⟩, -, rfl⟩ := List.mem_map.mp h
  dsimp only
  split <;> rfl

theorem warning?_of_mem_sizeNotices {settings : Settings} {name t : Text} {notice : Notice}
    (h : notice ∈ sizeNotices settings name t) (span : Span) :
    Sighting.warning? ⟨notice, span⟩ = none := by
  unfold sizeNotices at h
  split at h
  · obtain rfl := List.mem_singleton.mp h
    rfl
  · cases h

/-- What is noticed of a text before its markers are looked at is no warning. -/
theorem warning?_of_mem_textNotices {files : Files} {origin : Origin} {settings : Settings}
    {name t expanded : Text} {notice : Notice}
    (h : notice ∈ origin.expandNotices files t ++ sizeNotices settings name expanded)
    (span : Span) : Sighting.warning? ⟨notice, span⟩ = none := by
  rcases List.mem_append.mp h with h | h
  · exact warning?_of_mem_expandNotices h span
  · exact warning?_of_mem_sizeNotices h span

theorem filterMap_warning?_levelSightings (name : Text) (m : Nat) (level : Level) :
    (levelSightings name m level).filterMap Sighting.warning? =
      level.unterminated.map (fun (name, span) => ⟨.unterminated name, span.shift m⟩) ++
        level.strayEnds.map (fun (name, span) => ⟨.strayEnd name, span.shift m⟩) := by
  simp only [levelSightings, List.filterMap_append, List.filterMap_map]
  simp [Function.comp_def, Sighting.warning?]

/-- Regions in a row give the same warnings if their bodies do. -/
theorem placingSightings_perm {seen : Region × Span → Seen} {inBody : Nat → Text → List Warning}
    {m : Nat} (parent : Text) (cs : List Block) (names : List Text)
    (hcs : ∀ name, name ∈ names ↔ name ∈ cs.map Block.name) (regions : List (Region × Span))
    (hname : ∀ r ∈ regions, (seen r).block.name = r.1.name)
    (hbody : ∀ r ∈ regions, ((seen r).sightings.filterMap Sighting.warning?).Perm
      (inBody (m + (r.1.bodySpan r.2.start).start) r.1.bodyText)) :
    ((placingSightings parent cs (regions.map fun r => (seen r, r.2.shift m))).filterMap
      Sighting.warning?).Perm (inRegions inBody m names regions) := by
  induction regions generalizing cs names with
  | nil => rfl
  | cons r rest ih =>
    obtain ⟨region, span⟩ := r
    have hregion := hname _ List.mem_cons_self
    have hplaced : ∀ name, name ∈ region.name :: names ↔
        name ∈ (place (seen (region, span)).block cs).map Block.name := by
      intro name
      rw [List.mem_cons, hcs, mem_map_name_place, hregion]
    have hrest := ih _ _ hplaced (fun r hr => hname r (List.mem_cons_of_mem _ hr))
      (fun r hr => hbody r (List.mem_cons_of_mem _ hr))
    have hreplaces : replaces (seen (region, span)).block cs ↔ region.name ∈ names := by
      rw [replaces_iff, hregion, hcs]
    have hduplicate : ((if replaces (seen (region, span)).block cs then
          [⟨.redefined (seen (region, span)).block.name parent, span.shift m⟩] else []).filterMap
            Sighting.warning?) =
        if region.name ∈ names then [⟨.duplicate region.name, span.shift m⟩] else [] := by
      by_cases h : region.name ∈ names
      · simp [h, hreplaces.mpr h, hregion, Sighting.warning?]
      · simp [h, hreplaces.not.mpr h]
    simp only [List.map_cons, placingSightings, List.filterMap_append, inRegions, hduplicate]
    refine List.Perm.append ?_ hrest
    -- The check names the region first, the build what it met within the body.
    exact ((hbody _ List.mem_cons_self).append_right _).trans List.perm_append_comm

/-- At every level a build sees what the check warns about. -/
theorem buildAt_perm (files : Files) (origin : Origin) (settings : Settings) (levels m : Nat)
    (name : Text) {t : Text} (h : origin.Unread files t) :
    ((buildAt files origin settings levels m name t).sightings.filterMap Sighting.warning?).Perm
      (inLevels settings.matchMode levels m t) := by
  induction levels generalizing m name t with
  | zero =>
    simp only [buildAt, inLevels]
    rw [filterMap_warning?_wholeSightings]
    intro notice hmem span
    rcases List.mem_append.mp hmem with hmem | hmem
    · exact warning?_of_mem_textNotices hmem span
    · obtain rfl := List.mem_singleton.mp hmem
      rfl
  | succ levels ih =>
    have hlast : ∀ n, (wholeSightings m t [.built name n]).filterMap Sighting.warning? = [] :=
      fun n => filterMap_warning?_wholeSightings (by
        intro notice hmem span
        obtain rfl := List.mem_singleton.mp hmem
        rfl) m t
    simp only [buildAt, inLevels, h.expand_eq, List.filterMap_append, hlast,
      filterMap_warning?_levelSightings, List.append_nil]
    rw [filterMap_warning?_wholeSightings (fun _ hmem => warning?_of_mem_textNotices hmem),
      List.nil_append]
    refine List.Perm.append (List.Perm.refl _) ?_
    refine placingSightings_perm name [] [] (by simp) _ ?_ ?_
    · exact fun r _ => name_buildAt files origin settings levels _ _ _
    · exact fun r hr => ih _ _ (h.bodyText (Level.mem_of_mem_regions hr))

theorem isAboutMarkers_of_mem_inRegions {inBody : Nat → Text → List Warning} {m : Nat}
    {seen : List Text} {regions : List (Region × Span)} {w : Warning}
    (hbody : ∀ n t, ∀ w ∈ inBody n t, w.finding.isAboutMarkers)
    (h : w ∈ inRegions inBody m seen regions) : w.finding.isAboutMarkers := by
  induction regions generalizing seen with
  | nil => cases h
  | cons r rest ih =>
    simp only [inRegions, List.mem_append] at h
    rcases h with (h | h) | h
    · split at h
      · obtain rfl := List.mem_singleton.mp h
        rfl
      · cases h
    · exact hbody _ _ w h
    · exact ih h

theorem isAboutMarkers_of_mem_inLevels {mode : MatchMode} {levels m : Nat} {t : Text} {w : Warning}
    (h : w ∈ inLevels mode levels m t) : w.finding.isAboutMarkers := by
  induction levels generalizing m t w with
  | zero => cases h
  | succ levels ih =>
    simp only [inLevels, List.mem_append, List.mem_map] at h
    rcases h with (⟨_, -, rfl⟩ | ⟨_, -, rfl⟩) | h
    · rfl
    · rfl
    · exact isAboutMarkers_of_mem_inRegions (fun _ _ _ hw => ih hw) h

theorem isAboutMarkers_of_mem_missing {files : Files} {origin : Origin} {t : Text} {w : Warning}
    (h : w ∈ missing files origin t) : ¬ w.finding.isAboutMarkers := by
  obtain ⟨path, span, -, -, rfl⟩ := exists_of_mem_missing h
  simp [Finding.isAboutMarkers]

/-- The warnings about markers are those of the levels, in another order. -/
theorem filter_check_perm (files : Files) (origin : Origin) (mode : MatchMode) (t : Text) :
    ((check files origin mode t).filter fun w => w.finding.isAboutMarkers).Perm
      (inLevels mode (maxDepth + 1) 0 t) := by
  have hmissing : (missing files origin t).filter (fun w => w.finding.isAboutMarkers) = [] :=
    List.filter_eq_nil_iff.mpr fun _ hw => isAboutMarkers_of_mem_missing hw
  have hlevels : (inLevels mode (maxDepth + 1) 0 t).filter (fun w => w.finding.isAboutMarkers) =
      inLevels mode (maxDepth + 1) 0 t :=
    List.filter_eq_self.mpr fun _ hw => isAboutMarkers_of_mem_inLevels hw
  have hsorted := (Warning.sort_perm (missing files origin t ++
    inLevels mode (maxDepth + 1) 0 t)).filter fun w => w.finding.isAboutMarkers
  rwa [List.filter_append, hmissing, hlevels, List.nil_append] at hsorted

/-- A build of a source whose inclusions cannot be read meets, marker by marker and region by
region, what the check warns about: each with its kind, its name and its bytes in the source. -/
theorem sightings_perm_check (files : Files) (origin : Origin) (settings : Settings) (t : Text)
    (h : origin.Unread files t) :
    let seen := buildAt files origin settings (maxDepth + 1) 0 [] t
    let warnings := (check files origin settings.matchMode t).filter fun w =>
      w.finding.isAboutMarkers
    seen.toBuilt = build files origin settings t ∧
      (seen.sightings.filterMap Sighting.warning?).Perm warnings ∧
      ∀ w ∈ seen.sightings.filterMap Sighting.warning?, w.Stands t := by
  intro seen warnings
  have hperm : (seen.sightings.filterMap Sighting.warning?).Perm warnings :=
    (buildAt_perm files origin settings (maxDepth + 1) 0 [] h).trans
      (filter_check_perm files origin settings.matchMode t).symm
  refine ⟨toBuilt_buildAt files origin settings (maxDepth + 1) 0 [] t, hperm, ?_⟩
  intro w hw
  exact stands_of_mem_check (List.mem_filter.mp (hperm.mem_iff.mp hw)).1

/-- Warnings at two levels: one opening marker within the first of two regions of one name, one
closing marker within the second. -/
theorem sightings_perm_check_two_levels :
    let files : Files := fun _ => .error .notFound
    let t := ("<!--begin:a--><!--begin:b-->\x7bFILE \"x\"\x7d<!--end:a-->" ++
      "<!--begin:a--><!--end:c--><!--end:a-->").toList
    Origin.Unread {} files t ∧
      ((buildAt files {} { matchMode := .nested } (maxDepth + 1) 0 [] t).sightings.filterMap
        Sighting.warning?).Perm
        [⟨.unterminated "b".toList, ⟨14, 28⟩⟩, ⟨.duplicate "a".toList, ⟨50, 88⟩⟩,
          ⟨.strayEnd "c".toList, ⟨64, 76⟩⟩] := by
  intro files t
  have hunread : Origin.Unread {} files t := by
    unfold Origin.Unread
    decide +kernel
  have hcheck : ((check files {} .nested t).filter fun w => w.finding.isAboutMarkers) =
      [⟨.unterminated "b".toList, ⟨14, 28⟩⟩, ⟨.duplicate "a".toList, ⟨50, 88⟩⟩,
        ⟨.strayEnd "c".toList, ⟨64, 76⟩⟩] := by
    decide +kernel
  obtain ⟨-, hperm, -⟩ := sightings_perm_check files {} { matchMode := .nested } t hunread
  exact ⟨hunread, hcheck ▸ hperm⟩

end Lint
end BlockTemplate
