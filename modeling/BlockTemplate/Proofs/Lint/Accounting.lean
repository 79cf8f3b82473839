import BlockTemplate.Proofs.Lint.Reading
import BlockTemplate.Proofs.Lint.Standing
import Mathlib.Data.List.Perm.Subperm

/-!
An account of all markers of a source. Each reading of a check settles some of the markers of its
text: it warns about them or takes them as the two markers of a region that it finds. The others
stand in the bodies of these regions and are settled by the readings of the bodies, as far as these
are read. Summed up over all readings no marker is left out and none is counted twice, so that no
two warnings can start at one place either.
-/
namespace BlockTemplate

/-- The marker that a warning is about, if it is about a single marker. -/
def Warning.marker? (w : Warning) : Option (Token × Span) :=
  match w.finding with
  | .unterminated name => some (.opening name, w.span)
  | .strayEnd name => some (.closing name, w.span)
  | _ => none

theorem Region.markersAt_add (r : Region) (m n : Nat) :
    r.markersAt (n + m) = (r.markersAt n).map (Token.moved m) := by
  have hopening : r.openingSpan (n + m) = (r.openingSpan n).shift m := by
    simp only [openingSpan, bodySpan, Span.shift, Span.mk.injEq, true_and]
    omega
  have hclosing : r.closingSpan (n + m) = (r.closingSpan n).shift m := by
    simp only [closingSpan, bodySpan, Span.shift, Span.mk.injEq]
    omega
  unfold markersAt
  rw [hopening, hclosing]
  cases r.opening.token <;> cases r.closing.token <;> rfl

namespace Lint

open Text

variable {mode : MatchMode} {t : Text}

theorem filterMap_marker?_inRegions (m : Nat) (seen : List Text) (regions : List (Region × Span)) :
    (inRegions (fun _ _ => []) m seen regions).filterMap Warning.marker? = [] := by
  induction regions generalizing seen with
  | nil => rfl
  | cons x rest ih =>
    simp only [inRegions, List.append_nil, List.filterMap_append, ih]
    split <;> rfl

theorem filterMap_marker?_missing (files : Files) (origin : Origin) (t : Text) :
    (missing files origin t).filterMap Warning.marker? = [] := by
  rw [List.filterMap_eq_nil_iff]
  intro w hw
  obtain ⟨path, span, -, -, rfl⟩ := exists_of_mem_missing hw
  rfl

namespace Reading

/-- The markers that a reading warns about. -/
def left (mode : MatchMode) (v : Reading) : List (Token × Span) :=
  (v.warnings mode).filterMap Warning.marker?

/-- The markers that a reading warns about or takes for those of a region. -/
def settled (mode : MatchMode) (v : Reading) : List (Token × Span) :=
  v.left mode ++ (v.found mode).flatMap Found.markers

theorem left_eq (mode : MatchMode) (v : Reading) :
    v.left mode =
      ((Level.ofText mode v.text).unterminated.map (fun x => (Token.opening x.1, x.2)) ++
        (Level.ofText mode v.text).strayEnds.map (fun x => (Token.closing x.1, x.2))).map
          (Token.moved v.start) := by
  have hregions := filterMap_marker?_inRegions v.start [] (Level.ofText mode v.text).regions
  have hwarnings : v.warnings mode =
      (Level.ofText mode v.text).unterminated.map
          (fun x => ⟨.unterminated x.1, x.2.shift v.start⟩) ++
        (Level.ofText mode v.text).strayEnds.map (fun x => ⟨.strayEnd x.1, x.2.shift v.start⟩) ++
        inRegions (fun _ _ => []) v.start [] (Level.ofText mode v.text).regions := rfl
  rw [left, hwarnings, List.filterMap_append, List.filterMap_append, hregions, List.append_nil,
    List.filterMap_map, List.filterMap_map, List.map_append, List.map_map, List.map_map,
    ← List.filterMap_eq_map, ← List.filterMap_eq_map]
  rfl

/-- A reading warns about a marker, or takes it for a region, or leaves it in a body. -/
theorem markers_perm (mode : MatchMode) (v : Reading) :
    v.markers.Perm
      (v.left mode ++ (v.found mode).flatMap fun f => f.markers ++ f.body.markers) := by
  have hmoved := (Level.markers_perm mode v.text).map (Token.moved v.start)
  rw [List.map_append, ← left_eq, List.map_flatMap] at hmoved
  have hfound : ∀ x : Region × Span,
      ((x.1.markersAt x.2.start ++ (Token.markers x.1.bodyText).map
          (Token.moved (x.1.bodySpan x.2.start).start)).map (Token.moved v.start)) =
        Found.markers ⟨v.depth, x.1, x.2.shift v.start⟩ ++
          (Found.body ⟨v.depth, x.1, x.2.shift v.start⟩).markers := by
    intro x
    have hstart : v.start + (x.1.bodySpan x.2.start).start =
        (x.1.bodySpan (x.2.start + v.start)).start := by
      simp only [Region.bodySpan]
      omega
    rw [List.map_append, List.map_map, Function.comp_def, ← Region.markersAt_add]
    simp only [Token.moved_moved, hstart]
    rfl
  simp only [hfound] at hmoved
  rw [found, List.flatMap_map]
  exact hmoved

end Reading

/-- All readings together settle the markers of the text but those in the bodies not read. -/
theorem markers_perm_readings (mode : MatchMode) (levels : Nat) (v : Reading) :
    v.markers.Perm ((readings mode levels v).flatMap (Reading.settled mode) ++
      (unread mode levels v).flatMap Reading.markers) := by
  induction levels generalizing v with
  | zero =>
    show v.markers.Perm ([v].flatMap Reading.markers)
    rw [List.flatMap_singleton]
  | succ levels ih =>
    -- The bodies of the regions found are read with one level less.
    have hbodies : ((v.found mode).flatMap fun f => f.body.markers).Perm
        (((v.found mode).flatMap fun f =>
          (readings mode levels f.body).flatMap (Reading.settled mode)) ++
          (v.found mode).flatMap fun f =>
            (unread mode levels f.body).flatMap Reading.markers) :=
      (List.Perm.flatMap_left _ fun f _ => ih f.body).trans (List.flatMap_append_perm _ _ _).symm
    rw [readings, unread, List.flatMap_cons, List.flatMap_assoc, List.flatMap_assoc,
      Reading.settled, List.append_assoc, List.append_assoc]
    refine (Reading.markers_perm mode v).trans (List.Perm.append_left _ ?_)
    exact (List.flatMap_append_perm _ _ _).symm.trans (List.Perm.append_left _ hbodies)

theorem Reading.markers_source (t : Text) : markers ⟨0, 0, t⟩ = Token.markers t := List.map_id _

theorem filterMap_marker?_check_perm (files : Files) (origin : Origin) (mode : MatchMode)
    (t : Text) :
    ((check files origin mode t).filterMap Warning.marker?).Perm
      ((readingsOf mode t).flatMap (Reading.left mode)) := by
  have hsort := (Warning.sort_perm (missing files origin t ++
    inLevels mode (maxDepth + 1) 0 t)).filterMap Warning.marker?
  rw [List.filterMap_append, filterMap_marker?_missing, List.nil_append] at hsort
  have hlevels := (inLevels_perm mode (maxDepth + 1) ⟨0, 0, t⟩).filterMap Warning.marker?
  rw [List.filterMap_flatMap] at hlevels
  exact hsort.trans hlevels

/-- The markers that no reading sees are those in the bodies of the regions found last. -/
theorem flatMap_unread (mode : MatchMode) (t : Text) :
    (unread mode (maxDepth + 1) ⟨0, 0, t⟩).flatMap Reading.markers =
      ((found mode t).filter fun f => f.depth = maxDepth).flatMap fun f =>
        (Token.markers t).filter fun x => x.2.Within f.bodySpan := by
  have hdepth : (0 : Nat) + maxDepth = maxDepth := Nat.zero_add maxDepth
  rw [unread_succ, List.flatMap_map]
  simp only [hdepth]
  refine List.flatMap_congr fun f hf => ?_
  exact Reading.markers_eq_filter (isIn_body_of_mem_found (List.mem_of_mem_filter hf))

/-- The markers of a source are those a check warns about, those of the regions it finds, and
those in bodies too deep to be read. -/
theorem markers_perm_check (files : Files) (origin : Origin) (mode : MatchMode) (t : Text) :
    (Token.markers t).Perm
      ((check files origin mode t).filterMap Warning.marker? ++
        (found mode t).flatMap Found.markers ++
        ((found mode t).filter fun f => f.depth = maxDepth).flatMap fun f =>
          (Token.markers t).filter fun x => x.2.Within f.bodySpan) := by
  have hreadings := markers_perm_readings mode (maxDepth + 1) ⟨0, 0, t⟩
  rw [flatMap_unread, Reading.markers_source] at hreadings
  refine hreadings.trans (List.Perm.append_right _ ?_)
  rw [found, List.flatMap_assoc]
  refine (List.flatMap_append_perm _ _ _).symm.trans (List.Perm.append_right _ ?_)
  exact (filterMap_marker?_check_perm files origin mode t).symm

/-- A region that is found has two markers of its name: one opens it, and one closes it. -/
theorem markers_of_mem_found {v : Reading} {f : Found} (h : f ∈ v.found mode) :
    ∃ name, sameFolded name f.region.name ∧
      f.markers = [(.opening f.region.name, ⟨f.span.start, f.bodySpan.start⟩),
        (.closing name, ⟨f.bodySpan.stop, f.span.stop⟩)] := by
  obtain ⟨⟨r, span⟩, hr, rfl⟩ := List.mem_map.mp h
  obtain ⟨name, hname, hmarkers⟩ :=
    Level.markersAt_of_mem (Level.mem_of_mem_regions hr) (span.shift v.start).start
  have hstop : (span.shift v.start).stop = (span.shift v.start).start + byteSize r.text := by
    have hsize := Level.stop_of_mem_locate (Level.mem_locate_of_mem_regions hr)
    simp only [Part.text] at hsize
    simp only [Span.shift]
    omega
  refine ⟨name, hname, ?_⟩
  simp only [Found.markers, Found.bodySpan, hmarkers, hstop]

theorem starts_inRegions_sublist (m : Nat) (seen : List Text) (regions : List (Region × Span)) :
    ((inRegions (fun _ _ => []) m seen regions).map fun w => w.span.start).Sublist
      (regions.map fun x => (x.2.shift m).start) := by
  induction regions generalizing seen with
  | nil => exact List.Sublist.refl []
  | cons x rest ih =>
    simp only [inRegions, List.append_nil, List.map_append, List.map_cons]
    split
    · exact (ih _).cons_cons _
    · exact (ih _).cons _

/-- The warnings of a reading start where markers start that the reading settles. -/
theorem starts_warnings_sublist (mode : MatchMode) (v : Reading) :
    ((v.warnings mode).map fun w => w.span.start).Sublist
      ((v.settled mode).map fun x => x.2.start) := by
  have hwarnings : (v.warnings mode).map (fun w => w.span.start) =
      (v.left mode).map (fun x => x.2.start) ++
        (inRegions (fun _ _ => []) v.start [] (Level.ofText mode v.text).regions).map
          fun w => w.span.start := by
    rw [Reading.left_eq, Reading.warnings, inLevels, List.map_append]
    simp only [List.map_append, List.map_map]
    rfl
  have hfound : ((v.found mode).map fun f => f.span.start).Sublist
      (((v.found mode).flatMap Found.markers).map fun x => x.2.start) := by
    rw [List.map_eq_flatMap, List.map_flatMap]
    refine List.Sublist.flatMap_right _ fun f hf => ?_
    obtain ⟨name, -, hmarkers⟩ := markers_of_mem_found hf
    rw [hmarkers]
    exact (List.nil_sublist _).cons_cons _
  have hregions := starts_inRegions_sublist v.start [] (Level.ofText mode v.text).regions
  rw [Reading.found, List.map_map] at hfound
  rw [hwarnings, Reading.settled, List.map_append]
  exact (List.Sublist.refl _).append (hregions.trans hfound)

theorem map_filterMap_sublist {α β γ : Type} {f : α → Option β} {g : β → γ} {h : α → γ}
    (hf : ∀ a b, f a = some b → g b = h a) (l : List α) :
    ((l.filterMap f).map g).Sublist (l.map h) := by
  induction l with
  | nil => exact List.Sublist.refl []
  | cons a l ih =>
    cases hfa : f a with
    | none =>
      rw [List.filterMap_cons_none hfa]
      exact ih.cons _
    | some b =>
      rw [List.filterMap_cons_some hfa, List.map_cons, List.map_cons, hf a b hfa]
      exact ih.cons_cons _

theorem starts_missing_sublist (files : Files) (origin : Origin) (t : Text) :
    ((missing files origin t).map fun w => w.span.start).Sublist
      (((Token.ofText t).filter fun x => x.1.path?.isSome).map fun x => x.2.start) := by
  have hinclusions : Token.inclusions t = ((Token.ofText t).filter fun x =>
      x.1.path?.isSome).filterMap fun x => x.1.path?.map (·, x.2) := by
    rw [Token.inclusions, List.filterMap_filter]
    congr 1
    funext x
    cases x.1.path? <;> rfl
  have hmissing : ((missing files origin t).map fun w => w.span.start).Sublist
      ((Token.inclusions t).map fun x => x.2.start) := by
    refine map_filterMap_sublist ?_ _
    intro x w hw
    dsimp only at hw
    split at hw
    · cases hw
    · obtain rfl := Option.some.inj hw
      rfl
  refine hmissing.trans ?_
  rw [hinclusions]
  refine map_filterMap_sublist ?_ _
  intro x y hy
  obtain ⟨path, -, rfl⟩ := Option.map_eq_some_iff.mp hy
  rfl

/-- No two warnings start at one place: each starts where a token of its own starts. -/
theorem nodup_starts_check (files : Files) (origin : Origin) (mode : MatchMode) (t : Text) :
    ((check files origin mode t).map fun w => w.span.start).Nodup := by
  have hmarkers : (Token.markers t).Sublist
      ((Token.ofText t).filter fun x => !x.1.path?.isSome) := by
    refine List.monotone_filter_right _ fun x hx => ?_
    rcases x with ⟨_ | _ | _ | _, _⟩ <;> first | rfl | cases hx
  have htokens : ((((Token.ofText t).filter fun x => x.1.path?.isSome) ++
      Token.markers t).map fun x => x.2.start).Nodup := by
    have hall := ((List.filter_append_perm (fun x => x.1.path?.isSome) (Token.ofText t)).map
      fun x => x.2.start).nodup_iff.mpr (Token.nodup_starts_ofText t)
    exact hall.sublist (((List.Sublist.refl _).append hmarkers).map _)
  have hreadings := markers_perm_readings mode (maxDepth + 1) ⟨0, 0, t⟩
  rw [Reading.markers_source] at hreadings
  have hsettled : ((((Token.ofText t).filter fun x => x.1.path?.isSome) ++
      (readingsOf mode t).flatMap (Reading.settled mode)).map fun x => x.2.start).Nodup := by
    have hsplit := ((hreadings.append_left _).map fun x => x.2.start).nodup_iff.mp htokens
    refine hsplit.sublist (List.Sublist.map _ ?_)
    exact (List.Sublist.refl _).append (List.sublist_append_left _ _)
  have hwarnings : ((missing files origin t ++
      (readingsOf mode t).flatMap (Reading.warnings mode)).map fun w => w.span.start).Nodup := by
    rw [List.map_append] at hsettled ⊢
    refine hsettled.sublist ((starts_missing_sublist files origin t).append ?_)
    rw [List.map_flatMap, List.map_flatMap]
    exact List.Sublist.flatMap_right _ fun v _ => starts_warnings_sublist mode v
  have hcheck : (check files origin mode t).Perm (missing files origin t ++
      (readingsOf mode t).flatMap (Reading.warnings mode)) :=
    (Warning.sort_perm _).trans ((inLevels_perm mode (maxDepth + 1) ⟨0, 0, t⟩).append_left _)
  exact (hcheck.map fun w => w.span.start).nodup_iff.mpr hwarnings

theorem pairwise_start_check (files : Files) (origin : Origin) (mode : MatchMode) (t : Text) :
    (check files origin mode t).Pairwise fun v w => v.span.start < w.span.start := by
  have hsorted : (check files origin mode t).Pairwise fun v w => v.span.start ≤ w.span.start :=
    Warning.pairwise_sort _
  have hne := nodup_starts_check files origin mode t
  rw [List.nodup_iff_pairwise_ne, List.pairwise_map] at hne
  refine (hsorted.and hne).imp ?_
  rintro v w ⟨hle, hvw⟩
  exact Nat.lt_of_le_of_ne hle hvw

/-- A warning that a name is used again is about a region that is found. -/
theorem exists_found_of_duplicate {files : Files} {origin : Origin} {w : Warning} {name : Text}
    (h : w ∈ check files origin mode t) (hw : w.finding = .duplicate name) :
    ∃ f ∈ found mode t, f.region.name = name ∧ f.span = w.span := by
  rcases List.mem_append.mp ((Warning.sort_perm _).mem_iff.mp h) with h | h
  · obtain ⟨path, span, -, -, rfl⟩ := exists_of_mem_missing h
    cases hw
  · have hreadings := (inLevels_perm mode (maxDepth + 1) ⟨0, 0, t⟩).mem_iff.mp h
    obtain ⟨v, hv, hwarning⟩ := List.mem_flatMap.mp hreadings
    simp only [Reading.warnings, inLevels, List.mem_append] at hwarning
    rcases hwarning with (hwarning | hwarning) | hwarning
    · obtain ⟨x, -, rfl⟩ := List.mem_map.mp hwarning
      cases hw
    · obtain ⟨x, -, rfl⟩ := List.mem_map.mp hwarning
      cases hw
    · obtain ⟨r, span, hr, rfl | hnone⟩ := mem_inRegions hwarning
      · refine ⟨⟨v.depth, r, span.shift v.start⟩, ?_, Finding.duplicate.inj hw, rfl⟩
        exact List.mem_flatMap.mpr ⟨v, hv, List.mem_map.mpr ⟨(r, span), hr, rfl⟩⟩
      · cases hnone

/-- Each marker of a source is warned about once with its name, or opens or closes one of the
regions that the check finds, or stands in the body of a region at the last depth. The warnings
are in the order of their places, and what they are about stands there. -/
theorem markers_accounted (files : Files) (origin : Origin) (mode : MatchMode) (t : Text) :
    let warnings := check files origin mode t
    let deepest := (found mode t).filter fun f => f.depth = maxDepth
    (Token.markers t).Perm
        (warnings.filterMap Warning.marker? ++ (found mode t).flatMap Found.markers ++
          deepest.flatMap fun f => (Token.markers t).filter fun x => x.2.Within f.bodySpan) ∧
      ((Token.markers t).map fun x => x.2.start).Nodup ∧
      (∀ f ∈ found mode t, f.depth ≤ maxDepth ∧ ∃ name, sameFolded name f.region.name ∧
        f.markers = [(.opening f.region.name, ⟨f.span.start, f.bodySpan.start⟩),
          (.closing name, ⟨f.bodySpan.stop, f.span.stop⟩)]) ∧
      (warnings.Pairwise fun v w => v.span.start < w.span.start) ∧
      ∀ w ∈ warnings, w.Stands t ∧ ∀ name, w.finding = .duplicate name →
        ∃ f ∈ found mode t, f.region.name = name ∧ f.span = w.span := by
  intro warnings deepest
  refine ⟨markers_perm_check files origin mode t, ?_, ?_, pairwise_start_check files origin mode t,
    fun w hw => ⟨stands_of_mem_check hw, fun name => exists_found_of_duplicate hw⟩⟩
  · exact (Token.nodup_starts_ofText t).sublist (List.filter_sublist.map _)
  · intro f hf
    refine ⟨depth_le_of_mem_found hf, ?_⟩
    obtain ⟨v, -, hfound⟩ := List.mem_flatMap.mp hf
    exact markers_of_mem_found hfound

end Lint
end BlockTemplate
