import BlockTemplate.Lint.Check
import BlockTemplate.Proofs.Level.Markers

/-!
The texts that a check reads, one by one: the source, then the body of each region that is found,
as deep as the check goes. Every reading knows at which byte of the source its text starts, so
that what one reading finds has its place in the source. The warnings of a check are those of its
readings, and what no reading takes up are the bodies of the regions at the last depth.
-/
namespace BlockTemplate.Lint

open Text

/-- A text that is read as one level, with its depth and the byte of the source it starts at. -/
structure Reading where
  depth : Nat
  start : Nat
  text : Text
deriving DecidableEq, Repr

/-- A region that a reading finds, with its span in the source. -/
structure Found where
  depth : Nat
  region : Region
  span : Span
deriving DecidableEq, Repr

namespace Found

def bodySpan (f : Found) : Span := f.region.bodySpan f.span.start

/-- The opening and the closing marker, with their spans in the source. -/
def markers (f : Found) : List (Token × Span) := f.region.markersAt f.span.start

/-- The body as a text to be read. -/
def body (f : Found) : Reading := ⟨f.depth + 1, f.bodySpan.start, f.region.bodyText⟩

end Found

namespace Reading

def found (mode : MatchMode) (v : Reading) : List Found :=
  (Level.ofText mode v.text).regions.map fun x => ⟨v.depth, x.1, x.2.shift v.start⟩

def markers (v : Reading) : List (Token × Span) :=
  (Token.markers v.text).map (Token.moved v.start)

/-- The warnings about this text alone, without those about the bodies in it. -/
def warnings (mode : MatchMode) (v : Reading) : List Warning := inLevels mode 1 v.start v.text

end Reading

/-- The text itself and the bodies within it, as deep as the number of levels allows. -/
def readings (mode : MatchMode) : Nat → Reading → List Reading
  | 0, _ => []
  | levels + 1, v => v :: (v.found mode).flatMap fun f => readings mode levels f.body

/-- The texts that would be read next after so many levels. -/
def unread (mode : MatchMode) : Nat → Reading → List Reading
  | 0, v => [v]
  | levels + 1, v => (v.found mode).flatMap fun f => unread mode levels f.body

/-- The readings of a check of the text. -/
def readingsOf (mode : MatchMode) (t : Text) : List Reading :=
  readings mode (maxDepth + 1) ⟨0, 0, t⟩

/-- All regions that a check of the text finds. -/
def found (mode : MatchMode) (t : Text) : List Found :=
  (readingsOf mode t).flatMap (Reading.found mode)

variable {mode : MatchMode} {t : Text}

theorem depth_of_mem_found {v : Reading} {f : Found} (h : f ∈ v.found mode) :
    f.depth = v.depth := by
  obtain ⟨_, -, rfl⟩ := List.mem_map.mp h
  rfl

theorem depth_of_mem_readings {levels : Nat} {v v' : Reading} (h : v' ∈ readings mode levels v) :
    v.depth ≤ v'.depth ∧ v'.depth < v.depth + levels := by
  induction levels generalizing v with
  | zero => cases h
  | succ levels ih =>
    rcases List.mem_cons.mp h with rfl | hbody
    · omega
    · obtain ⟨f, hf, hv'⟩ := List.mem_flatMap.mp hbody
      have hdepth := depth_of_mem_found hf
      have hlater := ih hv'
      simp only [Found.body] at hlater
      omega

theorem depth_le_of_mem_found {f : Found} (h : f ∈ found mode t) : f.depth ≤ maxDepth := by
  obtain ⟨v, hv, hf⟩ := List.mem_flatMap.mp h
  have hdepth := (depth_of_mem_readings hv).2
  rw [depth_of_mem_found hf]
  simp only at hdepth
  omega

/-- The bodies that are not read are those of the regions found last. -/
theorem unread_succ (mode : MatchMode) (levels : Nat) (v : Reading) :
    unread mode (levels + 1) v =
      (((readings mode (levels + 1) v).flatMap (Reading.found mode)).filter
        fun f => f.depth = v.depth + levels).map Found.body := by
  induction levels generalizing v with
  | zero =>
    have hall : (v.found mode).filter (fun f => f.depth = v.depth + 0) = v.found mode :=
      List.filter_eq_self.mpr fun f hf => decide_eq_true (depth_of_mem_found hf)
    have hone : readings mode (0 + 1) v = [v] := by simp [readings]
    rw [hone, List.flatMap_singleton, hall]
    exact List.flatMap_pure_eq_map Found.body (v.found mode)
  | succ levels ih =>
    have hnone : (v.found mode).filter (fun f => f.depth = v.depth + (levels + 1)) = [] := by
      refine List.filter_eq_nil_iff.mpr fun f hf => ?_
      have hdepth := depth_of_mem_found hf
      simp only [decide_eq_true_eq]
      omega
    rw [unread, readings, List.flatMap_cons, List.filter_append, hnone, List.nil_append,
      List.flatMap_assoc, List.filter_flatMap, List.map_flatMap]
    refine List.flatMap_congr fun f hf => ?_
    have hdepth : f.body.depth + levels = v.depth + (levels + 1) := by
      simp only [Found.body, depth_of_mem_found hf]
      omega
    rw [ih, hdepth]

/-- The warnings about regions come before or between those about the bodies. -/
theorem inRegions_perm (inBody : Nat → Text → List Warning) (m : Nat) (seen : List Text)
    (regions : List (Region × Span)) :
    (inRegions inBody m seen regions).Perm
      (inRegions (fun _ _ => []) m seen regions ++ regions.flatMap fun x =>
        inBody (m + (x.1.bodySpan x.2.start).start) x.1.bodyText) := by
  induction regions generalizing seen with
  | nil => exact List.Perm.nil
  | cons x rest ih =>
    obtain ⟨r, span⟩ := x
    simp only [inRegions, List.flatMap_cons, List.append_nil, List.append_assoc]
    refine List.Perm.append_left _ ?_
    refine (List.Perm.append_left _ (ih _)).trans ?_
    rw [← List.append_assoc, ← List.append_assoc]
    exact List.Perm.append_right _ List.perm_append_comm

/-- The warnings of all levels are those of the readings. -/
theorem inLevels_perm (mode : MatchMode) (levels : Nat) (v : Reading) :
    (inLevels mode levels v.start v.text).Perm
      ((readings mode levels v).flatMap (Reading.warnings mode)) := by
  induction levels generalizing v with
  | zero => exact List.Perm.nil
  | succ levels ih =>
    have hbodies : ((Level.ofText mode v.text).regions.flatMap fun x =>
        inLevels mode levels (v.start + (x.1.bodySpan x.2.start).start) x.1.bodyText).Perm
          ((v.found mode).flatMap fun f =>
            (readings mode levels f.body).flatMap (Reading.warnings mode)) := by
      rw [Reading.found, List.flatMap_map]
      refine List.Perm.flatMap_left _ fun x _ => ?_
      have hstart : v.start + (x.1.bodySpan x.2.start).start =
          (x.1.bodySpan (x.2.shift v.start).start).start := by
        simp only [Region.bodySpan, Span.shift]
        omega
      rw [hstart]
      exact ih ⟨v.depth + 1, _, x.1.bodyText⟩
    rw [inLevels, readings, List.flatMap_cons, List.flatMap_assoc]
    refine (List.Perm.append_left _ (inRegions_perm _ _ _ _)).trans ?_
    rw [← List.append_assoc]
    exact List.Perm.append (List.Perm.refl _) hbodies

namespace Reading

/-- The pieces of the text that is read stand among those of the source, where it starts. -/
def IsIn (t : Text) (v : Reading) : Prop :=
  ∃ before after, Piece.ofText t = before ++ Piece.ofText v.text ++ after ∧
    v.start = byteSize (Piece.textOf before)

theorem isIn_self (t : Text) : IsIn t ⟨0, 0, t⟩ := ⟨[], [], by simp, rfl⟩

end Reading

theorem isIn_body {v : Reading} (hv : v.IsIn t) {f : Found} (hf : f ∈ v.found mode) :
    f.body.IsIn t := by
  obtain ⟨before, after, hpieces, hstart⟩ := hv
  obtain ⟨⟨r, span⟩, hr, rfl⟩ := List.mem_map.mp hf
  obtain ⟨before', after', hwithin, hspan⟩ := Level.pieces_of_mem_regions hr
  refine ⟨before ++ before' ++ [r.opening], r.closing :: after' ++ after, ?_, ?_⟩
  · rw [hpieces, hwithin]
    show _ = _ ++ Piece.ofText r.bodyText ++ _
    rw [Level.pieces_bodyText (Level.mem_of_mem_regions hr)]
    simp
  · simp [Found.body, Found.bodySpan, Region.bodySpan, Span.shift, Piece.size, hspan, hstart]
    omega

theorem isIn_of_mem_readings {levels : Nat} {v v' : Reading} (hv : v.IsIn t)
    (h : v' ∈ readings mode levels v) : v'.IsIn t := by
  induction levels generalizing v with
  | zero => cases h
  | succ levels ih =>
    rcases List.mem_cons.mp h with rfl | hbody
    · exact hv
    · obtain ⟨f, hf, hv'⟩ := List.mem_flatMap.mp hbody
      exact ih (isIn_body hv hf) hv'

/-- The body of every region that a check finds stands in the source. -/
theorem isIn_body_of_mem_found {f : Found} (h : f ∈ found mode t) : f.body.IsIn t := by
  obtain ⟨v, hv, hf⟩ := List.mem_flatMap.mp h
  exact isIn_body (isIn_of_mem_readings (Reading.isIn_self t) hv) hf

/-- The markers of a text that is read are the markers of the source within its span. -/
theorem Reading.markers_eq_filter {v : Reading} (h : v.IsIn t) :
    v.markers = (Token.markers t).filter
      fun x => x.2.Within ⟨v.start, v.start + byteSize v.text⟩ := by
  obtain ⟨before, after, hpieces, hstart⟩ := h
  rw [hstart, Token.filter_within_markers hpieces, Reading.markers, hstart]

end BlockTemplate.Lint
