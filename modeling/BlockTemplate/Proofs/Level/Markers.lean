import BlockTemplate.Proofs.Level.Regions
import BlockTemplate.Proofs.Markup.Position
import Mathlib.Data.List.Flatten
import Mathlib.Data.List.Perm.Basic

/-!
The markers of a text and the parts of its level. A part has one piece or the pieces of a region,
and put together these are the pieces of the text, each at its place. So every marker stays text
without an end, stays text without a beginning, is one of the two markers of a region, or stands
in the body of a region, where it is found again when the body is read alone.
-/
namespace BlockTemplate

open Text

/-- A token with its span, as it is seen from `m` bytes further to the left. -/
def Token.moved (m : Nat) (x : Token × Span) : Token × Span := (x.1, x.2.shift m)

theorem Token.moved_moved (m n : Nat) (x : Token × Span) :
    moved m (moved n x) = moved (m + n) x := by
  simp only [moved, Span.shift, Prod.mk.injEq, Span.mk.injEq, true_and]
  omega

namespace Piece

/-- The markers among pieces, where the first piece starts at byte `m`. -/
def markersFrom (m : Nat) (ps : List Piece) : List (Token × Span) :=
  (locateFrom m ps).filter (·.1.markerName?.isSome)

theorem markersFrom_append (m : Nat) (ps qs : List Piece) :
    markersFrom m (ps ++ qs) =
      markersFrom m ps ++ markersFrom (m + byteSize (textOf ps)) qs := by
  rw [markersFrom, locateFrom_append, List.filter_append]
  rfl

theorem markersFrom_eq_map (m : Nat) (ps : List Piece) :
    markersFrom m ps = (markersFrom 0 ps).map (Token.moved m) := by
  have hadd := locateFrom_add m 0 ps
  rw [Nat.add_zero] at hadd
  rw [markersFrom, hadd, List.filter_map]
  rfl

theorem markersFrom_of_marker {p : Piece} {token : Token} (hp : p.token = some token)
    (htoken : token.markerName?.isSome = true) (m : Nat) :
    markersFrom m [p] = [(token, ⟨m, m + p.size⟩)] := by
  simp [markersFrom, locateFrom, hp, htoken]

end Piece

namespace Token

variable {t u : Text} {before after : List Piece}

/-- The tokens of a text whose pieces stand among those of another text are the tokens of that
text within its span. -/
theorem filter_within_ofText (h : Piece.ofText t = before ++ Piece.ofText u ++ after) :
    (ofText t).filter (fun x => x.2.Within
        ⟨byteSize (Piece.textOf before), byteSize (Piece.textOf before) + byteSize u⟩) =
      (ofText u).map (moved (byteSize (Piece.textOf before))) := by
  have hpos : ∀ p ∈ before ++ Piece.ofText u ++ after, 0 < p.size := by
    rw [← h]
    exact fun p hp => Piece.size_pos_of_mem_ofText hp
  have hspan : (⟨byteSize (Piece.textOf before),
      byteSize (Piece.textOf before) + byteSize u⟩ : Span) =
      ⟨byteSize (Piece.textOf before), byteSize (Piece.textOf (before ++ Piece.ofText u))⟩ := by
    rw [Piece.textOf_append, Piece.textOf_ofText, byteSize_append]
  have hfilter := Piece.filter_within_locateFrom hpos hspan
  rw [← h, ← Nat.add_zero (byteSize (Piece.textOf before)), Piece.locateFrom_add] at hfilter
  exact hfilter

/-- So are the markers among them. -/
theorem filter_within_markers (h : Piece.ofText t = before ++ Piece.ofText u ++ after) :
    (markers t).filter (fun x => x.2.Within
        ⟨byteSize (Piece.textOf before), byteSize (Piece.textOf before) + byteSize u⟩) =
      (markers u).map (moved (byteSize (Piece.textOf before))) := by
  rw [markers, List.filter_comm, filter_within_ofText h, List.filter_map]
  rfl

end Token

namespace Part

def pieces : Part → List Piece
  | .kept p => [p]
  | .region r => r.opening :: r.body ++ [r.closing]

theorem textOf_pieces (part : Part) : Piece.textOf part.pieces = part.text := by
  cases part with
  | kept p => simp [pieces, text]
  | region r => simp [pieces, text, Region.text, Region.bodyText]

end Part

namespace Region

/-- The span of the opening marker of a region that starts at byte `m`. -/
def openingSpan (r : Region) (m : Nat) : Span := ⟨m, (r.bodySpan m).start⟩

/-- The span of the closing marker of a region that starts at byte `m`. -/
def closingSpan (r : Region) (m : Nat) : Span :=
  ⟨(r.bodySpan m).stop, (r.bodySpan m).stop + r.closing.size⟩

/-- The opening and the closing marker of a region that starts at byte `m`. -/
def markersAt (r : Region) (m : Nat) : List (Token × Span) :=
  (r.opening.token.map (·, r.openingSpan m)).toList ++
    (r.closing.token.map (·, r.closingSpan m)).toList

end Region

namespace Level

variable {mode : MatchMode} {t : Text}

/-- The pieces of the parts are the pieces that the level was made from. -/
theorem flatMap_pieces_ofPieces (mode : MatchMode) (ps : List Piece) :
    (ofPieces mode ps).flatMap Part.pieces = ps := by
  fun_induction ofPieces mode ps with
  | case1 => rfl
  | case2 p ps name _ c hc _ ih =>
    rw [List.flatMap_cons, ih, Closing.eq_of_find? hc]
    simp [Part.pieces]
  | case3 p ps name _ _ ih =>
    rw [List.flatMap_cons, ih]
    rfl
  | case4 p ps _ ih =>
    rw [List.flatMap_cons, ih]
    rfl

theorem markersFrom_flatMap_pieces (m : Nat) (level : Level) :
    Piece.markersFrom m (level.flatMap Part.pieces) =
      (locateFrom m level).flatMap fun x => Piece.markersFrom x.2.start x.1.pieces := by
  induction level generalizing m with
  | nil => rfl
  | cons part rest ih =>
    rw [List.flatMap_cons, Piece.markersFrom_append, Part.textOf_pieces, ih]
    rfl

theorem textOf_flatMap_pieces (level : Level) :
    Piece.textOf (level.flatMap Part.pieces) = level.flatMap Part.text := by
  rw [Piece.textOf, List.flatMap_assoc]
  exact List.flatMap_congr fun part _ => Part.textOf_pieces part

/-- The pieces of a region stand where the region was located. -/
theorem pieces_of_mem_regions {r : Region} {span : Span} (h : (r, span) ∈ (ofText mode t).regions) :
    ∃ before after, Piece.ofText t = before ++ (r.opening :: r.body ++ [r.closing]) ++ after ∧
      span.start = byteSize (Piece.textOf before) := by
  obtain ⟨before, after, hlevel, rfl⟩ := exists_of_mem_locateFrom (mem_locate_of_mem_regions h)
  refine ⟨before.flatMap Part.pieces, after.flatMap Part.pieces, ?_, ?_⟩
  · rw [← flatMap_pieces_ofPieces mode (Piece.ofText t), ← ofText, hlevel]
    simp [Part.pieces]
  · rw [textOf_flatMap_pieces]
    exact Nat.zero_add _

section Places

variable {part : Part} {span : Span}

theorem holds_of_mem_locate (h : (part, span) ∈ locate (ofText mode t)) :
    span.Holds t part.text := by
  obtain ⟨before, after, hlevel, rfl⟩ := exists_of_mem_locateFrom h
  refine ⟨before.flatMap Part.text, after.flatMap Part.text, ?_, by simp⟩
  rw [← text_ofText mode t, hlevel]
  simp

/-- A marker that is left as text stands where it was located. -/
theorem holds_of_kept {p : Piece} {token : Token} (hp : p.token = some token)
    (h : (Part.kept p, span) ∈ locate (ofText mode t)) :
    ∃ w, Token.Written token w ∧ span.Holds t w :=
  ⟨p.text, Piece.written_of_mem_ofText (mem_of_kept_mem (mem_of_mem_locate h)) hp,
    holds_of_mem_locate h⟩

theorem holds_of_mem_unterminated {marker : Text}
    (h : (marker, span) ∈ unterminated (ofText mode t)) :
    ∃ w, Token.Written (.opening marker) w ∧ span.Holds t w := by
  obtain ⟨p, hp, hmem⟩ := mem_unterminated_iff.mp h
  exact holds_of_kept hp hmem

theorem holds_of_mem_strayEnds {marker : Text}
    (h : (marker, span) ∈ strayEnds (ofText mode t)) :
    ∃ w, Token.Written (.closing marker) w ∧ span.Holds t w := by
  obtain ⟨⟨part, span'⟩, hmem, heq⟩ := List.mem_filterMap.mp h
  split at heq
  · next n _ hpart =>
    obtain ⟨rfl, rfl⟩ := Prod.mk.inj (Option.some.inj heq)
    obtain ⟨rfl, rfl⟩ := Prod.mk.inj hpart
    exact holds_of_kept rfl hmem
  · cases heq

/-- A region stands where it was located, between its two markers. -/
theorem holds_of_mem_regions {r : Region} (h : (r, span) ∈ regions (ofText mode t)) :
    ∃ w w' name, Token.Written (.opening r.name) w ∧ Token.Written (.closing name) w' ∧
      sameFolded name r.name ∧ span.Holds t (w ++ r.bodyText ++ w') := by
  have hmem := mem_of_mem_regions h
  have hpieces := (infix_of_region_mem hmem).subset
  obtain ⟨name, hclosing, hname⟩ := token_closing hmem
  exact ⟨r.opening.text, r.closing.text, name, written_opening hmem,
    Piece.written_of_mem_ofText (hpieces (by simp)) hclosing, hname,
    holds_of_mem_locate (mem_locate_of_mem_regions h)⟩

end Places

/-- The markers of a region's body, when it is read alone, are those within the body. -/
theorem filter_within_bodySpan {r : Region} {span : Span}
    (h : (r, span) ∈ (ofText mode t).regions) :
    (Token.markers t).filter (fun x => x.2.Within (r.bodySpan span.start)) =
      (Token.markers r.bodyText).map (Token.moved (r.bodySpan span.start).start) := by
  obtain ⟨before, after, hpieces, hstart⟩ := pieces_of_mem_regions h
  have hbody : Piece.ofText t =
      before ++ [r.opening] ++ Piece.ofText r.bodyText ++ (r.closing :: after) := by
    rw [pieces_bodyText (mem_of_mem_regions h), hpieces]
    simp
  have hsize : byteSize (Piece.textOf (before ++ [r.opening])) = (r.bodySpan span.start).start := by
    simp [Region.bodySpan, Piece.size, hstart]
  have hfilter := Token.filter_within_markers hbody
  rw [hsize] at hfilter
  exact hfilter

/-- The marker of a part that is an opening marker without an end. -/
def opening? : Part × Span → Option (Token × Span)
  | (.kept ⟨some (.opening name), _⟩, span) => some (.opening name, span)
  | _ => none

/-- The marker of a part that is a closing marker of nothing. -/
def closing? : Part × Span → Option (Token × Span)
  | (.kept ⟨some (.closing name), _⟩, span) => some (.closing name, span)
  | _ => none

/-- The markers of a part that is a region, and those that reading its body finds. -/
def inRegion : Part × Span → List (Token × Span)
  | (.region r, span) => r.markersAt span.start ++
      (Token.markers r.bodyText).map (Token.moved (r.bodySpan span.start).start)
  | _ => []

theorem filterMap_opening? (level : Level) : level.locate.filterMap opening? =
    level.unterminated.map fun x => (.opening x.1, x.2) := by
  rw [unterminated, List.map_filterMap]
  congr 1
  funext ⟨part, span⟩
  rcases part with ⟨_ | ⟨_ | _ | _ | _⟩, _⟩ | r <;> rfl

theorem filterMap_closing? (level : Level) : level.locate.filterMap closing? =
    level.strayEnds.map fun x => (.closing x.1, x.2) := by
  rw [strayEnds, List.map_filterMap]
  congr 1
  funext ⟨part, span⟩
  rcases part with ⟨_ | ⟨_ | _ | _ | _⟩, _⟩ | r <;> rfl

theorem flatMap_inRegion (level : Level) : level.locate.flatMap inRegion =
    level.regions.flatMap fun x => x.1.markersAt x.2.start ++
      (Token.markers x.1.bodyText).map (Token.moved (x.1.bodySpan x.2.start).start) := by
  rw [regions, List.filterMap_eq_flatMap_toList, List.flatMap_assoc]
  congr 1
  funext ⟨part, span⟩
  cases part with
  | kept p => rfl
  | region r => simp [inRegion]

theorem stop_of_mem_locate {level : Level} {part : Part} {span : Span}
    (h : (part, span) ∈ locate level) : span.stop = span.start + byteSize part.text := by
  obtain ⟨before, after, -, rfl⟩ := exists_of_mem_locateFrom h
  rfl

/-- A region has two markers of its name: one opens it, and one closes it. -/
theorem markersAt_of_mem {r : Region} (h : Part.region r ∈ ofText mode t) (m : Nat) :
    ∃ name, sameFolded name r.name ∧ r.markersAt m =
      [(.opening r.name, ⟨m, (r.bodySpan m).start⟩),
        (.closing name, ⟨(r.bodySpan m).stop, m + byteSize r.text⟩)] := by
  obtain ⟨name, hclosing, hname⟩ := token_closing h
  have hstop : (r.bodySpan m).stop + r.closing.size = m + byteSize r.text := by
    simp only [Region.bodySpan, Region.text, Piece.size, byteSize_append]
    omega
  refine ⟨name, hname, ?_⟩
  rw [Region.markersAt, token_opening h, hclosing, Region.openingSpan, Region.closingSpan, hstop]
  rfl

/-- The markers of the pieces of a region: the two of the region, and those of its body. -/
theorem markersFrom_region_perm {r : Region} (h : Part.region r ∈ ofText mode t) (m : Nat) :
    (Piece.markersFrom m (Part.region r).pieces).Perm (r.markersAt m ++
      (Token.markers r.bodyText).map (Token.moved (r.bodySpan m).start)) := by
  have hopening := token_opening h
  obtain ⟨name, hclosing, -⟩ := token_closing h
  have hbody : Piece.markersFrom (r.bodySpan m).start r.body =
      (Token.markers r.bodyText).map (Token.moved (r.bodySpan m).start) := by
    rw [Piece.markersFrom_eq_map, ← pieces_bodyText h]
    rfl
  have hparts : Piece.markersFrom m (Part.region r).pieces =
      Piece.markersFrom m [r.opening] ++ Piece.markersFrom (r.bodySpan m).start r.body ++
        Piece.markersFrom (r.bodySpan m).stop [r.closing] := by
    have hpieces : (Part.region r).pieces = [r.opening] ++ r.body ++ [r.closing] := rfl
    have hstop : m + byteSize (Piece.textOf ([r.opening] ++ r.body)) = (r.bodySpan m).stop := by
      simp [Region.bodySpan, Region.bodyText, Piece.size, Nat.add_assoc]
    have hstart : m + byteSize (Piece.textOf [r.opening]) = (r.bodySpan m).start := by
      simp [Region.bodySpan, Piece.size]
    rw [hpieces, Piece.markersFrom_append, Piece.markersFrom_append, hstop, hstart]
  have hmarkers : r.markersAt m = Piece.markersFrom m [r.opening] ++
      Piece.markersFrom (r.bodySpan m).stop [r.closing] := by
    rw [Piece.markersFrom_of_marker hopening rfl, Piece.markersFrom_of_marker hclosing rfl,
      Region.markersAt, hopening, hclosing]
    rfl
  rw [hparts, hbody, hmarkers, List.append_assoc, List.append_assoc]
  exact List.Perm.append_left _ List.perm_append_comm

/-- The markers of a part are left as text, or they belong to a region or to its body. -/
theorem markersFrom_pieces_perm {x : Part × Span} (h : x ∈ locate (ofText mode t)) :
    (Piece.markersFrom x.2.start x.1.pieces).Perm
      ((opening? x).toList ++ (closing? x).toList ++ inRegion x) := by
  obtain ⟨part, start, stop⟩ := x
  cases part with
  | kept p =>
    obtain rfl : stop = start + p.size := stop_of_mem_locate h
    obtain ⟨token, text⟩ := p
    cases token with
    | none => exact List.Perm.nil
    | some token => cases token <;> exact List.Perm.refl _
  | region r => exact markersFrom_region_perm (mem_of_mem_locate h) start

/-- Each marker of a text is left at its level as an opening or as a closing marker, is a marker
of a region, or is found in the body of a region. -/
theorem markers_perm (mode : MatchMode) (t : Text) :
    (Token.markers t).Perm
      ((ofText mode t).unterminated.map (fun x => (.opening x.1, x.2)) ++
        (ofText mode t).strayEnds.map (fun x => (.closing x.1, x.2)) ++
        (ofText mode t).regions.flatMap fun x => x.1.markersAt x.2.start ++
          (Token.markers x.1.bodyText).map (Token.moved (x.1.bodySpan x.2.start).start)) := by
  have hparts : Token.markers t = (locate (ofText mode t)).flatMap fun x =>
      Piece.markersFrom x.2.start x.1.pieces := by
    rw [locate, ← markersFrom_flatMap_pieces, ofText, flatMap_pieces_ofPieces]
    rfl
  rw [hparts, ← filterMap_opening?, ← filterMap_closing?, ← flatMap_inRegion,
    List.filterMap_eq_flatMap_toList, List.filterMap_eq_flatMap_toList]
  refine (List.Perm.flatMap_left _ fun x hx => markersFrom_pieces_perm hx).trans ?_
  refine (List.flatMap_append_perm _ _ _).symm.trans (List.Perm.append_right _ ?_)
  exact (List.flatMap_append_perm _ _ _).symm

end Level
end BlockTemplate
