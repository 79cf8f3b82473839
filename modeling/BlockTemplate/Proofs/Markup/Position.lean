import BlockTemplate.Proofs.Markup.Stretch
import Mathlib.Data.List.Nodup

/-!
Where the pieces of a text stand. Each piece has a span, one begins where the one before it ends,
and none is empty. The tokens of a text are thus in the order of their spans, and a piece that is
cut out together with others keeps its span but for the bytes before the cut.
-/
namespace BlockTemplate

open Text

theorem Text.byteSize_pos {t : Text} (h : t ≠ []) : 0 < byteSize t := by
  obtain ⟨c, t, rfl⟩ := List.exists_cons_of_ne_nil h
  have hc := c.utf8Size_pos
  rw [byteSize_cons]
  omega

/-- The bytes of a text from `start` to `stop` are those of `w`. -/
def Span.Holds (span : Span) (t w : Text) : Prop :=
  ∃ before after, t = before ++ w ++ after ∧
    span = ⟨byteSize before, byteSize before + byteSize w⟩

theorem Span.Holds.shift {span : Span} {t w : Text} (h : span.Holds t w) (before after : Text) :
    (span.shift (byteSize before)).Holds (before ++ t ++ after) w := by
  obtain ⟨a, b, rfl, rfl⟩ := h
  refine ⟨before ++ a, b ++ after, by simp, ?_⟩
  simp only [Span.shift, byteSize_append, Span.mk.injEq]
  omega

theorem Span.Holds.start_lt_stop {span : Span} {t w : Text} (h : span.Holds t w) (hw : w ≠ []) :
    span.start < span.stop := by
  obtain ⟨before, after, -, rfl⟩ := h
  exact Nat.lt_add_of_pos_right (Text.byteSize_pos hw)

/-- The span lies within another one. -/
def Span.Within (s s' : Span) : Prop := s'.start ≤ s.start ∧ s.stop ≤ s'.stop

instance (s s' : Span) : Decidable (s.Within s') := inferInstanceAs (Decidable (_ ∧ _))

/-- Of stretches that stand one behind the other, two that overlap are one. -/
theorem Span.eq_of_overlap {α : Type} {l : List (α × Span)}
    (h : l.Pairwise fun x y => x.2.stop ≤ y.2.start) {x y : α × Span} (hx : x ∈ l) (hy : y ∈ l)
    (hxy : x.2.start < y.2.stop) (hyx : y.2.start < x.2.stop) : x = y := by
  refine List.Pairwise.forall_of_forall_of_flip
    (R := fun x y => x.2.start < y.2.stop → y.2.start < x.2.stop → x = y)
    (fun _ _ _ _ => rfl) ?_ ?_ hx hy hxy hyx
  · exact h.imp fun hle _ hlt => absurd hle (Nat.not_le.mpr hlt)
  · exact h.imp fun hle hlt _ => absurd hle (Nat.not_le.mpr hlt)

namespace Piece

variable {m n : Nat} {ps qs : List Piece} {t : Text}

/-- The pieces with their spans, where the first piece starts at byte `m`. -/
def placeFrom (m : Nat) : List Piece → List (Piece × Span)
  | [] => []
  | p :: ps => (p, ⟨m, m + p.size⟩) :: placeFrom (m + p.size) ps

theorem locateFrom_eq_filterMap (m : Nat) (ps : List Piece) :
    locateFrom m ps = (placeFrom m ps).filterMap fun x => x.1.token.map (·, x.2) := by
  induction ps generalizing m with
  | nil => rfl
  | cons p ps ih =>
    rw [placeFrom, List.filterMap_cons, locateFrom, ih]
    cases p.token <;> rfl

theorem map_fst_locateFrom (m : Nat) (ps : List Piece) :
    (locateFrom m ps).map Prod.fst = ps.filterMap token := by
  induction ps generalizing m with
  | nil => rfl
  | cons p ps ih =>
    cases h : p.token with
    | none => simp [locateFrom, h, ih]
    | some token => simp [locateFrom, h, ih]

theorem placeFrom_append (m : Nat) (ps qs : List Piece) :
    placeFrom m (ps ++ qs) = placeFrom m ps ++ placeFrom (m + byteSize (textOf ps)) qs := by
  induction ps generalizing m with
  | nil => rfl
  | cons p ps ih =>
    have hsize : m + p.size + byteSize (textOf ps) = m + byteSize (textOf (p :: ps)) := by
      rw [textOf_cons, byteSize_append, size]
      omega
    rw [List.cons_append, placeFrom, ih, hsize]
    rfl

theorem placeFrom_add (m n : Nat) (ps : List Piece) :
    placeFrom (m + n) ps = (placeFrom n ps).map fun x => (x.1, x.2.shift m) := by
  induction ps generalizing n with
  | nil => rfl
  | cons p ps ih =>
    have hspan : (⟨m + n, m + n + p.size⟩ : Span) = Span.shift m ⟨n, n + p.size⟩ := by
      simp only [Span.shift, Span.mk.injEq]
      omega
    rw [placeFrom, placeFrom, List.map_cons, hspan, Nat.add_assoc, ih]

theorem locateFrom_append (m : Nat) (ps qs : List Piece) :
    locateFrom m (ps ++ qs) = locateFrom m ps ++ locateFrom (m + byteSize (textOf ps)) qs := by
  simp only [locateFrom_eq_filterMap, placeFrom_append, List.filterMap_append]

theorem locateFrom_add (m n : Nat) (ps : List Piece) :
    locateFrom (m + n) ps = (locateFrom n ps).map fun x => (x.1, x.2.shift m) := by
  rw [locateFrom_eq_filterMap, locateFrom_eq_filterMap, placeFrom_add, List.filterMap_map,
    List.map_filterMap]
  congr 1
  funext x
  show x.1.token.map _ = (x.1.token.map _).map _
  rw [Option.map_map]
  rfl

theorem mem_of_mem_placeFrom {x : Piece × Span} (h : x ∈ placeFrom m ps) : x.1 ∈ ps := by
  induction ps generalizing m with
  | nil => cases h
  | cons p ps ih =>
    rcases List.mem_cons.mp h with rfl | hrest
    · exact List.mem_cons_self
    · exact List.mem_cons_of_mem p (ih hrest)

theorem exists_of_mem_placeFrom {p : Piece} {span : Span} (h : (p, span) ∈ placeFrom m ps) :
    ∃ front back, ps = front ++ p :: back ∧
      span = ⟨m + byteSize (textOf front), m + byteSize (textOf front) + p.size⟩ := by
  induction ps generalizing m with
  | nil => cases h
  | cons q ps ih =>
    rcases List.mem_cons.mp h with heq | hrest
    · obtain ⟨rfl, rfl⟩ := Prod.mk.inj heq
      exact ⟨[], ps, rfl, rfl⟩
    · obtain ⟨front, back, rfl, rfl⟩ := ih hrest
      exact ⟨q :: front, back, rfl, by simp [size, Nat.add_assoc]⟩

/-- A token is located where the piece with this token stands. -/
theorem mem_locateFrom_iff {token : Token} {span : Span} : (token, span) ∈ locateFrom m ps ↔
    ∃ p, (p, span) ∈ placeFrom m ps ∧ p.token = some token := by
  rw [locateFrom_eq_filterMap, List.mem_filterMap]
  constructor
  · rintro ⟨⟨p, s⟩, hp, hx⟩
    obtain ⟨token', htoken, heq⟩ := Option.map_eq_some_iff.mp hx
    obtain ⟨rfl, rfl⟩ := Prod.mk.inj heq
    exact ⟨p, hp, htoken⟩
  · rintro ⟨p, hp, htoken⟩
    exact ⟨(p, span), hp, by rw [htoken]; rfl⟩

theorem bounds_of_mem_placeFrom {x : Piece × Span} (h : x ∈ placeFrom m ps) :
    m ≤ x.2.start ∧ x.2.stop = x.2.start + x.1.size ∧ x.2.stop ≤ m + byteSize (textOf ps) := by
  induction ps generalizing m with
  | nil => cases h
  | cons p ps ih =>
    have hsize : byteSize (textOf (p :: ps)) = p.size + byteSize (textOf ps) := by
      rw [textOf_cons, byteSize_append, size]
    rcases List.mem_cons.mp h with rfl | hrest
    · refine ⟨Nat.le_refl m, rfl, ?_⟩
      simp only
      omega
    · obtain ⟨hstart, hstop, hend⟩ := ih hrest
      refine ⟨?_, hstop, ?_⟩ <;> omega

/-- Tokens of pieces that are not empty are not empty, and stand between the ends of the pieces. -/
theorem bounds_of_mem_locateFrom {x : Token × Span} (hpos : ∀ p ∈ ps, 0 < p.size)
    (h : x ∈ locateFrom m ps) :
    m ≤ x.2.start ∧ x.2.start < x.2.stop ∧ x.2.stop ≤ m + byteSize (textOf ps) := by
  obtain ⟨p, hp, -⟩ := mem_locateFrom_iff.mp h
  have hsize := hpos p (mem_of_mem_placeFrom hp)
  have hbounds := bounds_of_mem_placeFrom hp
  simp only at hbounds ⊢
  omega

/-- The tokens of pieces in the middle are the tokens that stand within their span. -/
theorem filter_within_locateFrom {before ps after : List Piece} {span : Span}
    (hpos : ∀ p ∈ before ++ ps ++ after, 0 < p.size)
    (hspan : span = ⟨byteSize (textOf before), byteSize (textOf (before ++ ps))⟩) :
    (locateFrom 0 (before ++ ps ++ after)).filter (fun x => x.2.Within span) =
      locateFrom (byteSize (textOf before)) ps := by
  subst hspan
  rw [locateFrom_append, locateFrom_append, Nat.zero_add, Nat.zero_add]
  generalize hstart : byteSize (textOf before) = start
  generalize hstop : byteSize (textOf (before ++ ps)) = stop
  have hsize : start + byteSize (textOf ps) = stop := by
    rw [← hstart, ← hstop, textOf_append, byteSize_append]
  have hbounds : ∀ {m : Nat} {qs : List Piece}, qs ⊆ before ++ ps ++ after →
      ∀ x ∈ locateFrom m qs,
        m ≤ x.2.start ∧ x.2.start < x.2.stop ∧ x.2.stop ≤ m + byteSize (textOf qs) :=
    fun hqs _ hx => bounds_of_mem_locateFrom (fun p hp => hpos p (hqs hp)) hx
  have hbefore : (locateFrom 0 before).filter (fun x => x.2.Within ⟨start, stop⟩) = [] := by
    refine List.filter_eq_nil_iff.mpr fun x hx hwithin => ?_
    have hx := hbounds (by simp) x hx
    have hwithin := (of_decide_eq_true hwithin).1
    simp only at hwithin
    omega
  have hmiddle : (locateFrom start ps).filter (fun x => x.2.Within ⟨start, stop⟩) =
      locateFrom start ps := by
    refine List.filter_eq_self.mpr fun x hx => decide_eq_true ?_
    have hx := hbounds (by simp) x hx
    exact ⟨hx.1, hsize ▸ hx.2.2⟩
  have hafter : (locateFrom stop after).filter (fun x => x.2.Within ⟨start, stop⟩) = [] := by
    refine List.filter_eq_nil_iff.mpr fun x hx hwithin => ?_
    have hx := hbounds (by simp) x hx
    have hwithin := (of_decide_eq_true hwithin).2
    simp only at hwithin
    omega
  rw [List.filter_append, List.filter_append, hbefore, hmiddle, hafter, List.nil_append,
    List.append_nil]

/-- Pieces stand one behind the other. -/
theorem pairwise_placeFrom (m : Nat) (ps : List Piece) :
    (placeFrom m ps).Pairwise fun x y => x.2.stop ≤ y.2.start := by
  induction ps generalizing m with
  | nil => exact List.Pairwise.nil
  | cons p ps ih =>
    refine List.Pairwise.cons ?_ (ih _)
    intro y hy
    exact (bounds_of_mem_placeFrom hy).1

theorem text_ne_nil_of_mem_ofText {p : Piece} (h : p ∈ ofText t) : p.text ≠ [] := by
  obtain ⟨c, rest, rfl⟩ := exists_first_of_mem_ofText h
  have hpos := first_pos c rest
  simp only [ne_eq, List.take_eq_nil_iff, List.cons_ne_nil, or_false]
  omega

theorem size_pos_of_mem_ofText {p : Piece} (h : p ∈ ofText t) : 0 < p.size :=
  byteSize_pos (text_ne_nil_of_mem_ofText h)

end Piece

namespace Token

variable {t : Text}

theorem ofText_eq_filterMap (t : Text) :
    ofText t = (Piece.placeFrom 0 (Piece.ofText t)).filterMap fun x => x.1.token.map (·, x.2) :=
  Piece.locateFrom_eq_filterMap 0 (Piece.ofText t)

theorem map_fst_ofText (t : Text) :
    (ofText t).map Prod.fst = (Piece.ofText t).filterMap Piece.token :=
  Piece.map_fst_locateFrom 0 (Piece.ofText t)

theorem mem_map_fst_ofText {token : Token} :
    token ∈ (ofText t).map Prod.fst ↔ ∃ p ∈ Piece.ofText t, p.token = some token := by
  rw [map_fst_ofText, List.mem_filterMap]

/-- In a text without markers no piece is a marker. -/
theorem markerName?_eq_none {p : Piece} {token : Token} (h : markers t = [])
    (hp : p ∈ Piece.ofText t) (htoken : p.token = some token) : token.markerName? = none := by
  obtain ⟨x, hx, rfl⟩ := List.mem_map.mp (mem_map_fst_ofText.mpr ⟨p, hp, htoken⟩)
  simpa using List.filter_eq_nil_iff.mp h x hx

theorem start_lt_stop_of_mem_ofText {x : Token × Span} (h : x ∈ ofText t) :
    x.2.start < x.2.stop := by
  exact (Piece.bounds_of_mem_locateFrom (fun _ hp => Piece.size_pos_of_mem_ofText hp) h).2.1

/-- Tokens stand one behind the other. -/
theorem pairwise_ofText (t : Text) : (ofText t).Pairwise fun x y => x.2.stop ≤ y.2.start := by
  rw [ofText_eq_filterMap]
  refine (Piece.pairwise_placeFrom 0 (Piece.ofText t)).filterMap _ ?_
  intro x y hxy x' hx' y' hy'
  obtain ⟨-, -, rfl⟩ := Option.map_eq_some_iff.mp hx'
  obtain ⟨-, -, rfl⟩ := Option.map_eq_some_iff.mp hy'
  exact hxy

theorem pairwise_start_ofText (t : Text) :
    (ofText t).Pairwise fun x y => x.2.start < y.2.start := by
  refine List.Pairwise.imp_of_mem ?_ (pairwise_ofText t)
  intro x y hx _ hxy
  have hlt := start_lt_stop_of_mem_ofText hx
  omega

theorem nodup_starts_ofText (t : Text) : ((ofText t).map fun x => x.2.start).Nodup := by
  rw [List.nodup_iff_pairwise_ne, List.pairwise_map]
  exact (pairwise_start_ofText t).imp Nat.ne_of_lt

theorem nodup_ofText (t : Text) : (ofText t).Nodup :=
  List.Nodup.of_map _ (nodup_starts_ofText t)

/-- Two tokens of a text that overlap are one. -/
theorem eq_of_mem_ofText {x y : Token × Span} (hx : x ∈ ofText t) (hy : y ∈ ofText t)
    (hxy : x.2.start < y.2.stop) (hyx : y.2.start < x.2.stop) : x = y :=
  Span.eq_of_overlap (pairwise_ofText t) hx hy hxy hyx

theorem mem_markers_iff {token : Token} {span : Span} :
    (token, span) ∈ markers t ↔ (token, span) ∈ ofText t ∧ token.markerName?.isSome :=
  List.mem_filter

theorem mem_inclusions_iff {path : Text} {span : Span} :
    (path, span) ∈ inclusions t ↔ (.inclusion path, span) ∈ ofText t := by
  have hpath : ∀ token : Token, token.path? = some path ↔ token = .inclusion path := by
    intro token
    cases token <;> simp [path?]
  simp [inclusions, hpath]

/-- A token stands where it was located. -/
theorem holds_of_mem_ofText {token : Token} {span : Span} (h : (token, span) ∈ ofText t) :
    ∃ w, Written token w ∧ span.Holds t w := by
  obtain ⟨p, hplaced, hp⟩ := Piece.mem_locateFrom_iff.mp h
  obtain ⟨before, after, hps, rfl⟩ := Piece.exists_of_mem_placeFrom hplaced
  refine ⟨p.text, Piece.written_of_mem_ofText (t := t) (by simp [hps]) hp,
    Piece.textOf before, Piece.textOf after, ?_, by simp [Piece.size]⟩
  rw [← Piece.textOf_ofText t, hps]
  simp

end Token
end BlockTemplate
