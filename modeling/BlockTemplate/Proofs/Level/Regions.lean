import BlockTemplate.Level
import BlockTemplate.Proofs.Markup.Stretch

/-!
Regions as stretches of the pieces of their level: opening marker, body and closing marker stand
one behind the other. The body of a region is therefore read alone as it was read within its
level.
-/
namespace BlockTemplate

def Part.region? : Part → Option Region
  | .region r => some r
  | .kept _ => none

@[simp] theorem Part.region?_region (r : Region) : Part.region? (.region r) = some r := rfl

@[simp] theorem Part.region?_kept (p : Piece) : Part.region? (.kept p) = none := rfl

namespace Closing

theorem closes_marker {mode : MatchMode} {name : Text} {ps : List Piece} {c : Closing}
    (h : find? mode name ps = some c) : c.marker.closes name := by
  have hlast : ∀ {ps c}, last? name ps = some c → c.marker.closes name := by
    intro ps c h
    fun_induction last? name ps generalizing c with
    | case1 => cases h
    | case2 p ps c' hc ih =>
      obtain rfl := Option.some.inj h
      exact (ih hc : c'.marker.closes name)
    | case3 p ps _ hp _ =>
      obtain rfl := Option.some.inj h
      exact hp
    | case4 => cases h
  have hbalanced : ∀ {inner ps c}, balanced? name inner ps = some c → c.marker.closes name := by
    intro inner ps c h
    fun_induction balanced? name inner ps generalizing c with
    | case1 => cases h
    | case2 inner p ps _ ih =>
      obtain ⟨c', hc, rfl⟩ := Option.map_eq_some_iff.mp h
      exact (ih hc : c'.marker.closes name)
    | case3 p ps _ hp =>
      obtain rfl := Option.some.inj h
      exact hp
    | case4 p ps _ _ inner ih =>
      obtain ⟨c', hc, rfl⟩ := Option.map_eq_some_iff.mp h
      exact (ih hc : c'.marker.closes name)
    | case5 inner p ps _ _ ih =>
      obtain ⟨c', hc, rfl⟩ := Option.map_eq_some_iff.mp h
      exact (ih hc : c'.marker.closes name)
  cases mode with
  | greedy => exact hlast h
  | nested => exact hbalanced h

theorem token_marker {mode : MatchMode} {name : Text} {ps : List Piece} {c : Closing}
    (h : find? mode name ps = some c) :
    ∃ n, c.marker.token = some (.closing n) ∧ Text.sameFolded n name := by
  have hcloses := closes_marker h
  unfold Piece.closes at hcloses
  split at hcloses
  · next n hn => exact ⟨n, hn, hcloses⟩
  · cases hcloses

end Closing

namespace Level

@[simp] theorem map_fst_locateFrom (m : Nat) (level : Level) :
    (locateFrom m level).map Prod.fst = level := by
  induction level generalizing m with
  | nil => rfl
  | cons part rest ih => simp [locateFrom, ih]

theorem mem_of_mem_locate {level : Level} {part : Part} {span : Span}
    (h : (part, span) ∈ locate level) : part ∈ level := by
  rw [← map_fst_locateFrom 0 level]
  exact List.mem_map_of_mem h

theorem mem_locate_of_mem_regions {level : Level} {r : Region} {span : Span}
    (h : (r, span) ∈ level.regions) : (Part.region r, span) ∈ level.locate := by
  obtain ⟨⟨part | r', span'⟩, hmem, heq⟩ := List.mem_filterMap.mp h
  · cases heq
  · obtain ⟨rfl, rfl⟩ := Prod.mk.inj (Option.some.inj heq)
    exact hmem

theorem mem_regions_of_mem_locate {level : Level} {r : Region} {span : Span}
    (h : (Part.region r, span) ∈ level.locate) : (r, span) ∈ level.regions :=
  List.mem_filterMap.mpr ⟨_, h, rfl⟩

theorem mem_unterminated_iff {level : Level} {name : Text} {span : Span} :
    (name, span) ∈ level.unterminated ↔
      ∃ p, p.token = some (.opening name) ∧ (Part.kept p, span) ∈ level.locate := by
  constructor
  · intro h
    obtain ⟨⟨part, span'⟩, hmem, heq⟩ := List.mem_filterMap.mp h
    split at heq
    · next n _ hpart =>
      obtain ⟨rfl, rfl⟩ := Prod.mk.inj (Option.some.inj heq)
      obtain ⟨rfl, rfl⟩ := Prod.mk.inj hpart
      exact ⟨_, rfl, hmem⟩
    · cases heq
  · rintro ⟨⟨token, text⟩, htoken, hmem⟩
    obtain rfl : token = some (.opening name) := htoken
    exact List.mem_filterMap.mpr ⟨_, hmem, rfl⟩

/-- The regions with their spans left out. -/
theorem map_fst_regions (level : Level) :
    level.regions.map Prod.fst = level.filterMap Part.region? := by
  unfold regions locate
  conv_rhs => rw [← map_fst_locateFrom 0 level]
  rw [List.map_filterMap, List.filterMap_map]
  congr 1
  funext part
  obtain ⟨part | r, span⟩ := part <;> rfl

theorem mem_filterMap_region? {level : Level} {r : Region} :
    r ∈ level.filterMap Part.region? ↔ Part.region r ∈ level := by
  constructor
  · intro h
    obtain ⟨part, hmem, hpart⟩ := List.mem_filterMap.mp h
    cases part with
    | kept p => cases hpart
    | region r' =>
      obtain rfl := Option.some.inj hpart
      exact hmem
  · exact fun h => List.mem_filterMap.mpr ⟨_, h, rfl⟩

theorem mem_of_mem_regions {level : Level} {r : Region} {span : Span}
    (h : (r, span) ∈ level.regions) : Part.region r ∈ level := by
  rw [← mem_filterMap_region?, ← map_fst_regions]
  exact List.mem_map_of_mem h

/-- A region begins with an opening marker of its name. Its body and its closing marker are what
the search for an end finds behind this marker. -/
theorem exists_find?_of_region_mem {mode : MatchMode} {ps : List Piece} {r : Region}
    (h : Part.region r ∈ ofPieces mode ps) :
    ∃ before qs rest, ps = before ++ r.opening :: qs ∧
      r.opening.token = some (.opening r.name) ∧
      Closing.find? mode r.name qs = some ⟨r.body, r.closing, rest⟩ := by
  fun_induction ofPieces mode ps with
  | case1 => simp at h
  | case2 p ps name hp c hc _ ih =>
    rcases List.mem_cons.mp h with heq | hrest
    · obtain rfl := Part.region.inj heq
      exact ⟨[], ps, c.rest, rfl, hp, hc⟩
    · obtain ⟨before, qs, rest, hqs, htoken, hfind⟩ := ih hrest
      refine ⟨p :: c.body ++ c.marker :: before, qs, rest, ?_, htoken, hfind⟩
      rw [Closing.eq_of_find? hc, hqs]
      simp
  | case3 p ps name _ _ ih =>
    obtain ⟨before, qs, rest, rfl, htoken, hfind⟩ := ih (by simpa using h)
    exact ⟨p :: before, qs, rest, rfl, htoken, hfind⟩
  | case4 p ps _ ih =>
    obtain ⟨before, qs, rest, rfl, htoken, hfind⟩ := ih (by simpa using h)
    exact ⟨p :: before, qs, rest, rfl, htoken, hfind⟩

theorem infix_of_region_mem {mode : MatchMode} {ps : List Piece} {r : Region}
    (h : Part.region r ∈ ofPieces mode ps) : r.opening :: r.body ++ [r.closing] <:+: ps := by
  obtain ⟨before, qs, rest, rfl, -, hfind⟩ := exists_find?_of_region_mem h
  exact ⟨before, rest, by simp [Closing.eq_of_find? hfind]⟩

theorem mem_of_mem_body {mode : MatchMode} {ps : List Piece} {r : Region} {p : Piece}
    (h : Part.region r ∈ ofPieces mode ps) (hp : p ∈ r.body) : p ∈ ps :=
  (infix_of_region_mem h).subset (by simp [hp])

theorem mem_of_kept_mem {mode : MatchMode} {ps : List Piece} {p : Piece}
    (h : Part.kept p ∈ ofPieces mode ps) : p ∈ ps := by
  fun_induction ofPieces mode ps with
  | case1 => simp at h
  | case2 q ps name _ c hc _ ih =>
    have hrest : Part.kept p ∈ ofPieces mode c.rest := by simpa using h
    rw [Closing.eq_of_find? hc]
    simp [ih hrest]
  | case3 q ps name _ _ ih =>
    rcases List.mem_cons.mp h with heq | hrest
    · simp [Part.kept.inj heq]
    · exact List.mem_cons_of_mem _ (ih hrest)
  | case4 q ps _ ih =>
    rcases List.mem_cons.mp h with heq | hrest
    · simp [Part.kept.inj heq]
    · exact List.mem_cons_of_mem _ (ih hrest)

/-- The marker that opens a region carries the region's name. -/
theorem token_opening {mode : MatchMode} {ps : List Piece} {r : Region}
    (h : Part.region r ∈ ofPieces mode ps) : r.opening.token = some (.opening r.name) := by
  obtain ⟨_, _, _, _, htoken, _⟩ := exists_find?_of_region_mem h
  exact htoken

/-- The marker that closes a region carries the region's name, perhaps in another case. -/
theorem token_closing {mode : MatchMode} {ps : List Piece} {r : Region}
    (h : Part.region r ∈ ofPieces mode ps) :
    ∃ name, r.closing.token = some (.closing name) ∧ Text.sameFolded name r.name := by
  obtain ⟨_, _, _, _, _, hfind⟩ := exists_find?_of_region_mem h
  exact Closing.token_marker hfind

theorem written_opening {mode : MatchMode} {t : Text} {r : Region}
    (h : Part.region r ∈ ofText mode t) : Token.Written (.opening r.name) r.opening.text :=
  Piece.written_of_mem_ofText ((infix_of_region_mem h).subset (by simp)) (token_opening h)

theorem exists_of_mem_locateFrom {m : Nat} {level : Level} {part : Part} {span : Span}
    (h : (part, span) ∈ locateFrom m level) :
    ∃ before after, level = before ++ part :: after ∧
      span = ⟨m + Text.byteSize (before.flatMap Part.text),
        m + Text.byteSize (before.flatMap Part.text) + part.text.byteSize⟩ := by
  induction level generalizing m with
  | nil => simp [locateFrom] at h
  | cons first rest ih =>
    rcases List.mem_cons.mp h with heq | hrest
    · obtain ⟨rfl, rfl⟩ := Prod.mk.inj heq
      exact ⟨[], rest, rfl, by simp⟩
    · obtain ⟨before, after, rfl, rfl⟩ := ih hrest
      exact ⟨first :: before, after, rfl, by simp [Nat.add_assoc]⟩

theorem mem_locate_append_cons (before : Level) (part : Part) (after : Level) :
    (part, ⟨Text.byteSize (before.flatMap Part.text),
      Text.byteSize (before.flatMap Part.text) + part.text.byteSize⟩) ∈
      locate (before ++ part :: after) := by
  have hfrom : ∀ m, (part, ⟨m + Text.byteSize (before.flatMap Part.text),
      m + Text.byteSize (before.flatMap Part.text) + part.text.byteSize⟩) ∈
      locateFrom m (before ++ part :: after) := by
    induction before with
    | nil => exact fun m => List.mem_cons_self
    | cons first before ih =>
      intro m
      have hrest := ih (m + first.text.byteSize)
      rw [List.flatMap_cons, Text.byteSize_append, ← Nat.add_assoc]
      exact List.mem_cons_of_mem _ hrest
  have hzero := hfrom 0
  rwa [Nat.zero_add] at hzero

theorem stretch_body {mode : MatchMode} {t : Text} {r : Region}
    (h : Part.region r ∈ ofText mode t) : Piece.Stretch r.body := by
  have hbody : r.body <:+: r.opening :: r.body ++ [r.closing] := ⟨[r.opening], [r.closing], rfl⟩
  exact (Piece.stretch_ofText t).of_isInfix (hbody.trans (infix_of_region_mem h))

theorem pieces_bodyText {mode : MatchMode} {t : Text} {r : Region}
    (h : Part.region r ∈ ofText mode t) : Piece.ofText r.bodyText = r.body :=
  stretch_body h

end Level
end BlockTemplate
