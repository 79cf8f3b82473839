import BlockTemplate.Level

/-!
Which closing marker the two ways of matching choose. Pieces are balanced for a name if their
regions of that name lie within them; counting then passes over them. The last closing marker is
the one behind which no other marker closes the name.
-/
namespace BlockTemplate

namespace Closing

/-- The closing found behind some pieces, with these pieces in its body. -/
def prepend (ps : List Piece) (c : Closing) : Closing := ⟨ps ++ c.body, c.marker, c.rest⟩

/-- Pieces that the count of open regions passes over, however many regions are open. -/
def Balanced (name : Text) (ps : List Piece) : Prop :=
  ∀ inner rest, balanced? name inner (ps ++ rest) = (balanced? name inner rest).map (prepend ps)

variable {name : Text} {p q : Piece} {ps qs : List Piece}

theorem balanced_nil : Balanced name [] := by
  intro inner rest
  exact Option.map_id'.symm

theorem Balanced.append (hp : Balanced name ps) (hq : Balanced name qs) :
    Balanced name (ps ++ qs) := by
  intro inner rest
  rw [List.append_assoc, hp, hq, Option.map_map]
  congr 1
  funext c
  simp [prepend]

theorem balanced_singleton (hopens : p.opens name = false) (hcloses : p.closes name = false) :
    Balanced name [p] := by
  intro inner rest
  simp only [List.singleton_append, balanced?, hopens, hcloses, Bool.false_eq_true, if_false]
  rfl

/-- A region around balanced pieces is balanced, whether it has the name or another one. -/
theorem Balanced.wrap {n : Text} (hopening : p.token = some (.opening n))
    (hclosing : q.token = some (.closing n)) (h : Balanced name ps) :
    Balanced name (p :: ps ++ [q]) := by
  have hpcloses : p.closes name = false := by simp [Piece.closes, hopening]
  have hqopens : q.opens name = false := by simp [Piece.opens, hclosing]
  by_cases hname : Text.sameFolded n name = true
  · have hpopens : p.opens name = true := by simp [Piece.opens, hopening, hname]
    have hqcloses : q.closes name = true := by simp [Piece.closes, hclosing, hname]
    intro inner rest
    have hclose : balanced? name (inner + 1) (q :: rest) =
        (balanced? name inner rest).map (within q) := by
      simp [balanced?, hqopens, hqcloses]
    have hopen : balanced? name inner (p :: (ps ++ q :: rest)) =
        (balanced? name (inner + 1) (ps ++ q :: rest)).map (within p) := by
      simp [balanced?, hpopens]
    simp only [List.cons_append, List.append_assoc, List.nil_append]
    rw [hopen, h, hclose, Option.map_map, Option.map_map]
    congr 1
    funext c
    simp [prepend, within]
  · have hp : Balanced name [p] :=
      balanced_singleton (by simpa [Piece.opens, hopening] using hname) hpcloses
    have hq : Balanced name [q] :=
      balanced_singleton hqopens (by simpa [Piece.closes, hclosing] using hname)
    exact (hp.append h).append hq

/-- Behind balanced pieces the first closing marker of the name ends the region. -/
theorem Balanced.balanced?_eq (h : Balanced name ps) (hq : q.token = some (.closing name)) :
    balanced? name 0 (ps ++ q :: qs) = some ⟨ps, q, qs⟩ := by
  have hopens : q.opens name = false := by simp [Piece.opens, hq]
  have hcloses : q.closes name = true := by simp [Piece.closes, hq, Text.sameFolded]
  rw [h]
  simp [balanced?, hopens, hcloses, prepend]

theorem last?_eq_none_iff : last? name ps = none ↔ ∀ p ∈ ps, p.closes name = false := by
  induction ps with
  | nil => simp [last?]
  | cons p ps ih =>
    rw [List.forall_mem_cons, ← ih, last?]
    cases last? name ps <;> simp

/-- Behind the last closing marker of a name nothing closes the name. -/
theorem closes_rest_of_last? {c : Closing} (h : last? name ps = some c) :
    ∀ p ∈ c.rest, p.closes name = false := by
  fun_induction last? name ps generalizing c with
  | case1 => cases h
  | case2 p ps c' hc ih =>
    obtain rfl := Option.some.inj h
    exact (ih hc : ∀ q ∈ c'.rest, q.closes name = false)
  | case3 p ps hnone hp _ =>
    obtain rfl := Option.some.inj h
    exact last?_eq_none_iff.mp hnone
  | case4 => cases h

theorem last?_append (hq : q.token = some (.closing name))
    (hqs : ∀ p ∈ qs, p.closes name = false) :
    last? name (ps ++ q :: qs) = some ⟨ps, q, qs⟩ := by
  induction ps with
  | nil => simp [last?, last?_eq_none_iff.mpr hqs, Piece.closes, hq, Text.sameFolded]
  | cons p ps ih =>
    rw [List.cons_append, last?, ih]
    rfl

end Closing

namespace Level

variable {mode : MatchMode} {p : Piece} {ps : List Piece}

/-- A piece that is no opening marker stays text. -/
theorem ofPieces_cons_of_forall_ne (h : ∀ name, p.token ≠ some (.opening name)) :
    ofPieces mode (p :: ps) = .kept p :: ofPieces mode ps := by
  rw [ofPieces]
  split
  · next name hp => exact absurd hp (h name)
  · rfl

theorem ofPieces_cons_of_token_eq_none (h : p.token = none) :
    ofPieces mode (p :: ps) = .kept p :: ofPieces mode ps := by
  refine ofPieces_cons_of_forall_ne fun name hp => ?_
  cases h.symm.trans hp

theorem ofPieces_cons_of_find? {name : Text} {c : Closing} (h : p.token = some (.opening name))
    (hfind : Closing.find? mode name ps = some c) :
    ofPieces mode (p :: ps) = .region ⟨name, p, c.body, c.marker⟩ :: ofPieces mode c.rest := by
  rw [ofPieces]
  split
  · next n hn =>
    obtain rfl : name = n := by simpa [h] using hn
    split
    · next c' hc =>
      obtain rfl : c = c' := by simpa [hfind] using hc
      rfl
    · next hc => simp [hfind] at hc
  · next hn => exact absurd h (hn name)

theorem ofPieces_cons_of_find?_eq_none {name : Text} (h : p.token = some (.opening name))
    (hfind : Closing.find? mode name ps = none) :
    ofPieces mode (p :: ps) = .kept p :: ofPieces mode ps := by
  rw [ofPieces]
  split
  · next n hn =>
    obtain rfl : name = n := by simpa [h] using hn
    split
    · next c hc => simp [hfind] at hc
    · rfl
  · rfl

/-- Without an opening marker all pieces of a level stay text. -/
theorem ofPieces_eq_map_kept (h : ∀ p ∈ ps, ∀ name, p.token ≠ some (.opening name)) :
    ofPieces mode ps = ps.map .kept := by
  fun_induction ofPieces mode ps with
  | case1 => rfl
  | case2 p ps name hp => exact absurd hp (h p List.mem_cons_self name)
  | case3 p ps name hp => exact absurd hp (h p List.mem_cons_self name)
  | case4 p ps _ ih =>
    rw [List.map_cons, ih fun q hq => h q (List.mem_cons_of_mem p hq)]

end Level
end BlockTemplate
