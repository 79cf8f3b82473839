import BlockTemplate.Proofs.Level.Markers
import BlockTemplate.Proofs.Level.Pairing

/-!
Which closing marker ends a region, told by the markers alone. Greedy matching takes the last one
of the name. Nested matching takes the first at which the closing markers of the name outnumber the
opening ones; up to there no region of the name is closed that was not opened. Either way there is
at most one such marker, and it is the one that is found among the pieces.
-/
namespace BlockTemplate

open Text

namespace Token

/-- The token is an opening marker of the name, whatever the case of its letters. -/
def opens (name : Text) : Token → Bool
  | opening n => sameFolded n name
  | _ => false

/-- The token is a closing marker of the name, whatever the case of its letters. -/
def closes (name : Text) : Token → Bool
  | closing n => sameFolded n name
  | _ => false

/-- By how much a token changes the number of open regions of the name. -/
def weight (name : Text) (token : Token) : Int :=
  if token.opens name then 1 else if token.closes name then -1 else 0

/-- The number of regions of the name that the markers open, less those they close. -/
def balance (name : Text) : List (Token × Span) → Int
  | [] => 0
  | x :: ms => x.1.weight name + balance name ms

/-- The number of open regions of the name behind markers that follow an opening one. -/
def depth (name : Text) (ms : List (Token × Span)) : Int := 1 + balance name ms

/-- Among the markers are more closing than opening ones of the name. -/
def Outnumbered (name : Text) (ms : List (Token × Span)) : Prop :=
  ms.countP (fun x => x.1.opens name) < ms.countP fun x => x.1.closes name

instance (name : Text) (ms : List (Token × Span)) : Decidable (Outnumbered name ms) :=
  inferInstanceAs (Decidable (_ < _))

variable {name : Text} {token : Token} {ms ns : List (Token × Span)}

@[simp] theorem balance_nil : balance name [] = 0 := rfl

@[simp] theorem balance_cons (x : Token × Span) (ms : List (Token × Span)) :
    balance name (x :: ms) = x.1.weight name + balance name ms := rfl

@[simp] theorem balance_append : balance name (ms ++ ns) = balance name ms + balance name ns := by
  induction ms with
  | nil => simp
  | cons x ms ih => rw [List.cons_append, balance_cons, balance_cons, ih, Int.add_assoc]

theorem weight_of_opens (h : token.opens name) : token.weight name = 1 := if_pos h

theorem exists_of_opens (h : token.opens name) :
    ∃ n, token = .opening n ∧ sameFolded n name := by
  cases token with
  | opening n => exact ⟨n, rfl, h⟩
  | closing n => cases h
  | inclusion path => cases h
  | placeholder n => cases h

theorem exists_of_closes (h : token.closes name) :
    ∃ n, token = .closing n ∧ sameFolded n name := by
  cases token with
  | closing n => exact ⟨n, rfl, h⟩
  | opening n => cases h
  | inclusion path => cases h
  | placeholder n => cases h

theorem opens_eq_false_of_closes (h : token.closes name) : token.opens name = false := by
  obtain ⟨n, rfl, -⟩ := exists_of_closes h
  rfl

theorem weight_of_closes (h : token.closes name) : token.weight name = -1 := by
  simp [weight, opens_eq_false_of_closes h, h]

theorem balance_eq_sub (name : Text) (ms : List (Token × Span)) :
    balance name ms =
      (ms.countP fun x => x.1.opens name : Int) - ms.countP fun x => x.1.closes name := by
  induction ms with
  | nil => rfl
  | cons x ms ih =>
    rw [balance_cons, ih, List.countP_cons, List.countP_cons]
    by_cases hcloses : x.1.closes name
    · simp only [weight_of_closes hcloses, opens_eq_false_of_closes hcloses, hcloses]
      simp only [Bool.false_eq_true, if_false, if_true]
      omega
    · by_cases hopens : x.1.opens name
      · simp only [weight_of_opens hopens, hopens, hcloses, if_true]
        simp only [Bool.false_eq_true, if_false]
        omega
      · simp [weight, hopens, hcloses]

theorem outnumbered_iff : Outnumbered name ms ↔ balance name ms < 0 := by
  rw [Outnumbered, balance_eq_sub]
  omega

theorem neg_one_le_weight (name : Text) (token : Token) : -1 ≤ token.weight name := by
  unfold weight
  split
  · omega
  · split <;> omega

end Token

open Token

namespace MatchMode

/-- Which of the markers behind an opening marker ends its region: the one between `inner` and
`rest`. -/
def Ends (mode : MatchMode) (name : Text) (inner : List (Token × Span)) (x : Token × Span)
    (rest : List (Token × Span)) : Prop :=
  match mode with
  | .greedy => x.1.closes name ∧ ∀ y ∈ rest, ¬ y.1.closes name
  | .nested => Outnumbered name (inner ++ [x]) ∧ ∀ q, q <+: inner → ¬ Outnumbered name q

/-- None of the markers behind an opening marker ends its region. -/
def NeverEnds (mode : MatchMode) (name : Text) (after : List (Token × Span)) : Prop :=
  match mode with
  | .greedy => ∀ y ∈ after, ¬ y.1.closes name
  | .nested => ∀ q, q <+: after → ¬ Outnumbered name q

variable {mode : MatchMode} {name : Text} {x x' : Token × Span}
  {inner rest inner' rest' : List (Token × Span)}

theorem Ends.length_le (h : mode.Ends name inner x rest) (h' : mode.Ends name inner' x' rest')
    (heq : inner ++ x :: rest = inner' ++ x' :: rest') : inner.length ≤ inner'.length := by
  by_contra hlt
  obtain ⟨s, rfl⟩ : ∃ s, inner = inner' ++ x' :: s := by
    have hpre : inner' ++ [x'] <+: inner ++ x :: rest := ⟨rest', by simp [heq]⟩
    obtain ⟨s, hs⟩ := List.prefix_of_prefix_length_le hpre (List.prefix_append inner _)
      (by simp only [List.length_append, List.length_singleton]; omega)
    exact ⟨s, by simp [← hs]⟩
  cases mode with
  | greedy =>
    have hrest : rest' = s ++ x :: rest := by simpa using heq.symm
    exact h'.2 x (by simp [hrest]) h.1
  | nested => exact h.2 (inner' ++ [x']) ⟨s, by simp⟩ h'.1

/-- At most one marker ends a region. -/
theorem Ends.unique (h : mode.Ends name inner x rest) (h' : mode.Ends name inner' x' rest')
    (heq : inner ++ x :: rest = inner' ++ x' :: rest') :
    inner = inner' ∧ x = x' ∧ rest = rest' := by
  have hlength : inner.length = inner'.length :=
    Nat.le_antisymm (h.length_le h' heq) (h'.length_le h heq.symm)
  obtain ⟨rfl, htail⟩ := List.append_inj heq hlength
  obtain ⟨rfl, rfl⟩ := List.cons.inj htail
  exact ⟨rfl, rfl, rfl⟩

theorem Ends.not_neverEnds (h : mode.Ends name inner x rest) :
    ¬ mode.NeverEnds name (inner ++ x :: rest) := by
  intro hnever
  cases mode with
  | greedy => exact hnever x (by simp) h.1
  | nested => exact hnever (inner ++ [x]) ⟨rest, by simp⟩ h.1

/-- The count of open regions comes to zero at the marker that ends the region, and not before. -/
theorem Ends.depth_nonneg (h : nested.Ends name inner x rest) {q : List (Token × Span)}
    (hq : q <+: inner ++ [x]) : 0 ≤ depth name q ∧ (depth name q = 0 ↔ q = inner ++ [x]) := by
  have hinner : ∀ q, q <+: inner → 0 < depth name q := by
    intro q hq
    have hopen := outnumbered_iff.not.mp (h.2 q hq)
    rw [depth]
    omega
  rcases List.prefix_concat_iff.mp hq with rfl | hq
  · have hover := outnumbered_iff.mp h.1
    have hbefore := hinner inner (List.prefix_refl inner)
    have hweight := neg_one_le_weight name x.1
    simp only [depth, balance_append, balance_cons, balance_nil, iff_true] at hover hbefore ⊢
    omega
  · have hpos := hinner q hq
    refine ⟨by omega, fun hzero => by omega, fun heq => ?_⟩
    have hlength := hq.length_le
    rw [heq, List.length_append, List.length_singleton] at hlength
    omega

theorem NeverEnds.depth_pos {after q : List (Token × Span)} (h : nested.NeverEnds name after)
    (hq : q <+: after) : 0 < depth name q := by
  have hopen := outnumbered_iff.not.mp (h q hq)
  rw [depth]
  omega

end MatchMode

namespace Piece

variable {name : Text} {p : Piece} {ps : List Piece} {m : Nat}

/-- By how much a piece changes the number of open regions of the name. -/
def weight (name : Text) (p : Piece) : Int :=
  if p.opens name then 1 else if p.closes name then -1 else 0

theorem opens_eq_any (name : Text) (p : Piece) : p.opens name = p.token.any (Token.opens name) := by
  unfold opens
  rcases p.token with _ | ⟨_ | _ | _ | _⟩ <;> rfl

theorem closes_eq_any (name : Text) (p : Piece) :
    p.closes name = p.token.any (Token.closes name) := by
  unfold closes
  rcases p.token with _ | ⟨_ | _ | _ | _⟩ <;> rfl

theorem markersFrom_cons (m : Nat) (p : Piece) (ps : List Piece) :
    markersFrom m (p :: ps) = markersFrom m [p] ++ markersFrom (m + p.size) ps := by
  have happend := markersFrom_append m [p] ps
  simpa [size] using happend

theorem markersFrom_singleton_cases (p : Piece) (m : Nat) :
    (∀ token, p.token = some token → token.markerName? = none) ∧ markersFrom m [p] = [] ∨
      ∃ token, p.token = some token ∧ token.markerName?.isSome ∧
        markersFrom m [p] = [(token, ⟨m, m + p.size⟩)] := by
  cases hp : p.token with
  | none => exact Or.inl (by simp [markersFrom, locateFrom, hp])
  | some token =>
    cases hmarker : token.markerName? with
    | none => exact Or.inl (by simp [markersFrom, locateFrom, hp, hmarker])
    | some n =>
      have hsome : token.markerName?.isSome := by rw [hmarker]; rfl
      exact Or.inr ⟨token, rfl, hsome, markersFrom_of_marker hp hsome m⟩

theorem exists_of_mem_markersFrom {x : Token × Span} (h : x ∈ markersFrom m ps) :
    ∃ p ∈ ps, p.token = some x.1 := by
  obtain ⟨p, hp, htoken⟩ := mem_locateFrom_iff.mp (List.mem_of_mem_filter h)
  exact ⟨p, mem_of_mem_placeFrom hp, htoken⟩

/-- A marker among those of pieces is one of the pieces. -/
theorem exists_of_markersFrom_eq {before after : List (Token × Span)} {x : Token × Span}
    (h : markersFrom m ps = before ++ x :: after) : ∃ front p back, ps = front ++ p :: back ∧
      p.token = some x.1 ∧ x.2 = ⟨m + byteSize (textOf front),
        m + byteSize (textOf front) + p.size⟩ ∧ markersFrom x.2.stop back = after := by
  induction ps generalizing m before with
  | nil => exact absurd h.symm (by simp [markersFrom, locateFrom])
  | cons q ps ih =>
    have hlater : ∀ before, markersFrom (m + q.size) ps = before ++ x :: after →
        ∃ front p back, q :: ps = front ++ p :: back ∧ p.token = some x.1 ∧
          x.2 = ⟨m + byteSize (textOf front), m + byteSize (textOf front) + p.size⟩ ∧
          markersFrom x.2.stop back = after := by
      intro before hbefore
      obtain ⟨front, p, back, rfl, hp, hspan, hback⟩ := ih hbefore
      refine ⟨q :: front, p, back, rfl, hp, ?_, hback⟩
      rw [hspan]
      simp [size, Nat.add_assoc]
    rw [markersFrom_cons] at h
    rcases markersFrom_singleton_cases q m with ⟨-, hnil⟩ | ⟨token, hq, -, hmarkers⟩
    · rw [hnil, List.nil_append] at h
      exact hlater before h
    · rw [hmarkers, List.singleton_append] at h
      cases before with
      | nil =>
        obtain ⟨rfl, hback⟩ := List.cons.inj h
        exact ⟨[], q, ps, rfl, hq, rfl, hback⟩
      | cons y before => exact hlater before (List.cons.inj h).2

theorem balance_singleton (name : Text) (p : Piece) (m : Nat) :
    balance name (markersFrom m [p]) = p.weight name := by
  rw [weight, opens_eq_any, closes_eq_any]
  rcases markersFrom_singleton_cases p m with ⟨hplain, hnil⟩ | ⟨token, hp, -, hmarkers⟩
  · rw [hnil, balance_nil]
    cases hp : p.token with
    | none => rfl
    | some token =>
      cases token with
      | opening n => cases hplain _ hp
      | closing n => cases hplain _ hp
      | inclusion path => rfl
      | placeholder n => rfl
  · rw [hmarkers, hp, balance_cons, balance_nil, Int.add_zero]
    rfl

theorem balance_markersFrom_cons (name : Text) (m : Nat) (p : Piece) (ps : List Piece) :
    balance name (markersFrom m (p :: ps)) =
      p.weight name + balance name (markersFrom (m + p.size) ps) := by
  rw [markersFrom_cons, balance_append, balance_singleton]

/-- If the number of open regions is at least zero before a piece, and it is behind it as long as
it is looked at, then it is so all along. -/
theorem nonneg_of_prefix_markersFrom_cons {n : Int} (hn : 0 ≤ n)
    (hrest : ∀ q, q <+: markersFrom (m + p.size) ps → 0 ≤ n + p.weight name + balance name q)
    {q : List (Token × Span)} (hq : q <+: markersFrom m (p :: ps)) : 0 ≤ n + balance name q := by
  have hweight := balance_singleton name p m
  rw [markersFrom_cons] at hq
  rcases markersFrom_singleton_cases p m with ⟨-, hnil⟩ | ⟨token, -, -, hmarkers⟩
  · rw [hnil, List.nil_append] at hq
    rw [hnil, balance_nil] at hweight
    have hbehind := hrest q hq
    omega
  · rw [hmarkers, List.singleton_append] at hq
    rw [hmarkers, balance_cons, balance_nil] at hweight
    rcases List.prefix_cons_iff.mp hq with rfl | ⟨q', rfl, hq'⟩
    · simpa using hn
    · have hbehind := hrest q' hq'
      rw [balance_cons]
      omega

end Piece

namespace Closing

open Piece

variable {mode : MatchMode} {name : Text} {p : Piece} {ps : List Piece} {c : Closing}
  {inner m : Nat}

/-- One step of the count: a piece closes the region, or it is passed over and changes the number
of open regions by its weight. -/
theorem balanced?_cons_cases (name : Text) (inner : Nat) (p : Piece) (ps : List Piece) :
    (inner = 0 ∧ p.weight name = -1 ∧ balanced? name inner (p :: ps) = some ⟨[], p, ps⟩) ∨
      ∃ n : Nat, (n : Int) = inner + p.weight name ∧
        balanced? name inner (p :: ps) = (balanced? name n ps).map (within p) := by
  simp only [balanced?, Piece.weight]
  by_cases hopens : p.opens name
  · rw [if_pos hopens, if_pos hopens]
    exact Or.inr ⟨inner + 1, by omega, rfl⟩
  · rw [if_neg hopens, if_neg hopens]
    by_cases hcloses : p.closes name
    · rw [if_pos hcloses, if_pos hcloses]
      cases inner with
      | zero => exact Or.inl ⟨rfl, rfl, rfl⟩
      | succ inner => exact Or.inr ⟨inner, by omega, rfl⟩
    · rw [if_neg hcloses, if_neg hcloses]
      exact Or.inr ⟨inner, by omega, rfl⟩

/-- Where no closing marker balances, no region of the name is closed that was not opened. -/
theorem nonneg_of_balanced?_eq_none (h : balanced? name inner ps = none)
    {q : List (Token × Span)} (hq : q <+: markersFrom m ps) :
    0 ≤ (inner : Int) + balance name q := by
  induction ps generalizing inner m q with
  | nil =>
    obtain rfl : q = [] := List.prefix_nil.mp hq
    simp
  | cons p ps ih =>
    rcases balanced?_cons_cases name inner p ps with ⟨-, -, hsome⟩ | ⟨n, hn, hstep⟩
    · rw [hsome] at h
      cases h
    · rw [hstep] at h
      refine nonneg_of_prefix_markersFrom_cons (by omega) (fun q hq => ?_) hq
      have hbehind := ih (Option.map_eq_none_iff.mp h) hq
      omega

/-- The markers before the closing marker that balances close the regions they open, and none
before it is opened. -/
theorem balance_body_of_balanced? (h : balanced? name inner ps = some c) (m : Nat) :
    (inner : Int) + balance name (markersFrom m c.body) = 0 ∧
      ∀ q, q <+: markersFrom m c.body → 0 ≤ (inner : Int) + balance name q := by
  induction ps generalizing inner m c with
  | nil => cases h
  | cons p ps ih =>
    rcases balanced?_cons_cases name inner p ps with ⟨rfl, -, hsome⟩ | ⟨n, hn, hstep⟩
    · obtain rfl := Option.some.inj (hsome.symm.trans h)
      refine ⟨rfl, fun q hq => ?_⟩
      obtain rfl : q = [] := List.prefix_nil.mp hq
      simp
    · obtain ⟨c, hc, rfl⟩ := Option.map_eq_some_iff.mp (hstep.symm.trans h)
      obtain ⟨hbody, hprefix⟩ := ih hc (m + p.size)
      constructor
      · rw [within, balance_markersFrom_cons]
        omega
      · refine fun q => nonneg_of_prefix_markersFrom_cons (by omega) fun q hq => ?_
        have hbehind := hprefix q hq
        omega

/-- The closing marker that is found ends the region. -/
theorem ends_of_find? (h : find? mode name ps = some c) (m : Nat) :
    ∃ x rest, markersFrom m ps = markersFrom m c.body ++ x :: rest ∧
      x.2.start = m + byteSize (textOf c.body) ∧ x.2.stop = x.2.start + c.marker.size ∧
      mode.Ends name (markersFrom m c.body) x rest := by
  obtain ⟨n, htoken, hname⟩ := token_marker h
  have hcloses : (Token.closing n).closes name := hname
  generalize hplace : m + byteSize (textOf c.body) = place
  refine ⟨(.closing n, ⟨place, place + c.marker.size⟩), markersFrom (place + c.marker.size) c.rest,
    ?_, rfl, rfl, ?_⟩
  · rw [eq_of_find? h, markersFrom_append, hplace, markersFrom_cons,
      markersFrom_of_marker htoken rfl]
    rfl
  · cases mode with
    | greedy =>
      refine ⟨hcloses, fun y hy hycloses => ?_⟩
      obtain ⟨p, hp, hptoken⟩ := exists_of_mem_markersFrom hy
      have hfalse := closes_rest_of_last? h p hp
      rw [closes_eq_any, hptoken] at hfalse
      exact absurd hycloses (Bool.eq_false_iff.mp hfalse)
    | nested =>
      obtain ⟨hbody, hprefix⟩ := balance_body_of_balanced? h m
      constructor
      · rw [outnumbered_iff, balance_append, balance_cons, balance_nil, weight_of_closes hcloses]
        omega
      · intro q hq
        have hnonneg := hprefix q hq
        rw [outnumbered_iff]
        omega

theorem neverEnds_of_find?_eq_none (h : find? mode name ps = none) (m : Nat) :
    mode.NeverEnds name (markersFrom m ps) := by
  cases mode with
  | greedy =>
    intro y hy hycloses
    obtain ⟨p, hp, hptoken⟩ := exists_of_mem_markersFrom hy
    have hfalse := last?_eq_none_iff.mp h p hp
    rw [closes_eq_any, hptoken] at hfalse
    exact absurd hycloses (Bool.eq_false_iff.mp hfalse)
  | nested =>
    intro q hq
    have hnonneg := nonneg_of_balanced?_eq_none h hq
    rw [outnumbered_iff]
    omega

end Closing

end BlockTemplate
