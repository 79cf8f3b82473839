import BlockTemplate.Proofs.Block.Unread
import BlockTemplate.Proofs.Level.Matching

/-!
Texts that use no name again: each is the name of at most one opening and of at most one closing
marker. There is then no choice between closing markers, whether the markers are paired or not, so
greedy and nested matching find the same regions. The bodies of these use no name again either,
which makes the blocks the same as well where nothing else is put into the text.
-/
namespace BlockTemplate

open Text

namespace Token

/-- Both tokens are opening markers or both are closing markers, and they have the same name,
whatever the case of its letters. -/
def repeats : Token → Token → Bool
  | opening m, opening n => sameFolded m n
  | closing m, closing n => sameFolded m n
  | _, _ => false

/-- Each name is that of at most one opening marker and of at most one closing marker. -/
def NamesOnce (t : Text) : Prop := (markers t).Pairwise fun x y => ¬ x.1.repeats y.1

instance : DecidablePred NamesOnce := fun t => inferInstanceAs (Decidable ((markers t).Pairwise _))

variable {name : Text} {x y : Token}

theorem repeats_of_opens (hx : x.opens name) (hy : y.opens name) : x.repeats y := by
  obtain ⟨m, rfl, hm⟩ := exists_of_opens hx
  obtain ⟨n, rfl, hn⟩ := exists_of_opens hy
  simp only [sameFolded, beq_iff_eq] at hm hn
  simp [repeats, sameFolded, hm, hn]

theorem repeats_of_closes (hx : x.closes name) (hy : y.closes name) : x.repeats y := by
  obtain ⟨m, rfl, hm⟩ := exists_of_closes hx
  obtain ⟨n, rfl, hn⟩ := exists_of_closes hy
  simp only [sameFolded, beq_iff_eq] at hm hn
  simp [repeats, sameFolded, hm, hn]

theorem isSome_markerName?_of_repeats (h : x.repeats y) :
    x.markerName?.isSome ∧ y.markerName?.isSome := by
  unfold repeats at h
  split at h
  · exact ⟨rfl, rfl⟩
  · exact ⟨rfl, rfl⟩
  · cases h

end Token

namespace Piece

/-- No two of the pieces are markers that repeat one another. -/
def NamesOnce (ps : List Piece) : Prop :=
  ps.Pairwise fun p q => ∀ x, p.token = some x → ∀ y, q.token = some y → ¬ x.repeats y

variable {name : Text} {p : Piece} {ps qs : List Piece} {t : Text}

theorem namesOnce_ofText_iff : NamesOnce (ofText t) ↔ Token.NamesOnce t := by
  calc NamesOnce (ofText t)
      ↔ ((Token.ofText t).map Prod.fst).Pairwise fun x y => ¬ x.repeats y := by
        rw [Token.map_fst_ofText, List.pairwise_filterMap]
        rfl
    _ ↔ (Token.ofText t).Pairwise fun x y => x.1.markerName?.isSome → y.1.markerName?.isSome →
          ¬ x.1.repeats y.1 := by
        rw [List.pairwise_map]
        refine List.Pairwise.iff fun x y => ⟨fun h _ _ => h, fun h hrepeats => ?_⟩
        obtain ⟨hx, hy⟩ := Token.isSome_markerName?_of_repeats hrepeats
        exact h hx hy hrepeats
    _ ↔ Token.NamesOnce t := List.pairwise_filter.symm

theorem NamesOnce.sublist (h : NamesOnce ps) (hqs : qs.Sublist ps) : NamesOnce qs :=
  List.Pairwise.sublist hqs h

/-- Behind a token of a kind whose tokens repeat one another, there is none of the kind. -/
theorem NamesOnce.any_eq_false (h : NamesOnce (p :: ps)) {f : Token → Bool}
    (hf : ∀ x y, f x → f y → x.repeats y) (hp : p.token.any f) :
    ∀ q ∈ ps, q.token.any f = false := by
  intro q hq
  obtain ⟨x, hx, hfirst⟩ := (Option.any_eq_true ..).mp hp
  rw [Option.any_eq_false]
  refine fun y hy => Bool.eq_false_iff.mpr fun hagain => ?_
  exact List.rel_of_pairwise_cons h hq x hx y hy (hf x y hfirst hagain)

theorem NamesOnce.opens_eq_false (h : NamesOnce (p :: ps)) (hp : p.opens name) :
    ∀ q ∈ ps, q.opens name = false := by
  simp only [opens_eq_any] at hp ⊢
  exact h.any_eq_false (fun _ _ => Token.repeats_of_opens) hp

theorem NamesOnce.closes_eq_false (h : NamesOnce (p :: ps)) (hp : p.closes name) :
    ∀ q ∈ ps, q.closes name = false := by
  simp only [closes_eq_any] at hp ⊢
  exact h.any_eq_false (fun _ _ => Token.repeats_of_closes) hp

end Piece

namespace Closing

open Piece

variable {name : Text} {p : Piece} {ps : List Piece}

/-- Where the name is not opened again and closed once at most, the last closing marker balances. -/
theorem last?_eq_balanced? (h : NamesOnce ps) (hopens : ∀ p ∈ ps, p.opens name = false) :
    last? name ps = balanced? name 0 ps := by
  induction ps with
  | nil => rfl
  | cons p ps ih =>
    have hp := hopens p List.mem_cons_self
    by_cases hcloses : p.closes name
    · have hnone := last?_eq_none_iff.mpr (h.closes_eq_false hcloses)
      simp [last?, balanced?, hnone, hp, hcloses]
    · have hrest := ih (h.sublist (List.sublist_cons_self p ps))
        fun q hq => hopens q (List.mem_cons_of_mem p hq)
      simp only [last?, balanced?, hp, hcloses, ← hrest]
      cases last? name ps <;> rfl

theorem find?_greedy_eq_nested (h : NamesOnce (p :: ps)) (hp : p.token = some (.opening name)) :
    find? .greedy name ps = find? .nested name ps := by
  refine last?_eq_balanced? (h.sublist (List.sublist_cons_self p ps)) (h.opens_eq_false ?_)
  simp [Piece.opens, hp, sameFolded]

end Closing

namespace Level

open Piece

variable {mode : MatchMode} {ps : List Piece} {t : Text}

theorem ofPieces_greedy_eq_nested (h : NamesOnce ps) :
    ofPieces .greedy ps = ofPieces .nested ps := by
  fun_induction ofPieces .greedy ps with
  | case1 => rw [ofPieces]
  | case2 p ps name hp c hc _ ih =>
    have hps := Closing.eq_of_find? hc
    have hsuffix : c.rest <:+ p :: ps := ⟨p :: c.body ++ [c.marker], by simp [hps]⟩
    rw [ofPieces_cons_of_find? hp (Closing.find?_greedy_eq_nested h hp ▸ hc),
      ih (h.sublist hsuffix.sublist)]
  | case3 p ps name hp hc ih =>
    rw [ofPieces_cons_of_find?_eq_none hp (Closing.find?_greedy_eq_nested h hp ▸ hc),
      ih (h.sublist (List.sublist_cons_self p ps))]
  | case4 p ps hp ih =>
    rw [ofPieces_cons_of_forall_ne hp, ih (h.sublist (List.sublist_cons_self p ps))]

theorem ofText_greedy_eq_nested (h : Token.NamesOnce t) : ofText .greedy t = ofText .nested t :=
  ofPieces_greedy_eq_nested (namesOnce_ofText_iff.mpr h)

/-- The markers of a body are among those of the text, so that it uses no name again either. -/
theorem namesOnce_bodyText {r : Region} (h : Token.NamesOnce t)
    (hr : Part.region r ∈ ofText mode t) : Token.NamesOnce r.bodyText := by
  rw [← namesOnce_ofText_iff] at h ⊢
  have hbody : r.body.Sublist (r.opening :: r.body ++ [r.closing]) := by simp
  rw [pieces_bodyText hr]
  exact h.sublist (hbody.trans (infix_of_region_mem hr).sublist)

end Level

namespace Block

variable {files : Files} {origin : Origin} {name t : Text}

theorem buildWithin_greedy_eq_nested (settings : Settings) (levels : Nat)
    (hnames : Token.NamesOnce t) (hunread : origin.Unread files t) :
    buildWithin files origin { settings with matchMode := .greedy } levels name t =
      buildWithin files origin { settings with matchMode := .nested } levels name t := by
  induction levels generalizing name t with
  | zero => rfl
  | succ levels ih =>
    have hbodies : ((Level.ofText .nested t).regions.map fun r =>
        buildWithin files origin { settings with matchMode := .greedy } levels r.1.name
          r.1.bodyText) =
        (Level.ofText .nested t).regions.map fun r =>
          buildWithin files origin { settings with matchMode := .nested } levels r.1.name
            r.1.bodyText := by
      refine List.map_congr_left fun r hr => ?_
      have hmem := Level.mem_of_mem_regions hr
      exact ih (Level.namesOnce_bodyText hnames hmem) (hunread.bodyText hmem)
    simp only [buildWithin, hunread.expand_eq, Level.ofText_greedy_eq_nested hnames, hbodies]
    rfl

/-- Where no name is used again, greedy and nested matching find the same regions and the same
markers that belong to none. They build the same blocks from a text without inclusions. -/
theorem modes_agree_of_namesOnce (t : Text) (hnames : Token.NamesOnce t) :
    ((Level.ofText .greedy t).regions = (Level.ofText .nested t).regions ∧
        (Level.ofText .greedy t).unterminated = (Level.ofText .nested t).unterminated ∧
        (Level.ofText .greedy t).strayEnds = (Level.ofText .nested t).strayEnds) ∧
      (Token.inclusions t = [] → ∀ (files : Files) (origin : Origin) (settings : Settings),
        build files origin { settings with matchMode := .greedy } t =
          build files origin { settings with matchMode := .nested } t) := by
  have hlevel := Level.ofText_greedy_eq_nested hnames
  refine ⟨⟨congrArg _ hlevel, congrArg _ hlevel, congrArg _ hlevel⟩, ?_⟩
  intro hinclusions files origin settings
  have hunread : origin.Unread files t := by
    simp [Origin.Unread, hinclusions]
  exact buildWithin_greedy_eq_nested settings (maxDepth + 1) hnames hunread

/-- The markers of two regions cross, those of a third stand the wrong way round, and one begins a
region that does not end. -/
theorem modes_agree_of_namesOnce_crossing :
    let t := ("<!--end:r--><!--begin:A-->1<!--begin:b-->2<!--end:a-->3<!--end:B--><!--begin:R-->" ++
      "<!--begin:c-->").toList
    Token.NamesOnce t ∧ Token.inclusions t = [] ∧
      ((Level.ofText .greedy t).regions = (Level.ofText .nested t).regions ∧
        (Level.ofText .nested t).regions.map Prod.snd = [⟨12, 54⟩]) ∧
      ((Level.ofText .greedy t).unterminated = (Level.ofText .nested t).unterminated ∧
        (Level.ofText .nested t).unterminated = [("R".toList, ⟨67, 81⟩), ("c".toList, ⟨81, 95⟩)]) ∧
      (Level.ofText .greedy t).strayEnds = (Level.ofText .nested t).strayEnds ∧
      build (fun _ => .error .notFound) {} {} t =
        build (fun _ => .error .notFound) {} { matchMode := .nested } t := by
  intro t
  have hnames : Token.NamesOnce t := by decide +kernel
  have hinclusions : Token.inclusions t = [] := by decide +kernel
  obtain ⟨⟨hregions, hunterminated, hstray⟩, hbuild⟩ := modes_agree_of_namesOnce t hnames
  refine ⟨hnames, hinclusions, ⟨hregions, ?_⟩, ⟨hunterminated, ?_⟩, hstray, ?_⟩
  · decide +kernel
  · decide +kernel
  · exact hbuild hinclusions _ {} {}

end Block
end BlockTemplate
