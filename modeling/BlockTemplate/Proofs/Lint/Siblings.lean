import BlockTemplate.Proofs.Block.Source
import BlockTemplate.Proofs.Level.Pairing
import BlockTemplate.Proofs.Lint.Agreement
import Mathlib.Data.List.Nodup

/-!
Greedy matching at the regions of one level. A region reaches to the last closing marker of its
name, so that nothing is left behind it that could close another region of the name, in whatever
case it is written. So a check never finds a name used again, and a build never replaces a child.
-/
namespace BlockTemplate

open Text

namespace Level

/-- No two regions have one name, even if the case of letters is left out. -/
theorem pairwise_ofPieces_greedy (ps : List Piece) :
    ((ofPieces .greedy ps).filterMap Part.region?).Pairwise
      fun r r' => sameFolded r.name r'.name = false := by
  generalize hmode : MatchMode.greedy = mode
  fun_induction ofPieces mode ps with
  | case1 => exact List.Pairwise.nil
  | case2 p ps name _ c hc _ ih =>
    subst hmode
    rw [List.filterMap_cons_some (Part.region?_region _)]
    refine List.pairwise_cons.mpr ⟨fun r hr => ?_, ih⟩
    have hmem := mem_filterMap_region?.mp hr
    obtain ⟨n, hclosing, hn⟩ := token_closing hmem
    have hrest : r.closing ∈ c.rest := (infix_of_region_mem hmem).subset (by simp)
    have hcloses := Closing.closes_rest_of_last? hc r.closing hrest
    -- The end of a later region of the name would be a closing marker of the name.
    refine Bool.eq_false_iff.mpr fun hsame => ?_
    simp only [sameFolded, beq_iff_eq] at hn hsame
    simp [Piece.closes, hclosing, sameFolded, hn, hsame] at hcloses
  | case3 p ps name _ _ ih =>
    rw [List.filterMap_cons_none (Part.region?_kept p)]
    exact ih
  | case4 p ps _ ih =>
    rw [List.filterMap_cons_none (Part.region?_kept p)]
    exact ih

theorem pairwise_regions_greedy (t : Text) : (ofText .greedy t).regions.Pairwise
    fun x y => sameFolded x.1.name y.1.name = false := by
  have hregions := pairwise_ofPieces_greedy (Piece.ofText t)
  rwa [← ofText, ← map_fst_regions, List.pairwise_map] at hregions

theorem nodup_regions_greedy (t : Text) :
    ((ofText .greedy t).regions.map fun x => x.1.name).Nodup := by
  rw [List.nodup_iff_pairwise_ne, List.pairwise_map]
  refine (pairwise_regions_greedy t).imp fun {x y} hdiffer heq => ?_
  simp [sameFolded, heq] at hdiffer

end Level

namespace Lint

/-- Where no name is used again, only the bodies of the regions are warned about. -/
theorem inRegions_of_nodup {inBody : Nat → Text → List Warning} {m : Nat} {seen : List Text}
    {regions : List (Region × Span)} (hnodup : (regions.map fun x => x.1.name).Nodup)
    (hseen : (regions.map fun x => x.1.name).Disjoint seen) :
    inRegions inBody m seen regions = regions.flatMap fun x =>
      inBody (m + (x.1.bodySpan x.2.start).start) x.1.bodyText := by
  induction regions generalizing seen with
  | nil => rfl
  | cons x rest ih =>
    obtain ⟨hx, hrest⟩ := List.nodup_cons.mp hnodup
    obtain ⟨hnew, hdisjoint⟩ := List.disjoint_cons_left.mp hseen
    rw [inRegions, if_neg hnew, ih hrest (List.disjoint_cons_right.mpr ⟨hx, hdisjoint⟩)]
    rfl

theorem ne_duplicate_of_mem_inLevels {levels m : Nat} {t : Text} {w : Warning}
    (h : w ∈ inLevels .greedy levels m t) (name : Text) : w.finding ≠ .duplicate name := by
  induction levels generalizing m t with
  | zero => cases h
  | succ levels ih =>
    rw [inLevels, inRegions_of_nodup (Level.nodup_regions_greedy t) (by simp)] at h
    simp only [List.mem_append, List.mem_map, List.mem_flatMap] at h
    intro hname
    obtain (⟨_, -, rfl⟩ | ⟨_, -, rfl⟩) | ⟨x, -, hbody⟩ := h
    · cases hname
    · cases hname
    · exact ih hbody hname

theorem ne_duplicate_of_mem_check {files : Files} {origin : Origin} {t : Text} {w : Warning}
    (h : w ∈ check files origin .greedy t) (name : Text) : w.finding ≠ .duplicate name := by
  intro hname
  rcases List.mem_append.mp ((Warning.sort_perm _).mem_iff.mp h) with h | h
  · obtain ⟨path, span, -, -, rfl⟩ := exists_of_mem_missing h
    cases hname
  · exact ne_duplicate_of_mem_inLevels h name hname

end Lint

namespace Block

variable {files : Files} {origin : Origin} {settings : Settings}

/-- Where no name is used again, only what the children give is noticed. -/
theorem childNotices_of_nodup (parent : Text) {seen : List Text} {built : List Built}
    (hnodup : (built.map fun x => x.block.name).Nodup)
    (hseen : (built.map fun x => x.block.name).Disjoint seen) :
    childNotices parent seen built = built.flatMap Built.notices := by
  induction built generalizing seen with
  | nil => rfl
  | cons x rest ih =>
    obtain ⟨hx, hrest⟩ := List.nodup_cons.mp hnodup
    obtain ⟨hnew, hdisjoint⟩ := List.disjoint_cons_left.mp hseen
    rw [childNotices, if_neg hnew, ih hrest (List.disjoint_cons_right.mpr ⟨hx, hdisjoint⟩)]
    simp

/-- What is noticed in greedy mode of a level, and then of its bodies one after the other. -/
theorem notices_buildWithin_greedy (hmode : settings.matchMode = .greedy) (levels : Nat)
    (name t : Text) : (buildWithin files origin settings (levels + 1) name t).notices =
      origin.expandNotices files t ++ sizeNotices settings name (origin.expand files t) ++
        levelNotices name (Level.ofText .greedy (origin.expand files t)) ++
        ((Level.ofText .greedy (origin.expand files t)).regions.flatMap fun x =>
          (buildWithin files origin settings levels x.1.name x.1.bodyText).notices) ++
        [.built name
          (buildWithin files origin settings (levels + 1) name t).block.children.length] := by
  have hnames : ((Level.ofText .greedy (origin.expand files t)).regions.map fun x =>
      buildWithin files origin settings levels x.1.name x.1.bodyText).map (fun x => x.block.name) =
        (Level.ofText .greedy (origin.expand files t)).regions.map fun x => x.1.name := by
    rw [List.map_map]
    exact List.map_congr_left fun x _ => name_buildWithin ..
  have hnotices := childNotices_of_nodup name (hnames ▸ Level.nodup_regions_greedy _)
    (List.disjoint_nil_right _)
  simp only [buildWithin, hmode, hnotices, List.flatMap_map]
  rfl

theorem redefined_notMem_buildWithin (hmode : settings.matchMode = .greedy) (block parent : Text)
    (levels : Nat) (name t : Text) : Notice.redefined block parent ∉
      (buildWithin files origin settings levels name t).notices := by
  have htext : ∀ name t expanded, Notice.redefined block parent ∉
      origin.expandNotices files t ++ sizeNotices settings name expanded := by
    intro name t expanded hmem
    cases Lint.warning?_of_mem_textNotices hmem ⟨0, 0⟩
  induction levels generalizing name t with
  | zero => simpa [buildWithin] using htext name t (origin.expand files t)
  | succ levels ih =>
    rw [notices_buildWithin_greedy hmode]
    intro hmem
    rcases List.mem_append.mp hmem with hmem | hmem
    · rcases List.mem_append.mp hmem with hmem | hmem
      · rcases List.mem_append.mp hmem with hmem | hmem
        · exact htext _ _ _ hmem
        · simp [levelNotices] at hmem
      · obtain ⟨x, -, hbody⟩ := List.mem_flatMap.mp hmem
        exact ih _ _ hbody
    · simp at hmem

end Block

namespace Source

variable {files : Files} {origin : Origin} {settings : Settings}

theorem nodup_bodies_greedy (files : Files) (origin : Origin) (s : Source) :
    ((s.bodies files origin .greedy).map name).Nodup := by
  rw [bodies, List.map_map, ← Level.map_fst_regions, List.map_map]
  exact Level.nodup_regions_greedy (origin.expand files s.text)

/-- When the block of a body is placed in greedy mode, there is none of its name yet. -/
theorem replaces_eq_false_of_greedy {s body : Source} {before after : List Source}
    (hbodies : s.bodies files origin .greedy = before ++ body :: after) (levels : Nat) :
    Block.replaces (body.block files origin settings levels)
      (Block.placeAll (before.map (block files origin settings levels))) = false := by
  have hnodup := nodup_bodies_greedy files origin s
  rw [hbodies, List.map_append, List.map_cons] at hnodup
  have hnew : body.name ∉ before.map name := fun hmem =>
    List.disjoint_of_nodup_append hnodup hmem List.mem_cons_self
  refine Bool.eq_false_iff.mpr fun hreplaces => hnew ?_
  rw [Block.replaces_iff, placeAll_map_block, List.map_map, name_block] at hreplaces
  rw [← List.mem_eraseDups, ← map_name_lastOfEachName]
  simpa only [Function.comp_def, name_block] using hreplaces

end Source

namespace Lint

/-- Greedy matching finds no two regions of one name at a level, whatever the case of letters. So
a check never warns that a name is used again, and wherever a build places the child of a region,
there is no child of that name to be replaced. -/
theorem siblings_differ_of_greedy (files : Files) (origin : Origin) (t : Text) :
    ((Level.ofText .greedy t).regions.Pairwise
        fun x y => sameFolded x.1.name y.1.name = false) ∧
      (∀ w ∈ check files origin .greedy t, ∀ name, w.finding ≠ .duplicate name) ∧
      ∀ settings : Settings, settings.matchMode = .greedy →
        (∀ (s : Source) (levels : Nat) (before : List Source) (body : Source)
          (after : List Source), s.bodies files origin .greedy = before ++ body :: after →
            Block.replaces (body.block files origin settings levels)
              (Block.placeAll (before.map (Source.block files origin settings levels))) = false) ∧
        ∀ block parent,
          .redefined block parent ∉ (Block.build files origin settings t).notices := by
  refine ⟨Level.pairwise_regions_greedy t, fun w hw => ne_duplicate_of_mem_check hw, ?_⟩
  intro settings hmode
  refine ⟨fun s levels before body after hbodies => ?_, fun block parent => ?_⟩
  · exact Source.replaces_eq_false_of_greedy hbodies levels
  · exact Block.redefined_notMem_buildWithin hmode block parent (maxDepth + 1) [] t

/-- Of two regions of one name and one in a file, greedy matching makes one region. Nested matching
makes two, and the block of the second takes the place of the first. -/
theorem siblings_differ_of_greedy_repeated :
    let files : Files := fun _ => .ok "<!--begin:b-->3<!--end:a-->".toList
    let t := "<!--begin:A-->1<!--end:a--><!--begin:A-->2<!--end:A-->\x7bFILE \"f\"\x7d".toList
    (.redefined "A".toList [] ∈ (Block.build files {} { matchMode := .nested } t).notices ∧
        .redefined "A".toList [] ∉ (Block.build files {} {} t).notices) ∧
      (∃ w ∈ check files {} .nested t, w.finding = .duplicate "A".toList) ∧
      ∀ w ∈ check files {} .greedy t, w.finding ≠ .duplicate "A".toList := by
  intro files t
  obtain ⟨-, hcheck, hbuild⟩ := siblings_differ_of_greedy files {} t
  have hredefined :
      .redefined "A".toList [] ∈ (Block.build files {} { matchMode := .nested } t).notices := by
    decide +kernel
  have hduplicate : ∃ w ∈ check files {} .nested t, w.finding = .duplicate "A".toList := by
    decide +kernel
  exact ⟨⟨hredefined, (hbuild {} rfl).2 _ _⟩, hduplicate, fun w hw => hcheck w hw _⟩

end Lint
end BlockTemplate
