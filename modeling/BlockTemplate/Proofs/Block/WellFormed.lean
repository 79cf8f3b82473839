import BlockTemplate.Proofs.Block.Source
import Mathlib.Data.List.Nodup

/-!
The shape of the trees that are built. A block has one child for each name among the regions of
its text, in the order in which the names appear, and the child is built from the last of the
regions. So a name leads to a child or to none, and to no other child than that of the name.
-/
namespace BlockTemplate

namespace Level

/-- The name of a region has no angle bracket in it and no white space in front. -/
theorem name_of_region_mem {mode : MatchMode} {t : Text} {r : Region}
    (h : Part.region r ∈ ofText mode t) :
    '<' ∉ r.name ∧ '>' ∉ r.name ∧ Text.trimStart r.name = r.name :=
  (written_opening h).name_of_opening

end Level

namespace Block

variable {b c : Block} {name : Text}

theorem ofName_infix_slotted {level : Level} {r : Region} (h : Part.region r ∈ level) :
    Slot.ofName r.name <:+: slotted level := by
  obtain ⟨before, after, rfl⟩ := List.append_of_mem h
  refine ⟨slotted before, slotted after, ?_⟩
  simp [slotted]

theorem child_eq_ok (hnodup : b.childNames.Nodup) (hc : c ∈ b.children) :
    b.child c.name = .ok c := by
  have hsome : (b.children.find? (·.name == c.name)).isSome :=
    List.find?_isSome.mpr ⟨c, hc, beq_self_eq_true _⟩
  obtain ⟨d, hd⟩ := Option.isSome_iff_exists.mp hsome
  have hname : d.name = c.name := by simpa using List.find?_some hd
  obtain rfl : d = c :=
    List.inj_on_of_nodup_map hnodup (List.mem_of_find?_eq_some hd) hc hname
  rw [child, hd]

theorem child_eq_error (h : name ∉ b.childNames) :
    b.child name = .error (.unknownBlock name b.childNames) := by
  have hnone : b.children.find? (·.name == name) = none := by
    refine List.find?_eq_none.mpr fun c hc heq => h ?_
    rw [← eq_of_beq heq]
    exact List.mem_map_of_mem hc
  rw [child, hnone]

/-- What holds of a block that is built from a source, with so many levels below it. -/
structure WellFormed (files : Files) (origin : Origin) (settings : Settings) (levels : Nat)
    (s : Source) (b : Block) : Prop where
  /-- No two children have one name. -/
  nodup : b.childNames.Nodup
  /-- Children stand where their names first appear among the regions. -/
  order : b.childNames =
    ((s.read files origin settings.matchMode levels).map Source.name).eraseDups
  /-- A child is built from the last region of its name. -/
  last : ∀ c ∈ b.children, ∃ before body after,
    s.read files origin settings.matchMode levels = before ++ body :: after ∧
      body.name = c.name ∧ (∀ later ∈ after, later.name ≠ c.name) ∧
      c = body.block files origin settings (levels - 1)
  /-- A child has a slot in the template. -/
  slot : ∀ c ∈ b.children, Slot.ofName c.name <:+: b.template
  /-- The name of a child has no angle bracket in it and no white space in front. -/
  plain : ∀ name ∈ b.childNames,
    '<' ∉ name ∧ '>' ∉ name ∧ Text.trimStart name = name
  /-- The name of a child leads to the child. -/
  found : ∀ c ∈ b.children, b.child c.name = .ok c
  /-- Any other name leads to none. -/
  unknown : ∀ name ∉ b.childNames, b.child name = .error (.unknownBlock name b.childNames)

end Block

namespace Source

variable {files : Files} {origin : Origin} {settings : Settings} {levels : Nat} {s body : Source}

/-- The bodies that are read are those of regions, whose slots the template has. -/
theorem exists_region_of_mem_read (h : body ∈ s.read files origin settings.matchMode levels) :
    ∃ r, Part.region r ∈ Level.ofText settings.matchMode (origin.expand files s.text) ∧
      body = ⟨r.name, r.bodyText⟩ ∧
      Slot.ofName r.name <:+: (s.block files origin settings levels).template := by
  cases levels with
  | zero => cases h
  | succ levels =>
    obtain ⟨r, hr, rfl⟩ := List.mem_map.mp h
    have hmem := Level.mem_filterMap_region?.mp hr
    refine ⟨r, hmem, rfl, ?_⟩
    rw [block_succ]
    exact Block.ofName_infix_slotted hmem

theorem wellFormed_block (files : Files) (origin : Origin) (settings : Settings) (levels : Nat)
    (s : Source) :
    (s.block files origin settings levels).WellFormed files origin settings levels s := by
  have hnodup : (s.block files origin settings levels).childNames.Nodup :=
    nodup_childNames_block levels s
  have hread : ∀ name ∈ (s.block files origin settings levels).childNames,
      ∃ body ∈ s.read files origin settings.matchMode levels, body.name = name := by
    intro name hname
    rw [childNames_block, List.mem_eraseDups] at hname
    exact List.mem_map.mp hname
  refine ⟨hnodup, childNames_block levels s, ?_, ?_, ?_, fun c hc => Block.child_eq_ok hnodup hc,
    fun name hname => Block.child_eq_error hname⟩
  · intro c hc
    rw [children_block] at hc
    obtain ⟨body, hbody, rfl⟩ := List.mem_map.mp hc
    obtain ⟨before, after, hsplit, hafter⟩ := mem_lastOfEachName_iff.mp hbody
    exact ⟨before, body, after, hsplit, by simp, by simpa using hafter, rfl⟩
  · intro c hc
    obtain ⟨body, hbody, hname⟩ := hread c.name (List.mem_map_of_mem hc)
    obtain ⟨r, -, rfl, hslot⟩ := exists_region_of_mem_read hbody
    rwa [← hname]
  · intro name hname
    obtain ⟨body, hbody, rfl⟩ := hread name hname
    obtain ⟨r, hr, rfl, -⟩ := exists_region_of_mem_read hbody
    exact Level.name_of_region_mem hr

end Source

namespace Block

/-- Every block of a tree that is built is well-formed, with regard to the text at its address. -/
theorem wellFormed_of_at?_build (files : Files) (origin : Origin) (settings : Settings) (t : Text)
    (a : Address) (b : Block) (h : (build files origin settings t).block.at? a = some b) :
    ∃ s, (⟨[], t⟩ : Source).at? files origin settings.matchMode a = some s ∧ b.name = s.name ∧
      b.WellFormed files origin settings (maxDepth + 1 - a.length) s := by
  obtain ⟨-, s, hs, rfl⟩ := Source.exists_of_at?_build h
  exact ⟨s, hs, Source.name_block .., Source.wellFormed_block ..⟩

/-- Three regions of two names, the last of them in a file. The child of the file has the place of
the first region. -/
theorem wellFormed_of_at?_build_redefined :
    let body := "2<!--begin:b-->3<!--end:b-->".toList
    let files : Files := fun _ => .ok ("<!--begin:a-->".toList ++ body ++ "<!--end:A-->".toList)
    let t := "<!--begin:a-->1<!--end:a--><!--begin:A-->4<!--end:a-->\x7bFILE \"f\"\x7d".toList
    let root := (build files {} { matchMode := .nested } t).block
    root.at? [] = some root ∧ root.childNames = ["a".toList, "A".toList] ∧
      ∃ b, root.at? [0] = some b ∧ b.name = "a".toList ∧ b.childNames = ["b".toList] := by
  intro body files t root
  have hroot : root.at? [] = some root := rfl
  have hsource : (⟨[], t⟩ : Source).at? files {} .nested [0] = some ⟨"a".toList, body⟩ := by
    decide +kernel
  have hchild : ∃ b, root.at? [0] = some b := by
    have hblock :
        root = (⟨[], t⟩ : Source).block files {} { matchMode := .nested } (maxDepth + 1) := rfl
    rw [hblock, Source.at?_block, if_pos (by decide), hsource]
    exact ⟨_, rfl⟩
  obtain ⟨b, hb⟩ := hchild
  obtain ⟨s, hs, -, hwell⟩ :=
    wellFormed_of_at?_build files {} { matchMode := .nested } t [] root hroot
  obtain ⟨s', hs', hname, hwell'⟩ :=
    wellFormed_of_at?_build files {} { matchMode := .nested } t [0] b hb
  obtain rfl := Option.some.inj hs
  obtain rfl := Option.some.inj (hsource.symm.trans hs')
  refine ⟨hroot, ?_, b, hb, hname, ?_⟩
  · rw [hwell.order]
    decide +kernel
  · rw [hwell'.order]
    decide +kernel

end Block
end BlockTemplate
