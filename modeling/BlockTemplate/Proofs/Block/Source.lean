import BlockTemplate.Proofs.Block.Placing
import BlockTemplate.Proofs.Block.Step
import BlockTemplate.Proofs.Level.Regions

/-!
The texts that the blocks of a tree are built from. Below a text stand the bodies of its regions
after inclusions are expanded, one for each name, and these are expanded in turn. Files that
include themselves make this tree of texts infinite. The tree of blocks is the same tree, cut off
at the number of levels that are read.
-/
namespace BlockTemplate

/-- A text that a block is built from, with the name of the block. -/
structure Source where
  name : Text
  text : Text
deriving DecidableEq, Repr

namespace Source

/-- One source for each name, the last one of the name, in the order in which names appear. -/
def lastOfEachName (ss : List Source) : List Source :=
  (ss.map name).eraseDups.filterMap fun n => ss.reverse.find? (·.name == n)

section LastOfEachName

variable {ss : List Source} {s : Source} {n : Text}

theorem find?_reverse_eq_some_iff : ss.reverse.find? (·.name == n) = some s ↔
    s.name = n ∧ ∃ before after, ss = before ++ s :: after ∧ ∀ s' ∈ after, s'.name ≠ n := by
  rw [List.find?_eq_some_iff_append]
  simp only [beq_iff_eq, Bool.not_eq_true', beq_eq_false_iff_ne]
  refine and_congr_right fun _ => ⟨?_, ?_⟩
  · rintro ⟨after, before, hss, hafter⟩
    refine ⟨before.reverse, after.reverse, ?_, fun s' hs' => hafter s' (List.mem_reverse.mp hs')⟩
    rw [← List.reverse_reverse ss, hss]
    simp
  · rintro ⟨before, after, rfl, hafter⟩
    refine ⟨after.reverse, before.reverse, by simp, fun s' hs' => ?_⟩
    exact hafter s' (List.mem_reverse.mp hs')

theorem map_name_lastOfEachName (ss : List Source) :
    (lastOfEachName ss).map name = (ss.map name).eraseDups := by
  have hname : ∀ n ∈ (ss.map name).eraseDups,
      (ss.reverse.find? (·.name == n)).map name = some n := by
    intro n hn
    obtain ⟨s, hs, hname⟩ := Block.exists_find?_reverse (List.mem_eraseDups.mp hn)
    rw [hs, Option.map_some, hname]
  rw [lastOfEachName, List.map_filterMap, List.filterMap_congr hname, List.filterMap_some]

/-- What is kept are the sources behind which their names do not come again. -/
theorem mem_lastOfEachName_iff : s ∈ lastOfEachName ss ↔
    ∃ before after, ss = before ++ s :: after ∧ ∀ s' ∈ after, s'.name ≠ s.name := by
  simp only [lastOfEachName, List.mem_filterMap, List.mem_eraseDups, find?_reverse_eq_some_iff]
  constructor
  · rintro ⟨n, -, rfl, hlast⟩
    exact hlast
  · rintro ⟨before, after, rfl, hafter⟩
    exact ⟨s.name, by simp, rfl, before, after, rfl, hafter⟩

end LastOfEachName

section Tree

variable (files : Files) (origin : Origin)

/-- The bodies of the regions of a text, after its inclusions are expanded. -/
def bodies (mode : MatchMode) (s : Source) : List Source :=
  ((Level.ofText mode (origin.expand files s.text)).filterMap Part.region?).map fun r =>
    ⟨r.name, r.bodyText⟩

/-- The bodies that are made into blocks, if so many levels are read. -/
def read (mode : MatchMode) : Nat → Source → List Source
  | 0, _ => []
  | _ + 1, s => s.bodies files origin mode

/-- The source at an address below another. -/
def at? (mode : MatchMode) : Address → Source → Option Source
  | [], s => some s
  | i :: rest, s => (lastOfEachName (s.bodies files origin mode))[i]?.bind (at? mode rest)

/-- The block that is built from a source, with so many levels below it. -/
def block (settings : Settings) (levels : Nat) (s : Source) : Block :=
  (Block.buildWithin files origin settings levels s.name s.text).block

end Tree

variable {files : Files} {origin : Origin} {settings : Settings}

@[simp] theorem name_block (levels : Nat) (s : Source) :
    (s.block files origin settings levels).name = s.name :=
  Block.name_buildWithin ..

theorem placeAll_map_block (levels : Nat) (ss : List Source) :
    Block.placeAll (ss.map (block files origin settings levels)) =
      (lastOfEachName ss).map (block files origin settings levels) := by
  have hfind : ∀ n, (ss.map (block files origin settings levels)).reverse.find? (·.name == n) =
      (ss.reverse.find? (·.name == n)).map (block files origin settings levels) := by
    intro n
    rw [← List.map_reverse, List.find?_map]
    simp only [Function.comp_def, name_block]
  have hnames : (ss.map (block files origin settings levels)).map Block.name = ss.map name := by
    simp only [List.map_map, Function.comp_def, name_block]
  rw [Block.placeAll_eq_lastOfEachName, Block.lastOfEachName, hnames, lastOfEachName,
    List.map_filterMap]
  simp only [hfind]

theorem block_zero (s : Source) : s.block files origin settings 0 =
    Block.new s.name (origin.expand files s.text) [] settings.style := rfl

theorem block_succ (levels : Nat) (s : Source) : s.block files origin settings (levels + 1) =
    Block.new s.name
      (Block.slotted (Level.ofText settings.matchMode (origin.expand files s.text)))
      ((lastOfEachName (s.bodies files origin settings.matchMode)).map
        (block files origin settings levels)) settings.style := by
  rw [← placeAll_map_block, bodies, ← Level.map_fst_regions, List.map_map, List.map_map, block,
    Block.buildWithin, List.map_map]
  rfl

/-- The children are the blocks of the bodies that are read, one for each name. -/
theorem children_block (levels : Nat) (s : Source) :
    (s.block files origin settings levels).children =
      (lastOfEachName (s.read files origin settings.matchMode levels)).map
        (block files origin settings (levels - 1)) := by
  cases levels with
  | zero => rfl
  | succ levels =>
    rw [block_succ]
    rfl

theorem childNames_block (levels : Nat) (s : Source) :
    (s.block files origin settings levels).childNames =
      ((s.read files origin settings.matchMode levels).map name).eraseDups := by
  rw [Block.childNames, children_block, List.map_map, ← map_name_lastOfEachName]
  exact List.map_congr_left fun body _ => name_block ..

theorem nodup_childNames_block (levels : Nat) (s : Source) :
    (s.block files origin settings levels).childNames.Nodup := by
  rw [childNames_block]
  exact Block.nodup_eraseDups _

theorem mem_childNames_block_succ {levels : Nat} {s : Source} {n : Text} :
    n ∈ (s.block files origin settings (levels + 1)).childNames ↔
      ∃ r, Part.region r ∈ Level.ofText settings.matchMode (origin.expand files s.text) ∧
        r.name = n := by
  rw [childNames_block, List.mem_eraseDups, read, bodies, List.map_map, List.mem_map]
  simp only [Level.mem_filterMap_region?, Function.comp_apply]

/-- The tree of blocks is the tree of sources, as deep as levels are read. -/
theorem at?_block (levels : Nat) (a : Address) (s : Source) :
    (s.block files origin settings levels).at? a =
      if a.length ≤ levels then
        (s.at? files origin settings.matchMode a).map
          (block files origin settings (levels - a.length))
      else none := by
  induction a generalizing levels s with
  | nil => simp [at?]
  | cons i rest ih =>
    rw [Block.at?_cons, at?]
    cases levels with
    | zero => simp [children_block, read, lastOfEachName]
    | succ levels =>
      rw [children_block, read, List.getElem?_map]
      cases (lastOfEachName (s.bodies files origin settings.matchMode))[i]? with
      | none => simp
      | some s' => simpa using ih levels s'

/-- Every block of a tree is built from the source at its address. -/
theorem exists_of_at?_block {levels : Nat} {a : Address} {s : Source} {b : Block}
    (h : (s.block files origin settings levels).at? a = some b) :
    a.length ≤ levels ∧ ∃ s', s.at? files origin settings.matchMode a = some s' ∧
      b = s'.block files origin settings (levels - a.length) := by
  rw [at?_block] at h
  split at h
  · next hle =>
    obtain ⟨s', hs', rfl⟩ := Option.map_eq_some_iff.mp h
    exact ⟨hle, s', hs', rfl⟩
  · cases h

theorem exists_of_at?_build {t : Text} {a : Address} {b : Block}
    (h : (Block.build files origin settings t).block.at? a = some b) :
    a.length ≤ maxDepth + 1 ∧ ∃ s,
      (⟨[], t⟩ : Source).at? files origin settings.matchMode a = some s ∧
      b = s.block files origin settings (maxDepth + 1 - a.length) :=
  exists_of_at?_block h

end Source
end BlockTemplate
