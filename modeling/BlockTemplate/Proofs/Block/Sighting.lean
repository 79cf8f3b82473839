import BlockTemplate.Lint.Warning
import BlockTemplate.Proofs.Block.Placing
import BlockTemplate.Proofs.Level.Regions

/-!
What a build meets, with the place in its source. Notices give the bytes of a marker within the
text of their own block; a sighting adds the bytes within the whole source, found by adding up
where the texts of the blocks start. Leaving these out gives the build and its notices again.
-/
namespace BlockTemplate

/-- A notice with the bytes of the source that it is about. -/
structure Sighting where
  notice : Notice
  span : Span
deriving DecidableEq, Repr

namespace Sighting

/-- The warning about the same bytes, if the notice is about a marker or a replaced child. -/
def warning? (s : Sighting) : Option Warning :=
  match s.notice with
  | .unterminated marker _ _ => some ⟨.unterminated marker, s.span⟩
  | .strayEnd marker _ _ => some ⟨.strayEnd marker, s.span⟩
  | .redefined block _ => some ⟨.duplicate block, s.span⟩
  | _ => none

end Sighting

namespace Block

/-- A block with what was seen while it was built. -/
structure Seen where
  block : Block
  sightings : List Sighting

def Seen.toBuilt (s : Seen) : Built := ⟨s.block, s.sightings.map Sighting.notice⟩

/-- A child of the name is there already, so that placing `b` replaces it. -/
def replaces (b : Block) (cs : List Block) : Bool := cs.any (·.name == b.name)

/-- The sightings of children with their regions' spans, placed one by one behind `cs`. -/
def placingSightings (parent : Text) (cs : List Block) : List (Seen × Span) → List Sighting
  | [] => []
  | (c, span) :: rest =>
    c.sightings ++
      (if replaces c.block cs then [⟨.redefined c.block.name parent, span⟩] else []) ++
      placingSightings parent (place c.block cs) rest

/-- The sightings of markers that are left as text at a level that starts at byte `m`. -/
def levelSightings (name : Text) (m : Nat) (level : Level) : List Sighting :=
  level.unterminated.map (fun (marker, span) => ⟨.unterminated marker name span, span.shift m⟩) ++
    level.strayEnds.map (fun (marker, span) => ⟨.strayEnd marker name span, span.shift m⟩)

/-- Notices about a whole text that starts at byte `m`. -/
def wholeSightings (m : Nat) (t : Text) (notices : List Notice) : List Sighting :=
  notices.map fun notice => ⟨notice, m, m + t.byteSize⟩

/-- Builds a block from a text that starts at byte `m` of the source. -/
def buildAt (files : Files) (origin : Origin) (settings : Settings) :
    Nat → Nat → Text → Text → Seen
  | 0, m, name, t =>
    let expanded := origin.expand files t
    ⟨new name expanded [] settings.style,
      wholeSightings m t (origin.expandNotices files t ++ sizeNotices settings name expanded ++
        [.tooDeep name])⟩
  | levels + 1, m, name, t =>
    let expanded := origin.expand files t
    let level := Level.ofText settings.matchMode expanded
    let seen := level.regions.map fun (r, span) =>
      (buildAt files origin settings levels (m + (r.bodySpan span.start).start) r.name r.bodyText,
        span.shift m)
    let children := placeAll (seen.map fun s => s.1.block)
    ⟨new name (slotted level) children settings.style,
      wholeSightings m t (origin.expandNotices files t ++ sizeNotices settings name expanded) ++
        levelSightings name m level ++ placingSightings name [] seen ++
        wholeSightings m t [.built name children.length]⟩

theorem name_buildAt (files : Files) (origin : Origin) (settings : Settings) (levels m : Nat)
    (name t : Text) : (buildAt files origin settings levels m name t).block.name = name := by
  cases levels <;> rfl

@[simp] theorem map_notice_wholeSightings (m : Nat) (t : Text) (notices : List Notice) :
    (wholeSightings m t notices).map Sighting.notice = notices := by
  simp [wholeSightings, Function.comp_def]

@[simp] theorem map_notice_levelSightings (name : Text) (m : Nat) (level : Level) :
    (levelSightings name m level).map Sighting.notice = levelNotices name level := by
  simp [levelSightings, levelNotices, Function.comp_def]

theorem replaces_iff {b : Block} {cs : List Block} :
    replaces b cs ↔ b.name ∈ cs.map Block.name := by
  simp [replaces]

/-- A child is noticed as redefined when its placing replaces another. -/
theorem map_notice_placingSightings (parent : Text) (cs : List Block) (names : List Text)
    (hnames : ∀ name, name ∈ names ↔ name ∈ cs.map Block.name) (seen : List (Seen × Span)) :
    (placingSightings parent cs seen).map Sighting.notice =
      childNotices parent names (seen.map fun s => s.1.toBuilt) := by
  induction seen generalizing cs names with
  | nil => rfl
  | cons s rest ih =>
    obtain ⟨c, span⟩ := s
    have hplaced : ∀ name, name ∈ c.block.name :: names ↔
        name ∈ (place c.block cs).map Block.name := by
      intro name
      rw [List.mem_cons, hnames, mem_map_name_place]
    have hreplaces : replaces c.block cs ↔ c.block.name ∈ names := by
      rw [replaces_iff, hnames]
    simp only [placingSightings, List.map_append, List.map_cons, childNotices, ih _ _ hplaced,
      Seen.toBuilt]
    by_cases h : c.block.name ∈ names
    · simp [h, hreplaces.mpr h]
    · simp [h, hreplaces.not.mpr h]

/-- Without the places in the source, a build with sightings is a build with notices. -/
theorem toBuilt_buildAt (files : Files) (origin : Origin) (settings : Settings) (levels m : Nat)
    (name t : Text) : (buildAt files origin settings levels m name t).toBuilt =
      buildWithin files origin settings levels name t := by
  induction levels generalizing m name t with
  | zero => simp [buildAt, buildWithin, Seen.toBuilt]
  | succ levels ih =>
    have hblock := fun m name t => congrArg Built.block (ih m name t)
    have hnotices := fun m name t => congrArg Built.notices (ih m name t)
    simp only [Seen.toBuilt] at hblock hnotices
    simp only [buildAt, buildWithin, Seen.toBuilt, List.map_append, map_notice_wholeSightings,
      map_notice_levelSightings, map_notice_placingSightings name [] [] (by simp), List.map_map,
      Function.comp_def, hblock, hnotices]

end Block
end BlockTemplate
