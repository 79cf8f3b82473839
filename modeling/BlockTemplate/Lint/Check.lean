import BlockTemplate.Lint.Warning
import BlockTemplate.Origin

/-!
The check of a template's markup. It reads the text as it stands, without the contents of
included files, so that every warning has its place in that text. Levels are checked as deep as
blocks are built.
-/
namespace BlockTemplate.Lint

/-- The inclusions that cannot be read. -/
def missing (files : Files) (origin : Origin) (t : Text) : List Warning :=
  (Token.inclusions t).filterMap fun (path, span) =>
    match origin.read? files path with
    | some _ => none
    | none => some ⟨.missingInclusion path (origin.locate path), span⟩

/-- The warnings of regions in a row, each within its body and, if its name is among `seen`, one
for the region itself. The level of the regions starts at byte `m`. -/
def inRegions (inBody : Nat → Text → List Warning) (m : Nat) (seen : List Text) :
    List (Region × Span) → List Warning
  | [] => []
  | (r, span) :: rest =>
    (if r.name ∈ seen then [⟨.duplicate r.name, span.shift m⟩] else []) ++
      inBody (m + (r.bodySpan span.start).start) r.bodyText ++
      inRegions inBody m (r.name :: seen) rest

/-- The warnings of a text that starts at byte `m`, in so many levels. -/
def inLevels (mode : MatchMode) : Nat → Nat → Text → List Warning
  | 0, _, _ => []
  | levels + 1, m, t =>
    let level := Level.ofText mode t
    level.unterminated.map (fun (name, span) => ⟨.unterminated name, span.shift m⟩) ++
      level.strayEnds.map (fun (name, span) => ⟨.strayEnd name, span.shift m⟩) ++
      inRegions (inLevels mode levels) m [] level.regions

/-- All warnings of a text, from left to right. -/
def check (files : Files) (origin : Origin) (mode : MatchMode) (t : Text) : List Warning :=
  Warning.sort (missing files origin t ++ inLevels mode (maxDepth + 1) 0 t)

end BlockTemplate.Lint
